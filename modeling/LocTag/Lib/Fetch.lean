import Mathlib.Data.List.Basic
import Mathlib.Tactic.Ring

/-!
# Programs that read bytes

A `Fetch α` asks for bytes by index and ends with a value; nothing else is observable.  Over a
partial memory `m` (`none` where there is no byte)

* `run m f` is the value, `none` as soon as a byte is asked for that is not there;
* `consulted m f` is the list of the indices asked for, the failing one included.

`Reads m f P` (every index consulted satisfies `P`) is the form the bounds proofs use, and
`value m f` is the value with `0` read where there is no byte.  `run_eq_some_iff` splits a run into
the two: it ends with `a` iff every index consulted has a byte and the value is `a`.  `run_congr`
and `run_mono` say that a run depends on the bytes consulted only.
-/

namespace LocTag.Lib

/-- A memory: the byte at every index, where there is one. -/
abbrev Mem := ℕ → Option UInt8

/-- A computation that reads bytes by index. -/
inductive Fetch (α : Type) where
  | done (a : α) : Fetch α
  | read (i : ℕ) (k : UInt8 → Fetch α) : Fetch α

namespace Fetch

variable {α β : Type}

/-- Sequencing. -/
protected def bind : Fetch α → (α → Fetch β) → Fetch β
  | done a, f => f a
  | read i k, f => read i fun b => (k b).bind f

instance : Monad Fetch where
  pure := done
  bind := Fetch.bind

/-- The value of a run over `m`. -/
def run (m : Mem) : Fetch α → Option α
  | done a => some a
  | read i k => match m i with
    | none => none
    | some b => run m (k b)

/-- The indices a run over `m` asks for, in order. -/
def consulted (m : Mem) : Fetch α → List ℕ
  | done _ => []
  | read i k => i :: match m i with
    | none => []
    | some b => consulted m (k b)

/-- The value of a run that reads `0` where `m` has no byte. -/
def value (m : Mem) : Fetch α → α
  | done a => a
  | read i k => value m (k ((m i).getD 0))

/-- Every index consulted satisfies `P`. -/
def Reads (m : Mem) (f : Fetch α) (P : ℕ → Prop) : Prop := ∀ i ∈ consulted m f, P i

/-- One byte. -/
def u8 (i : ℕ) : Fetch UInt8 := read i done

/-! ### Values and runs -/

@[simp] theorem value_pure (m : Mem) (a : α) : value m (pure a) = a := rfl

-- not by `rfl`, so that `simp` renews the instance of an `if` it rewrites the condition of
@[simp] theorem value_u8 (m : Mem) (i : ℕ) : value m (u8 i) = (m i).getD 0 := by
  simp only [u8, value]

@[simp] theorem value_bind (m : Mem) (x : Fetch α) (f : α → Fetch β) :
    value m (x >>= f) = value m (f (value m x)) := by
  induction x with
  | done a => rfl
  | read i k ih => exact ih _

@[simp] theorem value_ite (m : Mem) (p : Prop) [Decidable p] (x y : Fetch α) :
    value m (if p then x else y) = if p then value m x else value m y := by
  split <;> rfl

@[simp] theorem run_pure (m : Mem) (a : α) : run m (pure a) = some a := rfl

@[simp] theorem run_u8 (m : Mem) (i : ℕ) : run m (u8 i) = m i := by
  simp only [u8, run]
  cases m i <;> rfl

@[simp] theorem run_bind (m : Mem) (x : Fetch α) (f : α → Fetch β) :
    run m (x >>= f) = (run m x).bind fun a => run m (f a) := by
  induction x with
  | done a => rfl
  | read i k ih =>
    show run m (read i fun b => (k b).bind f) = _
    simp only [run]
    cases m i with
    | none => rfl
    | some b => exact ih b

/-- **A run ends iff every index it asks for has a byte**, and then with the value. -/
theorem run_eq_some_iff {m : Mem} {f : Fetch α} {a : α} :
    run m f = some a ↔ Reads m f (fun i => (m i).isSome) ∧ value m f = a := by
  induction f with
  | done a' => simp [run, Reads, consulted, value]
  | read i k ih =>
    simp only [run, Reads, consulted, value, List.mem_cons, forall_eq_or_imp]
    cases h : m i with
    | none => simp
    | some b => simpa [Reads] using ih b

theorem run_value {m : Mem} {f : Fetch α} (h : Reads m f fun i => (m i).isSome) :
    run m f = some (value m f) := run_eq_some_iff.2 ⟨h, rfl⟩

/-! ### Indices consulted -/

section Consulted

variable {m : Mem} {P : ℕ → Prop}

@[simp] theorem reads_pure (a : α) : Reads m (pure a) P := by
  intro i hi
  exact absurd hi List.not_mem_nil

@[simp] theorem reads_u8 (i : ℕ) : Reads m (u8 i) P ↔ P i := by
  unfold Reads u8 consulted
  cases m i <;> simp [consulted]

theorem reads_ite (p : Prop) [Decidable p] (x y : Fetch α) :
    Reads m (if p then x else y) P ↔ (p → Reads m x P) ∧ (¬ p → Reads m y P) := by
  split <;> simp_all

/-- Reads that satisfy `P` are reads that satisfy what follows from `P`. -/
theorem Reads.imp {f : Fetch α} {Q : ℕ → Prop} (h : Reads m f P) (hPQ : ∀ i, P i → Q i) :
    Reads m f Q := fun i hi => hPQ i (h i hi)

theorem consulted_bind (x : Fetch α) (f : α → Fetch β) :
    consulted m (x >>= f) =
      consulted m x ++ ((run m x).elim [] fun a => consulted m (f a)) := by
  induction x with
  | done a => rfl
  | read i k ih =>
    show consulted m (read i fun b => (k b).bind f) = _
    simp only [consulted, run]
    cases m i with
    | none => rfl
    | some b => exact congrArg (i :: ·) (ih b)

/-- **The reads of a sequence**, where `m` has the bytes `P` allows: those of its first part and
those of its second part at the value of the first. -/
theorem reads_bind (hP : ∀ i, P i → (m i).isSome) (x : Fetch α) (f : α → Fetch β) :
    Reads m (x >>= f) P ↔ Reads m x P ∧ Reads m (f (value m x)) P := by
  have hsplit : Reads m (x >>= f) P ↔
      Reads m x P ∧ ∀ a, run m x = some a → Reads m (f a) P := by
    unfold Reads
    rw [consulted_bind]
    cases h : run m x <;> simp [or_imp, forall_and]
  rw [hsplit]
  apply and_congr_right
  intro hx
  simp [run_value (hx.imp hP)]

end Consulted

/-- A run depends on the bytes it consults only. -/
theorem run_congr {m m' : Mem} (f : Fetch α) (h : Reads m f fun i => m i = m' i) :
    run m f = run m' f ∧ consulted m f = consulted m' f := by
  induction f with
  | done a => exact ⟨rfl, rfl⟩
  | read i k ih =>
    simp only [Reads, consulted, List.mem_cons, forall_eq_or_imp] at h
    obtain ⟨hi, hk⟩ := h
    simp only [run, consulted, ← hi]
    cases hm : m i with
    | none => exact ⟨rfl, rfl⟩
    | some b =>
      rw [hm] at hk
      exact ⟨(ih b hk).1, congrArg (i :: ·) (ih b hk).2⟩

/-- A run that ends goes the same way over every memory that has at least its bytes. -/
theorem run_mono {m m' : Mem} (hle : ∀ i b, m i = some b → m' i = some b) {f : Fetch α} {a : α}
    (h : run m f = some a) : run m' f = some a := by
  have hr := (run_eq_some_iff.1 h).1
  rw [← h]
  refine (run_congr f fun i hi => ?_).1.symm
  obtain ⟨b, hb⟩ := Option.isSome_iff_exists.1 (hr i hi)
  rw [hb, hle i b hb]

end Fetch

end LocTag.Lib
