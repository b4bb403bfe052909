import Mathlib.Data.List.Basic

/-!
# Receive loops

A `ReceiveLoop` takes items one at a time, leaves when an item passes its stop test, and gives
every other item to its body, which may fail.  `foldlM_eq_ok_iff` and `foldlM_invariant` are the
induction over the items: bodies that do not fail, and what their states have gathered.
`run_append_stop_iff` reduces "it leaves through the stop test at the last item and no earlier" to
the two things that can go wrong before: an item that passes the test, and a body that fails.
`run_arrived` is about every moment before.
-/

namespace LocTag.Lib

/-- A loop over received items: its stop test and its body. -/
structure ReceiveLoop (σ ε α : Type) where
  stop : α → Bool
  body : σ → α → Except ε σ

/-- How a receive loop ends on a finite input, with the items it did not take. -/
inductive LoopEnd (σ ε α : Type) where
  | stopped (s : σ) (rest : List α)
  | failed (e : ε) (s : σ) (rest : List α)
  | waiting (s : σ)

variable {σ ε α : Type}

section Fold

variable {f : σ → α → Except ε σ}

/-- A fold whose steps fail by the item alone ends iff no item makes it fail. -/
theorem foldlM_eq_ok_iff {P : α → Prop} (h : ∀ s a, (∃ s', f s a = .ok s') ↔ P a) (as : List α)
    (s : σ) : (∃ s', as.foldlM f s = .ok s') ↔ ∀ a ∈ as, P a := by
  induction as generalizing s with
  | nil => exact ⟨fun _ a ha => absurd ha List.not_mem_nil, fun _ => ⟨s, rfl⟩⟩
  | cons a as ih =>
    rw [List.forall_mem_cons, List.foldlM_cons]
    constructor
    · rintro ⟨s', hs'⟩
      cases hfa : f s a with
      | error e =>
        rw [hfa] at hs'
        cases hs'
      | ok s₁ =>
        rw [hfa] at hs'
        exact ⟨(h s a).1 ⟨s₁, hfa⟩, (ih s₁).1 ⟨s', hs'⟩⟩
    · rintro ⟨ha, has⟩
      obtain ⟨s₁, hs₁⟩ := (h s a).2 ha
      obtain ⟨s', hs'⟩ := (ih s₁).2 has
      exact ⟨s', by rw [hs₁]; exact hs'⟩

/-- What holds initially and is preserved by every step that ends holds of the end of the fold;
`I` sees the items taken. -/
theorem foldlM_invariant {I : List α → σ → Prop}
    (hstep : ∀ done s a s', I done s → f s a = .ok s' → I (done ++ [a]) s') {as : List α} {s s' : σ}
    {done : List α} (h0 : I done s) (h : as.foldlM f s = .ok s') : I (done ++ as) s' := by
  induction as generalizing s done with
  | nil =>
    obtain rfl : s = s' := Except.ok.inj h
    rwa [List.append_nil]
  | cons a as ih =>
    rw [List.foldlM_cons] at h
    cases hfa : f s a with
    | error e =>
      rw [hfa] at h
      cases h
    | ok s₁ =>
      rw [hfa] at h
      have := ih (hstep done s a s₁ h0 hfa) h
      rwa [List.append_assoc, List.singleton_append] at this

/-- A fold goes through when every step does from a state that fits the items before it. -/
theorem foldlM_progress {I : List α → σ → Prop} (as : List α)
    (hstep : ∀ done a rest s, as = done ++ a :: rest → I done s →
      ∃ s', f s a = .ok s' ∧ I (done ++ [a]) s') {s : σ} (h0 : I [] s) :
    ∃ s', as.foldlM f s = .ok s' ∧ I as s' := by
  suffices h : ∀ rest done s, as = done ++ rest → I done s →
      ∃ s', rest.foldlM f s = .ok s' ∧ I as s' from h as [] s rfl h0
  intro rest
  induction rest with
  | nil =>
    intro done s has hI
    exact ⟨s, rfl, by rwa [has, List.append_nil]⟩
  | cons a rest ih =>
    intro done s has hI
    obtain ⟨s₁, hs₁, hI₁⟩ := hstep done a rest s has hI
    obtain ⟨s', hs', hI'⟩ := ih (done ++ [a]) s₁ (by rw [has]; simp) hI₁
    exact ⟨s', by rw [List.foldlM_cons, hs₁]; exact hs', hI'⟩

end Fold

/-- The state a loop has reached. -/
def LoopEnd.state : LoopEnd σ ε α → σ
  | .stopped s _ => s
  | .failed _ s _ => s
  | .waiting s => s

namespace ReceiveLoop

variable (L : ReceiveLoop σ ε α)

def run (s : σ) : List α → LoopEnd σ ε α
  | [] => .waiting s
  | a :: as =>
    if L.stop a then .stopped s as
    else match L.body s a with
      | .ok s' => run s' as
      | .error e => .failed e s as

/-- **The loop leaves at the stop item** iff it takes every item before as data. -/
theorem run_append_stop_iff {z : α} (hz : L.stop z = true) (as : List α) (s s' : σ) :
    L.run s (as ++ [z]) = .stopped s' [] ↔
      (∀ a ∈ as, L.stop a = false) ∧ as.foldlM L.body s = .ok s' := by
  induction as generalizing s with
  | nil =>
    simp only [List.nil_append, run, hz, if_true, List.foldlM_nil, List.not_mem_nil, false_implies,
      implies_true, true_and, LoopEnd.stopped.injEq, and_true]
    constructor
    · intro h
      exact congrArg Except.ok h
    · intro h
      exact Except.ok.inj h
  | cons a as ih =>
    simp only [List.cons_append, run, List.mem_cons, forall_eq_or_imp, List.foldlM_cons]
    cases hstop : L.stop a with
    | true => simp
    | false =>
      cases hbody : L.body s a with
      | error e =>
        have hfail : (Except.error e >>= fun s => as.foldlM L.body s) ≠ Except.ok s' := by
          intro h
          cases h
        simp [hfail]
      | ok s₁ =>
        have hbind : (Except.ok s₁ >>= fun s => as.foldlM L.body s) = as.foldlM L.body s₁ := rfl
        simp only [Bool.false_eq_true, if_false, true_and, hbind]
        exact ih s₁

/-- The same for a body that fails by the item alone. -/
theorem exists_run_append_stop_iff {z : α} (hz : L.stop z = true) {P : α → Prop}
    (hP : ∀ s a, (∃ s', L.body s a = .ok s') ↔ P a) (as : List α) (s : σ) :
    (∃ s', L.run s (as ++ [z]) = .stopped s' []) ↔ ∀ a ∈ as, L.stop a = false ∧ P a := by
  simp only [L.run_append_stop_iff hz, exists_and_left, foldlM_eq_ok_iff hP, forall₂_and]

/-- **Whatever arrives, the loop has taken the first items as data**, one by one; all of them while it
is waiting. -/
theorem run_taken (as : List α) (s : σ) : ∃ done rest, as = done ++ rest ∧
    done.foldlM L.body s = .ok (L.run s as).state ∧ (∀ a ∈ done, L.stop a = false) ∧
    (L.run s as = .waiting (L.run s as).state → rest = []) := by
  induction as generalizing s with
  | nil => exact ⟨[], [], rfl, rfl, nofun, fun _ => rfl⟩
  | cons a as ih =>
    rw [run]
    cases hstop : L.stop a with
    | true => exact ⟨[], a :: as, rfl, rfl, nofun, nofun⟩
    | false =>
      cases hbody : L.body s a with
      | error e => exact ⟨[], a :: as, rfl, rfl, nofun, nofun⟩
      | ok s' =>
        obtain ⟨done, rest, has, hfold, hdata, hwait⟩ := ih s'
        refine ⟨a :: done, rest, by rw [has, List.cons_append], ?_, ?_, hwait⟩
        · rw [List.foldlM_cons, hbody]
          exact hfold
        · exact List.forall_mem_cons.2 ⟨hstop, hdata⟩

/-- **At every moment**, of items with a stop item behind them: the loop has taken the first ones, and
all that have arrived while it is waiting. -/
theorem run_arrived {z : α} (hz : L.stop z = true) {as arrived : List α}
    (harrived : arrived <+: as ++ [z]) (s : σ) : ∃ done, done <+: as ∧ done <+: arrived ∧
      done.foldlM L.body s = .ok (L.run s arrived).state ∧
      (L.run s arrived = .waiting (L.run s arrived).state → done = arrived) := by
  obtain ⟨done, rest, rfl, hfold, hdata, hwait⟩ := L.run_taken arrived s
  refine ⟨done, ?_, List.prefix_append done rest, hfold, fun h => ?_⟩
  · rcases List.prefix_concat_iff.1 ((List.prefix_append done rest).trans harrived) with rfl | h
    · have hstop := hdata z (List.mem_append_right as (List.mem_singleton_self z))
      rw [hz] at hstop
      cases hstop
    · exact h
  · rw [hwait h, List.append_nil]

end ReceiveLoop

end LocTag.Lib
