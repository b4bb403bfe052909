/-!
# Runs of a system

`Always` and `Meets` speak of the run of a total step function over a list of actions, and
`always_iff_meets` is the induction over it; `meets_or_last` splits a run at the last step that is not
as it should be.

`execute` runs statements up to the first that throws, which keeps what the ones before it assigned.
`Until` is the run of a task up to the output that stops it, and `Partly` such a run so far.

A system has a first state and a step function, which fails where an action is not possible.
`Reachable S ok s`: some run of `S` ends in `s`, all of whose steps satisfy `ok`, a condition on the
state before the step and the action.  `Reachable.invariant` is the induction over such runs, and
`Reachable.run` makes them of lists of actions.
-/

namespace LocTag.Lib

section Always

variable {σ α : Type} (step : σ → α → σ)

/-- `P` holds in every state of the run from `s` that takes the actions `as`. -/
def Always (P : σ → Prop) : σ → List α → Prop
  | s, [] => P s
  | s, a :: as => P s ∧ Always P (step s a) as

/-- Every step of the run from `s` that takes the actions `as` is `ok`. -/
def Meets (ok : σ → α → Prop) : σ → List α → Prop
  | _, [] => True
  | s, a :: as => ok s a ∧ Meets ok (step s a) as

variable {step}

/-- **An invariant holds throughout a run** iff it holds first and every step is `ok`, where `ok` says
exactly which steps preserve it. -/
theorem always_iff_meets {I : σ → Prop} {ok : σ → α → Prop}
    (hstep : ∀ s a, I s → (I (step s a) ↔ ok s a)) {s : σ} {as : List α} :
    Always step I s as ↔ I s ∧ Meets step ok s as := by
  induction as generalizing s with
  | nil => simp [Always, Meets]
  | cons a as ih =>
    rw [Always, Meets, ih]
    apply and_congr_right
    intro hs
    rw [hstep s a hs]

/-- What holds throughout a run holds at its end. -/
theorem Always.last {P : σ → Prop} {s : σ} {as : List α} (h : Always step P s as) :
    P (as.foldl step s) := by
  induction as generalizing s with
  | nil => exact h
  | cons a as ih => exact ih h.2

/-- **The last step that is not `ok`**, if there is one. -/
theorem meets_or_last {ok : σ → α → Prop} (s : σ) (as : List α) :
    Meets step ok s as ∨ ∃ front a rest, as = front ++ a :: rest ∧ ¬ ok (front.foldl step s) a ∧
      Meets step ok (step (front.foldl step s) a) rest := by
  induction as generalizing s with
  | nil => exact .inl trivial
  | cons a as ih =>
    rcases ih (step s a) with hmeets | ⟨front, b, rest, rfl, hlast⟩
    · by_cases hok : ok s a
      · exact .inl ⟨hok, hmeets⟩
      · exact .inr ⟨[], a, as, rfl, hok, hmeets⟩
    · exact .inr ⟨a :: front, b, rest, rfl, hlast⟩

end Always

section Execute

variable {σ ε : Type}

/-- The statements `fs` one after the other: the state they leave, and the exception if one is
thrown. -/
def execute (s : σ) : List (σ → Except ε σ) → σ × Option ε
  | [] => (s, none)
  | f :: fs => match f s with
    | .ok s => execute s fs
    | .error e => (s, some e)

theorem execute_ok {f : σ → Except ε σ} {s s' : σ} (h : f s = .ok s')
    (fs : List (σ → Except ε σ)) : execute s (f :: fs) = execute s' fs := by
  rw [execute, h]

theorem execute_error {f : σ → Except ε σ} {s : σ} {e : ε} (h : f s = .error e)
    (fs : List (σ → Except ε σ)) : execute s (f :: fs) = (s, some e) := by
  rw [execute, h]

/-- **A run throws what one of its statements throws**, and it does throw where one of them does
from every state. -/
theorem execute_throws {f : σ → Except ε σ} {fs : List (σ → Except ε σ)} {e : ε} (hf : f ∈ fs)
    (hthrows : ∀ s, f s = .error e) (honly : ∀ g ∈ fs, ∀ s e', g s = .error e' → e' = e) (s : σ) :
    (execute s fs).2 = some e := by
  induction fs generalizing s with
  | nil => cases hf
  | cons g fs ih =>
    cases hg : g s with
    | error e' =>
      rw [execute_error hg, honly g List.mem_cons_self s e' hg]
    | ok s' =>
      rw [execute_ok hg]
      rcases List.mem_cons.1 hf with rfl | hf
      · rw [hthrows] at hg
        cases hg
      · exact ih hf (fun g hg => honly g (List.mem_cons_of_mem _ hg)) s'

end Execute

section Until

variable {σ β : Type}

/-- A task that is stepped until one of its outputs stops it, with the outputs up to that one. -/
inductive Until (step : σ → σ × β) (stop : β → Prop) : σ → List β → Prop
  | last {s} : stop (step s).2 → Until step stop s [(step s).2]
  | next {s out} : ¬ stop (step s).2 → Until step stop (step s).1 out →
      Until step stop s ((step s).2 :: out)

/-- There is one run at most. -/
theorem Until.unique {step : σ → σ × β} {stop : β → Prop} {s : σ} {out out' : List β}
    (h : Until step stop s out) (h' : Until step stop s out') : out = out' := by
  induction h generalizing out' with
  | last hstop =>
    cases h' with
    | last _ => rfl
    | next hgo _ => exact absurd hstop hgo
  | next hgo _ ih =>
    cases h' with
    | last hstop => exact absurd hstop hgo
    | next _ hrest => rw [ih hrest]

/-- A task that has been stepped for a while, with its outputs, none but the last of which stops it. -/
inductive Partly (step : σ → σ × β) (stop : β → Prop) : σ → List β → σ → Prop
  | start {s} : Partly step stop s [] s
  | once {s} : Partly step stop s [(step s).2] (step s).1
  | next {s out s'} : ¬ stop (step s).2 → Partly step stop (step s).1 out s' →
      Partly step stop s ((step s).2 :: out) s'

/-- One more step of a task that has not been stopped. -/
theorem Partly.more {step : σ → σ × β} {stop : β → Prop} {s s' : σ} {out : List β}
    (h : Partly step stop s out s') (hgo : ∀ b ∈ out, ¬ stop b) :
    Partly step stop s (out ++ [(step s').2]) (step s').1 := by
  induction h with
  | start => exact .once
  | once => exact .next (hgo _ List.mem_cons_self) .once
  | next hfirst _ ih => exact .next hfirst (ih fun b hb => hgo b (List.mem_cons_of_mem _ hb))

/-- **What a task has put out is the beginning of what it puts out until it is stopped.** -/
theorem Partly.isPrefix {step : σ → σ × β} {stop : β → Prop} {s s' : σ} {out all : List β}
    (h : Partly step stop s out s') (hall : Until step stop s all) : out <+: all := by
  induction h generalizing all with
  | start => exact List.nil_prefix
  | once =>
    cases hall with
    | last _ => exact List.prefix_rfl
    | next _ _ => exact List.cons_prefix_cons.2 ⟨rfl, List.nil_prefix⟩
  | next hgo _ ih =>
    cases hall with
    | last hstop => exact absurd hstop hgo
    | next _ hrest => exact List.cons_prefix_cons.2 ⟨rfl, ih hrest⟩

end Until

/-- A state machine with actions. -/
structure System (σ α : Type) where
  init : σ
  step : σ → α → Option σ

namespace System

variable {σ α : Type} {S : System σ α} {ok : σ → α → Prop}

/-- The states that runs reach from `s₀` all of whose steps are `ok`. -/
inductive ReachableFrom (S : System σ α) (ok : σ → α → Prop) (s₀ : σ) : σ → Prop
  | refl : ReachableFrom S ok s₀ s₀
  | tail {s a s'} : ReachableFrom S ok s₀ s → ok s a → S.step s a = some s' →
      ReachableFrom S ok s₀ s'

theorem ReachableFrom.trans {s₀ s₁ s₂ : σ} (h : S.ReachableFrom ok s₀ s₁)
    (h' : S.ReachableFrom ok s₁ s₂) : S.ReachableFrom ok s₀ s₂ := by
  induction h' with
  | refl => exact h
  | tail _ hok hs ih => exact ih.tail hok hs

theorem ReachableFrom.imp {ok' : σ → α → Prop} (himp : ∀ s a, ok s a → ok' s a) {s₀ s : σ}
    (h : S.ReachableFrom ok s₀ s) : S.ReachableFrom ok' s₀ s := by
  induction h with
  | refl => exact .refl
  | tail _ hok hs ih => exact ih.tail (himp _ _ hok) hs

/-- The states that runs reach all of whose steps are `ok`. -/
def Reachable (S : System σ α) (ok : σ → α → Prop) : σ → Prop := S.ReachableFrom ok S.init

/-- **What holds first and is preserved by every step holds in every state reached.** -/
theorem Reachable.invariant {I : σ → Prop} (hinit : I S.init)
    (hstep : ∀ s a s', I s → ok s a → S.step s a = some s' → I s') {s : σ}
    (h : S.Reachable ok s) : I s := by
  induction h with
  | refl => exact hinit
  | tail _ hok hs ih => exact hstep _ _ _ ih hok hs

/-- A run, as long as its steps are `ok`. -/
def run (S : System σ α) (ok : σ → α → Prop) [∀ s a, Decidable (ok s a)] (s : σ) :
    List α → Option σ
  | [] => some s
  | a :: as => if ok s a then (S.step s a).bind fun s => run S ok s as else none

theorem ReachableFrom.run [∀ s a, Decidable (ok s a)] {s₀ s s' : σ} {as : List α}
    (h : S.ReachableFrom ok s₀ s) (hrun : S.run ok s as = some s') : S.ReachableFrom ok s₀ s' := by
  induction as generalizing s with
  | nil =>
    obtain rfl := Option.some.inj hrun
    exact h
  | cons a as ih =>
    rw [System.run] at hrun
    split at hrun
    · rename_i hok
      obtain ⟨s₁, hs₁, hrun⟩ := Option.bind_eq_some_iff.1 hrun
      exact ih (h.tail hok hs₁) hrun
    · cases hrun

/-- The same, of actions of one kind. -/
theorem ReachableFrom.run_forall [∀ s a, Decidable (ok s a)] {kind : α → Prop} {s₀ s s' : σ}
    {as : List α} (h : S.ReachableFrom (fun s a => ok s a ∧ kind a) s₀ s) (has : ∀ a ∈ as, kind a)
    (hrun : S.run ok s as = some s') : S.ReachableFrom (fun s a => ok s a ∧ kind a) s₀ s' := by
  induction as generalizing s with
  | nil =>
    obtain rfl := Option.some.inj hrun
    exact h
  | cons a as ih =>
    obtain ⟨ha, has⟩ := List.forall_mem_cons.1 has
    rw [System.run] at hrun
    split at hrun
    · rename_i hok
      obtain ⟨s₁, hs₁, hrun⟩ := Option.bind_eq_some_iff.1 hrun
      exact ih (h.tail ⟨hok, ha⟩ hs₁) has hrun
    · cases hrun

end System

end LocTag.Lib
