import Mathlib.Data.Nat.Basic

/-!
# Machines that run to an end

A machine goes from state to state until a step ends it with a result.  `Ends` is the whole run,
and `runFor` carries it out as long as there is fuel.

`Ends.result` is the induction over a run with an invariant, `runFor_isSome` shows that a run ends by
a measure, and `runFor_match` compares two machines step by step.
-/

namespace LocTag.Lib

section Machine

variable {σ β : Type}

/-- The run from a state ends with a result. -/
inductive Ends (step : σ → Except β σ) : σ → β → Prop
  | stop {s b} : step s = .error b → Ends step s b
  | go {s s' b} : step s = .ok s' → Ends step s' b → Ends step s b

/-- The result, if the run ends within so many steps. -/
def runFor (step : σ → Except β σ) : ℕ → σ → Option β
  | 0, _ => none
  | fuel + 1, s => match step s with
    | .error b => some b
    | .ok s' => runFor step fuel s'

variable {step : σ → Except β σ}

theorem ends_of_runFor {fuel : ℕ} {s : σ} {b : β} (h : runFor step fuel s = some b) :
    Ends step s b := by
  induction fuel generalizing s with
  | zero => cases h
  | succ fuel ih =>
    rw [runFor] at h
    cases hs : step s with
    | error b' =>
      rw [hs] at h
      obtain rfl := Option.some.inj h
      exact .stop hs
    | ok s' =>
      rw [hs] at h
      exact .go hs (ih h)

/-- **A result of a run**: an invariant of its states, and what it says where a step ends it. -/
theorem Ends.result {I : σ → Prop} {Q : β → Prop} (hgo : ∀ s s', I s → step s = .ok s' → I s')
    (hstop : ∀ s b, I s → step s = .error b → Q b) {s : σ} {b : β} (h : Ends step s b) (hs : I s) :
    Q b := by
  induction h with
  | stop hstep => exact hstop _ _ hs hstep
  | go hstep _ ih => exact ih (hgo _ _ hs hstep)

/-- **A run ends** where a measure gets smaller with every step, within so many steps. -/
theorem runFor_isSome {I : σ → Prop} (m : σ → ℕ)
    (hgo : ∀ s s', I s → step s = .ok s' → I s' ∧ m s' < m s) {fuel : ℕ} {s : σ} (hs : I s)
    (hfuel : m s < fuel) : (runFor step fuel s).isSome := by
  induction fuel generalizing s with
  | zero => omega
  | succ fuel ih =>
    rw [runFor]
    cases hstep : step s with
    | error b => rfl
    | ok s' =>
      obtain ⟨hs', hlt⟩ := hgo s s' hs hstep
      exact ih hs' (by omega)

end Machine

section Simulation

variable {σ τ β γ : Type} {step : σ → Except β σ} {step' : τ → Except γ τ}

/-- Two steps that go on with related states, or end with related results. -/
def StepsMatch (R : σ → τ → Prop) (Q : β → γ → Prop) : Except β σ → Except γ τ → Prop
  | .ok s, .ok t => R s t
  | .error b, .error c => Q b c
  | _, _ => False

/-- **Machines whose steps match have matching results**, after the same number of steps. -/
theorem runFor_match {R : σ → τ → Prop} {Q : β → γ → Prop}
    (hmatch : ∀ s t, R s t → StepsMatch R Q (step s) (step' t)) (fuel : ℕ) {s : σ} {t : τ}
    (hst : R s t) : Option.Rel Q (runFor step fuel s) (runFor step' fuel t) := by
  induction fuel generalizing s t with
  | zero => exact .none
  | succ fuel ih =>
    have hstep := hmatch s t hst
    rw [runFor, runFor]
    cases hs : step s with
    | error b =>
      cases ht : step' t with
      | error c =>
        rw [hs, ht] at hstep
        exact .some hstep
      | ok t' =>
        rw [hs, ht] at hstep
        exact hstep.elim
    | ok s' =>
      cases ht : step' t with
      | error c =>
        rw [hs, ht] at hstep
        exact hstep.elim
      | ok t' =>
        rw [hs, ht] at hstep
        exact ih hstep

end Simulation

end LocTag.Lib
