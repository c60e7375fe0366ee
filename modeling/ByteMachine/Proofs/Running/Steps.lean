/-
Taking steps, whatever a step is. `EndsAfter` says which step is the first that does not pause and what it comes to; a
budget of that many steps or more, and no budget at all, come to the same.

Budgets add up (`stepsWithin_add`), and a map between states that turns each step into a step does so with all of them
(`stepsWithin_map`, `EndsAfter.map`, `EndsAfter.exists_of_map`).
-/
import Mathlib.Tactic
import ByteMachine.Machine.Run

namespace ByteMachine

variable {β γ : Type} {step : β → Except Fault Exit × β}

/-- the steps from a state pause until the last of `count`, which comes to the outcome -/
inductive EndsAfter (step : β → Except Fault Exit × β) : (count : Nat) → β → Except Fault Exit × β → Prop
  | last {state : β} : (step state).1 ≠ .ok .paused → EndsAfter step 1 state (step state)
  | next {count : Nat} {state state' : β} {outcome : Except Fault Exit × β} :
      step state = (.ok .paused, state') → EndsAfter step count state' outcome → EndsAfter step (count + 1) state outcome

/-- taking steps comes to an end: the budget is spent, or there is a last step -/
def Returns (step : β → Except Fault Exit × β) (budget : Option Nat) (state : β) : Prop :=
  budget = none → ∃ count outcome, EndsAfter step count state outcome

/-! ## One more step -/

/-- what did not pause is the end, whatever would have come after a pause -/
theorem go_on_of_ended {x : Except Fault Exit × β} (goOn : β → Except Fault Exit × β) :
    x.1 ≠ .ok .paused →
      (match x with
        | (.ok .paused, state) => goOn state
        | ended => ended) = x := by
  intro h
  rcases x with ⟨_ | _ | _, state⟩
  · rfl
  · rfl
  · exact absurd rfl h

theorem stepsWithin_succ_of_paused {state state' : β} (h : step state = (.ok .paused, state')) (budget : Nat) :
    stepsWithin step (budget + 1) state = stepsWithin step budget state' := by
  simp only [stepsWithin, h]

theorem stepsWithin_succ_of_ended {state : β} (h : (step state).1 ≠ .ok .paused) (budget : Nat) :
    stepsWithin step (budget + 1) state = step state :=
  go_on_of_ended _ h

theorem stepsToEnd_of_paused {state state' : β} (h : step state = (.ok .paused, state')) :
    stepsToEnd step state = stepsToEnd step state' := by
  rw [stepsToEnd_eq, h]

theorem stepsToEnd_of_ended {state : β} (h : (step state).1 ≠ .ok .paused) : stepsToEnd step state = step state := by
  rw [stepsToEnd_eq]
  exact go_on_of_ended _ h

/-- a step pauses and there is a next state, or it is the last one -/
theorem paused_or_ended (step : β → Except Fault Exit × β) (state : β) :
    (∃ state', step state = (.ok .paused, state')) ∨ (step state).1 ≠ .ok .paused := by
  by_cases h : (step state).1 = .ok .paused
  · exact .inl ⟨(step state).2, Prod.ext h rfl⟩
  · exact .inr h

/-! ## Budgets -/

/-- a budget may be spent in two parts, if the first part does not end the steps -/
theorem stepsWithin_add (first second : Nat) (state : β) :
    stepsWithin step (first + second) state = match stepsWithin step first state with
      | (.ok .paused, state') => stepsWithin step second state'
      | ended => ended := by
  induction first generalizing state with
  | zero => rw [Nat.zero_add, stepsWithin]
  | succ first ih =>
    rw [Nat.succ_add]
    rcases paused_or_ended step state with ⟨state', hstep⟩ | hended
    · rw [stepsWithin_succ_of_paused hstep, stepsWithin_succ_of_paused hstep, ih]
    · rw [stepsWithin_succ_of_ended hended, stepsWithin_succ_of_ended hended]
      exact (go_on_of_ended _ hended).symm

namespace EndsAfter

variable {count : Nat} {state : β} {outcome : Except Fault Exit × β}

theorem stepsWithin_eq (h : EndsAfter step count state outcome) {budget : Nat} (hbudget : count ≤ budget) :
    stepsWithin step budget state = outcome := by
  induction h generalizing budget with
  | last hended =>
    obtain ⟨budget, rfl⟩ : ∃ n, budget = n + 1 := ⟨budget - 1, by omega⟩
    exact stepsWithin_succ_of_ended hended budget
  | next hpaused _ ih =>
    obtain ⟨budget, rfl⟩ : ∃ n, budget = n + 1 := ⟨budget - 1, by omega⟩
    rw [stepsWithin_succ_of_paused hpaused]
    exact ih (by omega)

theorem stepsToEnd_eq (h : EndsAfter step count state outcome) : stepsToEnd step state = outcome := by
  induction h with
  | last hended => exact stepsToEnd_of_ended hended
  | next hpaused _ ih => rw [stepsToEnd_of_paused hpaused, ih]

theorem ne_paused (h : EndsAfter step count state outcome) : outcome.1 ≠ .ok .paused := by
  induction h with
  | last hended => exact hended
  | next _ _ ih => exact ih

end EndsAfter

/-- within a budget that is not spent there is a last step -/
theorem exists_endsAfter_of_ended {budget : Nat} {state : β} (h : (stepsWithin step budget state).1 ≠ .ok .paused) :
    ∃ count, count ≤ budget ∧ EndsAfter step count state (stepsWithin step budget state) := by
  induction budget generalizing state with
  | zero => exact absurd rfl h
  | succ budget ih =>
    rcases paused_or_ended step state with ⟨state', hstep⟩ | hended
    · rw [stepsWithin_succ_of_paused hstep] at h ⊢
      obtain ⟨count, hcount, hends⟩ := ih h
      exact ⟨count + 1, Nat.succ_le_succ hcount, .next hstep hends⟩
    · rw [stepsWithin_succ_of_ended hended]
      exact ⟨1, Nat.le_add_left 1 budget, .last hended⟩

/-! ## Maps between states -/

section Map

variable {step' : γ → Except Fault Exit × γ} {f : β → γ} (hf : ∀ state, step' (f state) = (step state).map id f)

include hf

theorem stepsWithin_map (budget : Nat) (state : β) :
    stepsWithin step' budget (f state) = (stepsWithin step budget state).map id f := by
  induction budget generalizing state with
  | zero => rfl
  | succ budget ih =>
    rcases paused_or_ended step state with ⟨state', hstep⟩ | hended
    · have hstep' : step' (f state) = (.ok .paused, f state') := by rw [hf, hstep]; rfl
      rw [stepsWithin_succ_of_paused hstep, stepsWithin_succ_of_paused hstep', ih]
    · have hended' : (step' (f state)).1 ≠ .ok .paused := by rw [hf]; exact hended
      rw [stepsWithin_succ_of_ended hended, stepsWithin_succ_of_ended hended', hf]

theorem EndsAfter.map {count : Nat} {state : β} {outcome : Except Fault Exit × β}
    (h : EndsAfter step count state outcome) : EndsAfter step' count (f state) (outcome.map id f) := by
  induction h with
  | @last state hended =>
    rw [← hf]
    exact .last (by rw [hf]; exact hended)
  | next hpaused _ ih => exact .next (by rw [hf, hpaused]; rfl) ih

theorem EndsAfter.exists_of_map {count : Nat} {state : β} {outcome' : Except Fault Exit × γ}
    (h : EndsAfter step' count (f state) outcome') :
    ∃ outcome, EndsAfter step count state outcome ∧ outcome' = outcome.map id f := by
  generalize hstate : f state = state' at h
  induction h generalizing state with
  | last hended =>
    subst hstate
    rw [hf] at hended
    exact ⟨step state, .last hended, hf state⟩
  | @next count _ next' outcome' hpaused _ ih =>
    subst hstate
    rcases paused_or_ended step state with ⟨next, hstep⟩ | hended
    · rw [hf, hstep] at hpaused
      obtain ⟨outcome, hends, hmap⟩ := ih (Prod.ext_iff.1 hpaused).2
      exact ⟨outcome, .next hstep hends, hmap⟩
    · rw [hf] at hpaused
      exact absurd (congrArg Prod.fst hpaused) hended

theorem returns_map_iff (budget : Option Nat) (state : β) :
    Returns step' budget (f state) ↔ Returns step budget state := by
  constructor
  · intro h hnone
    obtain ⟨count, _, hends⟩ := h hnone
    obtain ⟨outcome, hends, -⟩ := hends.exists_of_map hf
    exact ⟨count, outcome, hends⟩
  · intro h hnone
    obtain ⟨count, outcome, hends⟩ := h hnone
    exact ⟨count, _, hends.map hf⟩

/-- steps that come to an end come to the same end on the other side of the map -/
theorem takeSteps_map {budget : Option Nat} {state : β} (h : Returns step budget state) :
    takeSteps step' budget (f state) = (takeSteps step budget state).map id f := by
  cases budget with
  | some budget => exact stepsWithin_map hf budget state
  | none =>
    obtain ⟨count, outcome, hends⟩ := h rfl
    have hto : stepsToEnd step state = outcome := hends.stepsToEnd_eq
    have hto' : stepsToEnd step' (f state) = outcome.map id f := (hends.map hf).stepsToEnd_eq
    rw [takeSteps, takeSteps, hto, hto']

end Map

end ByteMachine
