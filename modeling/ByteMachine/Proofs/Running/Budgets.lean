/-
Runs with a budget. A machine that pauses is not stopped, so the next run goes on where the last one paused, and it makes
no difference into how many runs a budget is split.

`budgets_add_up`: a run with the sum of some budgets comes to what the runs with one after the other come to, and a run
without a budget comes to what every run that is long enough comes to.
-/
import Mathlib.Tactic
import ByteMachine.Proofs.Execution.Alike
import ByteMachine.Proofs.Running.Steps

namespace ByteMachine

variable {σ : Type}

/-! ## Machines that are going -/

variable [Device σ]

/-- a board is like itself while its machine goes on -/
theorem likeness_going : Likeness fun s t : Board σ => s = t ∧ s.machine.stopped = false where
  registers := by rintro s _ ⟨rfl, -⟩; rfl
  memory := by rintro s _ ⟨rfl, -⟩; rfl
  profile := by rintro s _ ⟨rfl, -⟩; rfl
  withRegisters := by rintro s _ ⟨rfl, h⟩ registers; exact ⟨rfl, h⟩
  withMemory := by rintro s _ ⟨rfl, h⟩ memory; exact ⟨rfl, h⟩
  withProfile := by rintro s _ ⟨rfl, h⟩ profile; exact ⟨rfl, h⟩
  withHalting := by rintro s _ ⟨rfl, h⟩; exact ⟨rfl, h⟩
  answer := by rintro s _ ⟨rfl, -⟩ offset; rfl
  read := by rintro s _ ⟨rfl, h⟩ offset; exact ⟨rfl, h⟩
  write := by rintro s _ ⟨rfl, h⟩ offset value; exact ⟨rfl, h⟩

/-- no instruction touches the mark of a stopped machine -/
theorem Exec.going_of_cycle {board board' : Board σ} (h : board.machine.stopped = false)
    (hcycle : cycle.run board = .ok () board') : board'.machine.stopped = false := by
  have hsame := cycle_alike likeness_going board board ⟨rfl, h⟩
  rw [hcycle] at hsame
  cases hsame with
  | ok hgoing => exact hgoing.2

namespace Board

@[simp] theorem step_awake (board : Board σ) : board.awake.step = board.step := by
  rw [step_eq, awake_awake, ← step_eq]

theorem going_of_step {board board' : Board σ} (h : board.step = (.ok .paused, board')) :
    board'.machine.stopped = false := by
  rw [step_eq, conclude_eq_paused_iff] at h
  exact Exec.going_of_cycle (going_awake board) h.1

theorem going_of_stepsWithin {budget : Nat} {board board' : Board σ} (hgoing : board.machine.stopped = false)
    (h : stepsWithin step budget board = (.ok .paused, board')) : board'.machine.stopped = false := by
  induction budget generalizing board with
  | zero =>
    obtain ⟨-, rfl⟩ := Prod.ext_iff.1 h
    exact hgoing
  | succ budget ih =>
    rcases paused_or_ended step board with ⟨next, hstep⟩ | hended
    · rw [stepsWithin_succ_of_paused hstep] at h
      exact ih (going_of_step hstep) h
    · rw [stepsWithin_succ_of_ended hended] at h
      exact absurd (by rw [h]) hended

/-! ## Runs one after the other -/

theorem run_some (budget : Nat) (board : Board σ) : board.run (some budget) = stepsWithin step budget board.awake := rfl

theorem run_none (board : Board σ) : board.run none = stepsToEnd step board.awake := rfl

theorem going_of_run {budget : Nat} {board board' : Board σ} (h : board.run (some budget) = (.ok .paused, board')) :
    board'.machine.stopped = false :=
  going_of_stepsWithin (going_awake board) h

/-- a run that pauses may be interrupted anywhere -/
theorem run_add (first second : Nat) (board : Board σ) :
    board.run (some (first + second)) = match board.run (some first) with
      | (.ok .paused, board') => board'.run (some second)
      | ended => ended := by
  rw [run_some, stepsWithin_add, ← run_some first]
  rcases hrun : board.run (some first) with ⟨_ | _ | _, board'⟩
  · rfl
  · rfl
  · simp only
    rw [run_some, awake_of_going (going_of_run hrun)]

/-- with at least one step to take, a stopped machine need not be set going first -/
theorem run_of_pos {budget : Nat} (h : 1 ≤ budget) (board : Board σ) :
    board.run (some budget) = stepsWithin step budget board := by
  obtain ⟨budget, rfl⟩ : ∃ n, budget = n + 1 := ⟨budget - 1, by omega⟩
  rw [run_some]
  simp only [stepsWithin, step_awake]

/-- run with one budget after the other, until a run does not pause -/
def runEach : (budgets : List Nat) → Board σ → Except Fault Exit × Board σ
  | [], board => (.ok .paused, board)
  | budget :: budgets, board =>
    match board.run (some budget) with
    | (.ok .paused, board) => runEach budgets board
    | ended => ended

theorem runEach_cons (first : Nat) (rest : List Nat) (board : Board σ) :
    runEach (first :: rest) board = board.run (some (first + rest.sum)) := by
  induction rest generalizing first board with
  | nil =>
    rw [List.sum_nil, Nat.add_zero, runEach]
    rcases board.run (some first) with ⟨_ | _ | _, board'⟩ <;> rfl
  | cons second rest ih =>
    rw [List.sum_cons, run_add, runEach]
    simp only [ih]

theorem endsAfter_awake_iff {count : Nat} {board : Board σ} {outcome : Except Fault Exit × Board σ} :
    EndsAfter step count board.awake outcome ↔ EndsAfter step count board outcome := by
  constructor
  · intro h
    cases h with
    | last hended =>
      rw [step_awake] at hended ⊢
      exact .last hended
    | next hpaused hrest => exact .next (by rw [← step_awake, hpaused]) hrest
  · intro h
    cases h with
    | last hended =>
      rw [← step_awake] at hended ⊢
      exact .last hended
    | next hpaused hrest => exact .next (by rw [step_awake, hpaused]) hrest

/-- **Budgets add up.** Runs with one budget after the other, up to the first that does not pause, come to what one run
with their sum comes to. A run with a budget takes a step until one does not pause, but no more of them than the budget,
and a run without a budget that ends after some steps comes to what every run with a budget for as many comes to. -/
theorem budgets_add_up (board : Board σ) :
    (∀ budgets, budgets ≠ [] → board.runEach budgets = board.run (some budgets.sum)) ∧
      (∀ budget, 1 ≤ budget → board.run (some budget) = stepsWithin step budget board) ∧
      ∀ count outcome, EndsAfter step count board outcome →
        board.run none = outcome ∧ ∀ budget, count ≤ budget → board.run (some budget) = outcome := by
  refine ⟨?_, fun budget hbudget => run_of_pos hbudget board, ?_⟩
  · rintro (_ | ⟨first, rest⟩) hne
    · exact absurd rfl hne
    · rw [runEach_cons, List.sum_cons]
  · intro count outcome hends
    have hawake := endsAfter_awake_iff.2 hends
    refine ⟨?_, fun budget hbudget => ?_⟩
    · rw [run_none, hawake.stepsToEnd_eq]
    · rw [run_some, hawake.stepsWithin_eq hbudget]

/-- a new machine with a program that increments `a` and stops -/
def counting : Board NoDevice :=
  ⟨{ Machine.initial with
      memory := Memory.zero.writeAll 0 [0x10, 0x00] |>.writeAll 0x10 [0x15, 0x00, 0xff] }, ⟨⟩⟩

theorem counting_budgets_add_up :
    counting.runEach [0, 1, 0, 5] = counting.run (some 6) ∧
      counting.run (some 2) = stepsWithin step 2 counting ∧
      ∃ outcome, EndsAfter step 2 counting outcome ∧ outcome.1 = .ok .halted ∧ counting.run none = outcome ∧
        counting.run (some 7) = outcome := by
  obtain ⟨hsplit, hsteps, hends⟩ := budgets_add_up counting
  have hfirst : (step counting).1 = .ok .paused := by decide +kernel
  have hsecond : (step (step counting).2).1 = .ok .halted := by decide +kernel
  have hpaused : step counting = (.ok .paused, (step counting).2) := Prod.ext hfirst rfl
  generalize (step counting).2 = next at hpaused hsecond
  have hlast : EndsAfter step 1 next (step next) := .last (by rw [hsecond]; decide)
  obtain ⟨hnone, hsome⟩ := hends 2 _ (hlast.next hpaused)
  exact ⟨hsplit _ (by decide), hsteps 2 (by decide), _, hlast.next hpaused, hsecond, hnone, hsome 7 (by decide)⟩

end Board

end ByteMachine
