/-
Runs with a message before each step. The messages are told apart from the machine and the screen, which take the same
steps with them as without.

`trace_eq_run_iff`: a traced run comes to what the run comes to, on the same machine and screen, unless there is no step
in the budget and the machine is stopped. A run then sets it going at its entry point, and a traced run does not.
-/
import Mathlib.Tactic
import ByteMachine.Command.Runner
import ByteMachine.Proofs.Running.Budgets

namespace ByteMachine

open Command.Runner

def Board.onScreen (board : Board Console) : Board Screen := ⟨board.machine, board.device.screen⟩

/-! ## One step -/

theorem screen_complain (console : Console) (complaint : Option String) :
    (console.complain complaint).screen = console.screen := by
  cases complaint <;> rfl

/-- no access tells a screen from a console -/
theorem deviceMap_screen : DeviceMap Console.screen where
  read console offset := by
    refine Prod.ext rfl ?_
    exact (screen_complain { console with screen := (Device.read console.screen offset).2 } _).symm
  write console offset value :=
    (screen_complain { console with screen := Device.write console.screen offset value } _).symm

namespace Board

@[simp] theorem onScreen_say (board : Board Console) (message : Message) :
    (say board message).onScreen = board.onScreen := rfl

theorem step_onScreen (board : Board Console) : board.onScreen.step = board.step.map id onScreen :=
  deviceMap_screen.step board

theorem step_onScreen_tracedStep (board : Board Console) :
    board.onScreen.step = (tracedStep board).map id onScreen := by
  rw [tracedStep, ← step_onScreen, onScreen_say]

/-! ## Whole runs -/

/-- a stopped machine need not be set going first if a step is taken at all -/
theorem run_eq_takeSteps {σ : Type} [Device σ] {budget : Option Nat} (board : Board σ)
    (h : budget = some 0 → board.machine.stopped = false) : board.run budget = takeSteps step budget board := by
  cases budget with
  | none => rw [run_none, takeSteps, stepsToEnd_eq, step_awake, ← stepsToEnd_eq]
  | some budget =>
    cases budget with
    | zero =>
      rw [run_some, awake_of_going (h rfl)]
      rfl
    | succ budget => exact run_of_pos (Nat.le_add_left 1 budget) board

/-- with no step to take, a stopped machine is set going by a run and not by a traced run -/
theorem trace_zero_ne_run {board : Board Console} (h : board.machine.stopped = true) :
    (trace (some 0) board).map id onScreen ≠ board.onScreen.run (some 0) := by
  intro heq
  have hgoing : (board.onScreen.run (some 0)).2.machine.stopped = false := going_awake board.onScreen
  rw [← heq] at hgoing
  exact absurd (h.symm.trans hgoing) (by decide)

/-- **A traced run is a run,** unless the budget is zero and the machine is stopped. The traced run returns if the run
does. It then returns the same exit or fault and leaves the machine and the screen as the run leaves them, exactly if
there is a step in the budget or the machine is going. -/
theorem trace_eq_run_iff (budget : Option Nat) (board : Board Console) :
    (Returns tracedStep budget board ↔ Returns step budget board.onScreen.awake) ∧
      (Returns tracedStep budget board →
        ((trace budget board).map id onScreen = board.onScreen.run budget ↔
          (budget = some 0 → board.machine.stopped = false))) := by
  refine ⟨?_, fun hreturns => ⟨?_, fun h => ?_⟩⟩
  · rw [← returns_map_iff step_onScreen_tracedStep]
    simp only [Returns, endsAfter_awake_iff]
  · rintro heq rfl
    by_contra hstopped
    exact trace_zero_ne_run (by simpa using hstopped) heq
  · rw [run_eq_takeSteps board.onScreen h, takeSteps_map step_onScreen_tracedStep hreturns]
    rfl

/-- a new machine with a program that stops at once, and a console -/
def haltingConsole : Board Console :=
  ⟨{ Machine.initial with memory := Memory.zero.writeAll 0 [0x10, 0x00] |>.write 0x10 0xff }, ⟨Screen.initial, #[]⟩⟩

theorem haltingConsole_trace_eq_run :
    (trace (some 5) haltingConsole).map id onScreen = haltingConsole.onScreen.run (some 5) := by
  have hreturns : Returns tracedStep (some 5) haltingConsole := fun hnone => nomatch hnone
  exact ((trace_eq_run_iff (some 5) haltingConsole).2 hreturns).2 fun hzero => absurd hzero (by decide)

theorem haltingConsole_trace_ne_run :
    (trace (some 0) haltingConsole).2.machine.registers.ip = 0x0000 ∧
      (haltingConsole.onScreen.run (some 0)).2.machine.registers.ip = 0x0010 ∧
      (trace (some 0) haltingConsole).map id onScreen ≠ haltingConsole.onScreen.run (some 0) := by
  refine ⟨by decide +kernel, by decide +kernel, fun heq => ?_⟩
  have hip := congrArg (·.2.machine.registers.ip) heq
  exact absurd hip (by decide +kernel)

end Board

end ByteMachine
