/-
Run control. A machine is made, loaded, stepped and run, in any order and with any devices. Between these calls it is not
about to stop, its mark of the address after the last one stands only at address 0, and whether it is stopped can be told
from the calls: a load that is refused changes nothing, and of the others the latest one says.

- `Board.ended_step`, `Board.ended_run`: what a step and a run leave behind.
- `control_follows_calls`: every machine that calls lead to, and where it starts from next.
-/
import Mathlib.Tactic
import ByteMachine.Proofs.Execution.Invariants
import ByteMachine.Proofs.Loading.Programs
import ByteMachine.Proofs.Running.Budgets

namespace ByteMachine

/-! ## Calls -/

/-- a call, and what came of it; `go` is a step or a run -/
inductive Call where
  | create
  | load
  | refusedLoad
  | go (result : Except Fault Exit)
  deriving DecidableEq

def Call.LeavesStopped (call : Call) : Prop :=
  call = .create ∨ call = .load ∨ call = .go (.ok .halted) ∨ ∃ fault, call = .go (.error fault)

namespace Machine

/-- the machine comes of the calls, of which the latest is the first in the list -/
inductive After : List Call → Machine → Prop
  | create : After [.create] Machine.initial
  | load {calls : List Call} {machine loaded : Machine} {start : Word} {image : List Byte} :
      After calls machine → (loadProgram start image).run machine = .ok () loaded → After (.load :: calls) loaded
  | refusedLoad {calls : List Call} {machine left : Machine} {start : Word} {image : List Byte} {fault : Fault} :
      After calls machine → (loadProgram start image).run machine = .error fault left →
        After (.refusedLoad :: calls) left
  | step {calls : List Call} {σ : Type} [Device σ] {board : Board σ} :
      After calls board.machine → After (.go board.step.1 :: calls) board.step.2.machine
  | run {calls : List Call} {σ : Type} [Device σ] {board : Board σ} {budget : Option Nat} :
      After calls board.machine → Returns Board.step budget board.awake →
        After (.go (board.run budget).1 :: calls) (board.run budget).2.machine

def goingAt (machine : Machine) (address : Word) : Machine :=
  { machine with registers := { machine.registers with ip := address, pastEnd := false }, stopped := false }

/-- a step of the machine and a run of it, with any device, are those of another machine, which is going -/
structure StartsAs (machine first : Machine) : Prop where
  going : first.stopped = false
  step {σ : Type} [Device σ] (device : σ) :
    Board.step ⟨machine, device⟩ = Board.conclude first.registers.ip (Exec.cycle.run ⟨first, device⟩)
  run {σ : Type} [Device σ] (device : σ) (budget : Option Nat) :
    Board.run budget ⟨machine, device⟩ = takeSteps Board.step budget ⟨first, device⟩

/-- the state of control of a machine after the calls -/
structure Controlled (machine : Machine) (calls : List Call) : Prop where
  notHalting : machine.halting = false
  wrapped : machine.registers.pastEnd = true → machine.registers.ip = 0
  /-- the latest call that was no refused load says whether the machine is stopped -/
  stopped : ∃ call, calls.find? (· ≠ .refusedLoad) = some call ∧ (machine.stopped = true ↔ call.LeavesStopped)
  /-- a stopped machine starts from the word at the first two addresses -/
  startsAtEntry : machine.stopped = true → machine.StartsAs (machine.goingAt (machine.memory.readWord 0))
  /-- any other goes on where it is -/
  goesOn : machine.stopped = false → machine.StartsAs machine

theorem Settled.awake {machine : Machine} (h : machine.Settled) : machine.awake.Settled := by
  unfold Machine.awake
  split_ifs with hstopped
  · exact ⟨h.halting, Registers.consistent_jump _ _⟩
  · exact h

theorem startsAs_awake (machine : Machine) : machine.StartsAs machine.awake where
  going := by
    cases h : machine.stopped <;> simp [Machine.awake, h]
  step device := Board.step_eq ⟨machine, device⟩
  run _ _ := rfl

end Machine

/-! ## What steps and runs leave behind -/

namespace Board

variable {σ : Type} {board : Board σ} {budget : Option Nat}

/-- a settled machine, which goes on exactly if the result is a pause -/
structure Ended (outcome : Except Fault Exit × Board σ) : Prop where
  settled : outcome.2.machine.Settled
  stopped : outcome.2.machine.stopped = true ↔ outcome.1 ≠ .ok .paused

theorem ended_of_pause (h : board.machine.Settled) (hgoing : board.machine.stopped = false) :
    Ended (.ok .paused, board) :=
  ⟨h, by simp [hgoing]⟩

variable [Device σ]

theorem ended_step (h : board.machine.Settled) : Ended board.step := by
  have hcycle := Exec.cycle_settles board.awake h.awake
  rw [step_eq]
  cases hrun : Exec.cycle.run board.awake with
  | error cause after =>
    rw [hrun] at hcycle
    cases hcycle with
    | error hsettled => exact ⟨⟨hsettled.halting, hsettled.consistent⟩, by simp [conclude]⟩
  | ok value after =>
    rw [hrun] at hcycle
    cases hcycle with
    | ok hconsistent =>
      by_cases hhalting : after.machine.halting = true
      · rw [conclude, if_pos hhalting]
        exact ⟨⟨rfl, hconsistent⟩, by simp [stop]⟩
      · rw [conclude, if_neg hhalting]
        exact ended_of_pause ⟨by simpa using hhalting, hconsistent⟩ (Exec.going_of_cycle (going_awake board) hrun)

theorem ended_stepsWithin (h : board.machine.Settled) (hgoing : board.machine.stopped = false) (budget : Nat) :
    Ended (stepsWithin step budget board) := by
  induction budget generalizing board with
  | zero => exact ended_of_pause h hgoing
  | succ budget ih =>
    have hstep := ended_step h
    rcases paused_or_ended step board with ⟨next, hpaused⟩ | hended
    · rw [stepsWithin_succ_of_paused hpaused]
      rw [hpaused] at hstep
      exact ih hstep.settled (going_of_step hpaused)
    · rw [stepsWithin_succ_of_ended hended]
      exact hstep

theorem ended_of_endsAfter {count : Nat} {outcome : Except Fault Exit × Board σ}
    (hends : EndsAfter step count board outcome) (h : board.machine.Settled) : Ended outcome := by
  induction hends with
  | last _ => exact ended_step h
  | next hpaused _ ih =>
    have hstep := ended_step h
    rw [hpaused] at hstep
    exact ih hstep.settled

/-- **A run leaves what a step leaves.** -/
theorem ended_run (h : board.machine.Settled) (hreturns : Returns step budget board.awake) : Ended (board.run budget) := by
  cases budget with
  | some budget => exact ended_stepsWithin h.awake (going_awake board) budget
  | none =>
    obtain ⟨count, outcome, hends⟩ := hreturns rfl
    rw [run_none, hends.stepsToEnd_eq]
    exact ended_of_endsAfter hends h.awake

end Board

/-! ## After any calls -/

theorem leavesStopped_go_iff (result : Except Fault Exit) :
    (Call.go result).LeavesStopped ↔ result ≠ .ok .paused := by
  rcases result with fault | _ | _ <;> simp [Call.LeavesStopped]

/-- what every call keeps, by induction on the calls -/
theorem Machine.After.settled {calls : List Call} {machine : Machine} (h : Machine.After calls machine) :
    machine.Settled ∧ ∃ call, calls.find? (· ≠ .refusedLoad) = some call ∧
      (machine.stopped = true ↔ call.LeavesStopped) := by
  induction h with
  | create => exact ⟨⟨rfl, Registers.consistent_initial⟩, .create, rfl, iff_of_true rfl (.inl rfl)⟩
  | load _ hload ih =>
    obtain ⟨-, rfl⟩ := Machine.run_loadProgram_eq_ok_iff.1 hload
    exact ⟨⟨ih.1.halting, ih.1.consistent⟩, .load, rfl, iff_of_true rfl (.inr (.inl rfl))⟩
  | refusedLoad _ hrefused ih =>
    obtain ⟨-, -, rfl⟩ := Machine.run_loadProgram_eq_error_iff.1 hrefused
    exact ih
  | step _ ih =>
    have hended := Board.ended_step ih.1
    exact ⟨hended.settled, _, rfl, hended.stopped.trans (leavesStopped_go_iff _).symm⟩
  | run _ hreturns ih =>
    have hended := Board.ended_run ih.1 hreturns
    exact ⟨hended.settled, _, rfl, hended.stopped.trans (leavesStopped_go_iff _).symm⟩

/-- **Control follows the calls.** After any calls a machine is not about to stop, the mark of the address after the last
one stands only at address 0, and the machine is stopped exactly if the latest call that was no refused load is its
making, a load, or a step or run that halted or failed. A step or a run of a stopped machine starts from the word at the
first two addresses, with the mark cleared, and one of any other machine where the instruction pointer is. -/
theorem control_follows_calls (calls : List Call) (machine : Machine) (h : Machine.After calls machine) :
    machine.Controlled calls := by
  obtain ⟨hsettled, hstopped⟩ := h.settled
  have hstarts := machine.startsAs_awake
  refine ⟨hsettled.halting, hsettled.consistent, hstopped, ?_, ?_⟩
  · intro hstop
    rwa [Machine.awake, if_pos hstop] at hstarts
  · intro hgoing
    rwa [Machine.awake, if_neg (by simp [hgoing])] at hstarts

/-- a machine with `inc a` at the last two addresses -/
def lastIncrement : Board NoDevice :=
  ⟨{ Machine.initial with
      memory := (Memory.zero.writeAll 0xfffe [0x15, 0x00]).writeAll 0 [0xfe, 0xff]
      stopped := true }, ⟨⟩⟩

theorem lastIncrement_is_controlled :
    ∃ machine, Machine.After [.refusedLoad, .go (.ok .paused), .load, .create] machine ∧
      machine.registers.pastEnd = true ∧ machine.registers.ip = 0 ∧ machine.stopped = false ∧
      machine.StartsAs machine := by
  have hload : (Machine.loadProgram 0xfffe [0x15, 0x00]).run Machine.initial = .ok () lastIncrement.machine :=
    Machine.run_loadProgram_eq_ok_iff.2 ⟨by decide, rfl⟩
  have hstep : lastIncrement.step.1 = .ok .paused := by decide +kernel
  have hpast : lastIncrement.step.2.machine.registers.pastEnd = true := by decide +kernel
  have hstepped : Machine.After [.go (.ok .paused), .load, .create] lastIncrement.step.2.machine := by
    rw [← hstep]
    exact .step (.load .create hload)
  have hrefused : (Machine.loadProgram 0xffff [0, 0]).run lastIncrement.step.2.machine =
      .error ⟨0, .outOfRange 0x10001⟩ lastIncrement.step.2.machine :=
    Machine.run_loadProgram_eq_error_iff.2 ⟨by decide, rfl, rfl⟩
  have hafter := hstepped.refusedLoad hrefused
  have hcontrolled := control_follows_calls _ _ hafter
  obtain ⟨call, hlatest, hstopped⟩ := hcontrolled.stopped
  have hgoing : lastIncrement.step.2.machine.stopped = false := by
    obtain rfl : Call.go (.ok .paused) = call := Option.some.inj hlatest
    rw [leavesStopped_go_iff] at hstopped
    simpa using hstopped
  exact ⟨_, hafter, hpast, hcontrolled.wrapped hpast, hgoing, hcontrolled.goesOn hgoing⟩

end ByteMachine
