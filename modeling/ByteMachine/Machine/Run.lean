/-
Steps and runs. A step fetches one instruction, byte by byte as programs see memory, counts it and executes it. A run
takes steps until the machine stops, at the instruction that stops it or at a fault. With a budget it takes no more steps
than that; without one it may never end.

The byte at the last address can be fetched; the fetch after it is a fault.

`stepsToEnd_eq`: a run without a budget is a step and, if that pauses, a run without a budget.
-/
import ByteMachine.Machine.Execution

namespace ByteMachine

/-- why a run ended: the program stopped the machine, or the budget of steps was spent -/
inductive Exit where
  | halted
  | paused
  deriving DecidableEq, Repr

/-! ## Taking steps -/

section Stepping

variable {β : Type} (step : β → Except Fault Exit × β)

/-- take steps until one does not pause, but no more than the budget allows -/
def stepsWithin : (budget : Nat) → β → Except Fault Exit × β
  | 0, state => (.ok .paused, state)
  | budget + 1, state =>
    match step state with
    | (.ok .paused, state) => stepsWithin budget state
    | ended => ended

/-- a step, told apart by whether another one follows -/
def advance (state : β) : Id (β ⊕ (Except Fault Exit × β)) :=
  match step state with
  | (.ok .paused, state) => .inl state
  | ended => .inr ended

/-- take steps until one does not pause; if they all pause, this never ends -/
def stepsToEnd (state : β) : Except Fault Exit × β :=
  have : Nonempty (Except Fault Exit × β) := ⟨(.ok .paused, state)⟩
  (repeatM (advance step) state).run

/-- take steps with a budget, or without one -/
def takeSteps (budget : Option Nat) (state : β) : Except Fault Exit × β :=
  match budget with
  | some budget => stepsWithin step budget state
  | none => stepsToEnd step state

theorem stepsToEnd_eq (state : β) :
    stepsToEnd step state = match step state with
      | (.ok .paused, state) => stepsToEnd step state
      | ended => ended := by
  have : Nonempty (Except Fault Exit × β) := ⟨(.ok .paused, state)⟩
  have hloop : stepsToEnd step state = (repeatM.body (advance step) (repeatM (advance step)) state).run :=
    congrArg Id.run (repeatM_eq_of_monadTail state)
  rw [hloop]
  rcases hstep : step state with ⟨_ | _ | _, next⟩ <;> simp [repeatM.body, advance, hstep] <;> rfl

end Stepping

/-! ## One instruction -/

namespace Exec

variable {σ : Type}

/-- the byte at the instruction pointer, which moves past it -/
def fetch [Device σ] : Exec σ Byte := do
  let rs ← registers
  if rs.pastEnd then throw (.outOfRange Memory.size)
  let value ← load rs.ip
  modifyRegisters fun rs => { rs with ip := rs.ip + 1, pastEnd := rs.ip = 0xffff }
  return value

def count (category : Category) : Exec σ Unit :=
  modify fun board =>
    { board with machine := { board.machine with profile := board.machine.profile.add category 1 } }

/-- the instruction at the instruction pointer, which moves past it; an opcode is counted before its operands are
fetched -/
def fetchInstruction [Device σ] : Exec σ Instruction := do
  let code ← fetch
  match Opcode.ofCode? code with
  | none => throw (.invalidOpcode code)
  | some op =>
    count op.category
    match op.form with
    | .nullary i => return i
    | .unary f => return f (← fetch)
    | .binary f =>
      let x ← fetch
      let y ← fetch
      return f x y

def cycle [Device σ] : Exec σ Unit := do
  execute (← fetchInstruction)

end Exec

/-! ## Runs -/

namespace Board

variable {σ : Type} [Device σ]

/-- the board with its machine set going if it is stopped -/
def awake (board : Board σ) : Board σ := { board with machine := board.machine.awake }

def stop (board : Board σ) : Board σ :=
  { board with machine := { board.machine with halting := false, stopped := true } }

/-- execute one instruction; a fault stops the machine -/
def step (board : Board σ) : Except Fault Exit × Board σ :=
  let board := board.awake
  let start := board.machine.registers.ip
  match Exec.cycle.run board with
  | .ok _ board => if board.machine.halting then (.ok .halted, board.stop) else (.ok .paused, board)
  | .error cause board =>
    (.error ⟨start, cause⟩, { board with machine := { board.machine with stopped := true } })

/-- run the machine, from its entry point if it is stopped, with a budget of steps or without one -/
def run (budget : Option Nat) (board : Board σ) : Except Fault Exit × Board σ :=
  takeSteps step budget board.awake

end Board

end ByteMachine
