/-
What an instruction does. Computed addresses are exact integers and must lie in the address space; values of registers
and memory wrap.

Loads and stores of programs go through the window to the device. The stack is in memory only: pushes and pops see no
device.
-/
import ByteMachine.Instruction
import ByteMachine.Machine.Board

namespace ByteMachine

/-- a computation on a board that may end in a fault; what was done before the fault stays done -/
abbrev Exec (σ : Type) := EStateM Fault.Cause (Board σ)

namespace Exec

variable {σ : Type}

/-! ## Registers -/

/-- the registers and the flags -/
@[inline] def registers : Exec σ Registers := return (← get).machine.registers

/-- change the registers and the flags -/
@[inline] def modifyRegisters (f : Registers → Registers) : Exec σ Unit :=
  modify fun board => { board with machine := { board.machine with registers := f board.machine.registers } }

/-- the value of the register that an operand byte names -/
@[inline] def getRegister (i : Byte) : Exec σ Byte := return (← registers).get i

/-- give the register that an operand byte names a value -/
@[inline] def setRegister (i value : Byte) : Exec σ Unit := modifyRegisters (·.set i value)

/-- the word held by two registers -/
@[inline] def getPair (low high : Byte) : Exec σ Word := return (← registers).pair low high

/-- set both flags -/
@[inline] def setFlags (zero carry : Bool) : Exec σ Unit := modifyRegisters ({ · with zero, carry })

/-- go on at an address -/
@[inline] def jump (target : Word) : Exec σ Unit := modifyRegisters (·.jump target)

def jumpIf (condition : Bool) (low high : Byte) : Exec σ Unit :=
  if condition then jump (Word.ofBytes low high) else pure ()

/-! ## Memory and device -/

/-- a computed address, which must be one -/
def checkAddress (address : Int) : Exec σ Word :=
  if 0 ≤ address ∧ address < Memory.size then pure (UInt16.ofNat address.toNat) else throw (.outOfRange address)

/-- the byte at an address as programs see it -/
def load [Device σ] (address : Word) : Exec σ Byte := fun board =>
  if InWindow address then
    let (value, device) := Device.read board.device (address - windowStart)
    .ok value { board with device }
  else .ok (board.machine.memory.read address) board

/-- put a byte at an address as programs see it -/
def store [Device σ] (address : Word) (value : Byte) : Exec σ Unit :=
  modify fun board =>
    if InWindow address then { board with device := Device.write board.device (address - windowStart) value }
    else { board with machine := { board.machine with memory := board.machine.memory.write address value } }

/-! ## Stack -/

/-- put a byte at the stack pointer and raise it -/
def push (value : Byte) : Exec σ Unit := do
  let sp := (← registers).sp
  let next ← checkAddress (sp.toNat + 1)
  modify fun board =>
    { board with machine := { board.machine with memory := board.machine.memory.write sp value } }
  modifyRegisters ({ · with sp := next })

/-- lower the stack pointer and take the byte there -/
def pop : Exec σ Byte := do
  let sp ← checkAddress ((← registers).sp.toNat - 1)
  modifyRegisters ({ · with sp })
  return (← get).machine.memory.read sp

def moveStack (distance : Int) : Exec σ Unit := do
  let sp ← checkAddress ((← registers).sp.toNat + distance)
  modifyRegisters ({ · with sp })

/-- the address `offset + 1` below the stack pointer -/
def frameSlot (offset : Byte) : Exec σ Word := do
  checkAddress ((← registers).sp.toNat - offset.toNat - 1)

/-- push the address of the next instruction, low byte first, and go on at another -/
def call (target : Word) : Exec σ Unit := do
  let back := (← registers).ip
  push (Word.low back)
  push (Word.high back)
  jump target

/-! ## Arithmetic -/

/-- the sum modulo 256, and whether the exact sum is another -/
def addBytes (x y : Byte) : Byte × Bool := (x + y, 256 ≤ x.toNat + y.toNat)

/-- the difference modulo 256, and whether the exact difference is another -/
def subBytes (x y : Byte) : Byte × Bool := (x - y, x < y)

/-- the product modulo 256, and whether the exact product is another -/
def mulBytes (x y : Byte) : Byte × Bool := (x * y, 256 ≤ x.toNat * y.toNat)

/-- all bits moved up; nothing is left of a byte moved by eight places or more -/
def shiftLeft (x places : Byte) : Byte := if places < 8 then x <<< places else 0

/-- all bits moved down; nothing is left of a byte moved by eight places or more -/
def shiftRight (x places : Byte) : Byte := if places < 8 then x >>> places else 0

/-- replace a register by the result of an operation on it and a byte, and set the flags -/
def combine (op : Byte → Byte → Byte × Bool) (dst y : Byte) : Exec σ Unit := do
  let (result, carry) := op (← getRegister dst) y
  setFlags (result = 0) carry
  setRegister dst result

def modifyPair (low high : Byte) (f : Word → Word) : Exec σ Unit := do
  let value := f (← getPair low high)
  modifyRegisters (·.setPair low high value)

end Exec

open Exec

/-- the index of the register that loads and stores of programs go through -/
abbrev memoryRegister : Byte := Register.index .m

/-- what an instruction does; the instruction pointer is past its bytes already -/
def execute {σ : Type} [Device σ] : Instruction → Exec σ Unit
  | .num reg value => setRegister reg value
  | .mov dst src => do setRegister dst (← getRegister src)
  | .jmp lo hi => jump (Word.ofBytes lo hi)
  | .jin lo hi => do jump (← getPair lo hi)
  | .jiz lo hi => do jumpIf (← registers).zero lo hi
  | .jnz lo hi => do jumpIf (!(← registers).zero) lo hi
  | .jic lo hi => do jumpIf (← registers).carry lo hi
  | .jnc lo hi => do jumpIf (!(← registers).carry) lo hi
  | .clc lo hi => call (Word.ofBytes lo hi)
  | .clr lo hi => do call (← getPair lo hi)
  | .ret => do
    let high ← pop
    let low ← pop
    jump (Word.ofBytes low high)
  | .alc size => moveStack size.toNat
  | .eat size => moveStack (-size.toNat)
  | .ofg reg offset => do
    let value ← load (← frameSlot offset)
    setRegister reg value
  | .ofs reg offset => do
    let address ← frameSlot offset
    store address (← getRegister reg)
  | .pop reg => do setRegister reg (← pop)
  | .psh reg => do push (← getRegister reg)
  | .gec lo hi => do setRegister memoryRegister (← load (Word.ofBytes lo hi))
  | .sec lo hi => do store (Word.ofBytes lo hi) (← getRegister memoryRegister)
  | .ger lo hi => do setRegister memoryRegister (← load (← getPair lo hi))
  | .ser lo hi => do store (← getPair lo hi) (← getRegister memoryRegister)
  | .inc reg => combine addBytes reg 1
  | .dec reg => combine subBytes reg 1
  | .add dst src => do combine addBytes dst (← getRegister src)
  | .sub dst src => do combine subBytes dst (← getRegister src)
  | .mul dst src => do combine mulBytes dst (← getRegister src)
  | .shl dst src => do setRegister dst (shiftLeft (← getRegister dst) (← getRegister src))
  | .shr dst src => do setRegister dst (shiftRight (← getRegister dst) (← getRegister src))
  | .inl lo hi => modifyPair lo hi (· + 1)
  | .del lo hi => modifyPair lo hi (· - 1)
  | .hlt => modify fun board => { board with machine := { board.machine with halting := true } }

end ByteMachine
