/-
A machine, and a machine wired to a device. Address 0 holds the entry point, low byte first. A machine that is stopped
starts from there when it is run again; one that was only interrupted goes on where it was.

`Machine.loadProgram` copies an image into memory, makes its first byte the entry point and stops the machine, in this
order. It writes memory, never the device.
-/
import ByteMachine.Device
import ByteMachine.Fault
import ByteMachine.Listing
import ByteMachine.Machine.Registers
import ByteMachine.Memory
import ByteMachine.Profile

namespace ByteMachine

/-- registers, memory and the state of control -/
structure Machine where
  registers : Registers
  memory : Memory
  /-- the instruction being executed is the one that stops the machine -/
  halting : Bool
  /-- the next run starts from the entry point -/
  stopped : Bool
  profile : Profile
  deriving DecidableEq

namespace Machine

def initial : Machine := ⟨Registers.initial, Memory.zero, false, true, Profile.empty⟩

def entryAddress : Word := 0

def entry (machine : Machine) : Word := machine.memory.readWord entryAddress

/-- a stopped machine set going at its entry point; any other as it is -/
def awake (machine : Machine) : Machine :=
  if machine.stopped then { machine with registers := machine.registers.jump machine.entry, stopped := false }
  else machine

/-- what a listing would show for the memory from an address on -/
def chunkAt (machine : Machine) (address : Word) : Chunk :=
  let rest := (machine.memory.slice address 3).drop 1
  (Chunk.first (machine.memory.read address) rest).1

/-- where the next instruction lies: at the entry point of a stopped machine -/
def resumeAddress (machine : Machine) : Word :=
  if machine.stopped then machine.entry else machine.registers.ip

def cycles (machine : Machine) : UInt64 := machine.profile.total

/-! ## Loading -/

/-- copy an image to an address; one that would run past the last address is refused before its first byte is written -/
def copyImage (start : Word) (image : List Byte) : EStateM Fault Machine Unit := do
  let stop := start.toNat + image.length
  if stop ≤ Memory.size then
    modify fun machine => { machine with memory := machine.memory.writeAll start image }
  else throw ⟨0, .outOfRange stop⟩

def writeEntry (start : Word) : EStateM Fault Machine Unit :=
  modify fun machine =>
    { machine with memory := machine.memory.writeAll entryAddress [Word.low start, Word.high start] }

/-- copy an image, make its address the entry point, and stop the machine; what was done before a fault stays done -/
def loadProgram (start : Word) (image : List Byte) : EStateM Fault Machine Unit := do
  copyImage start image
  writeEntry start
  modify ({ · with stopped := true })

/-- the machine with an image loaded, or why the image was refused -/
def load (machine : Machine) (start : Word) (image : List Byte) : Except Fault Machine :=
  match (loadProgram start image).run machine with
  | .ok _ loaded => .ok loaded
  | .error fault _ => .error fault

end Machine

/-- a machine and the device that answers in its window -/
structure Board (σ : Type) where
  machine : Machine
  device : σ

/-- load an image into the machine of a board, which goes on with the machine that the load leaves -/
def Board.load {σ : Type} (start : Word) (image : List Byte) (board : Board σ) : Except Fault Unit × Board σ :=
  match (Machine.loadProgram start image).run board.machine with
  | .ok _ machine => (.ok (), { board with machine })
  | .error fault machine => (.error fault, { board with machine })

end ByteMachine
