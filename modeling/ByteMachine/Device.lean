/-
Devices that answer accesses to the window of the address space in which no memory is seen. A device is told the offset
into the window, and may change with every access.
-/
import ByteMachine.Word

namespace ByteMachine

def windowStart : Word := 0xe000

def windowEnd : Word := 0xefff

/-- whether an address is answered by the device -/
def InWindow (address : Word) : Prop := windowStart ≤ address ∧ address ≤ windowEnd

instance (address : Word) : Decidable (InWindow address) :=
  inferInstanceAs (Decidable (_ ∧ _))

/-- what a device answers to a read, and how accesses change it -/
class Device (σ : Type) where
  read : σ → Word → Byte × σ
  write : σ → Word → Byte → σ

/-- the device that is not there: reads give zero and writes are lost -/
structure NoDevice where
  deriving DecidableEq, Repr

instance : Device NoDevice where
  read device _ := (0, device)
  write device _ _ := device

/-- one access: a byte read from or written to an offset -/
inductive Access where
  | read (offset : Word) (value : Byte)
  | write (offset : Word) (value : Byte)
  deriving DecidableEq, Repr

/-- a device that keeps a record of its accesses, in order -/
structure Recorded (σ : Type) where
  device : σ
  accesses : Array Access

instance {σ : Type} [Device σ] : Device (Recorded σ) where
  read recorded offset :=
    let (value, device) := Device.read recorded.device offset
    (value, ⟨device, recorded.accesses.push (.read offset value)⟩)
  write recorded offset value :=
    ⟨Device.write recorded.device offset value, recorded.accesses.push (.write offset value)⟩

end ByteMachine
