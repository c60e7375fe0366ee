/-
The memory of the machine: 256 pages of 256 bytes. The high byte of an address selects the page and the low byte the
place on it.

`read_write`: a write changes the byte at its address and no other.
-/
import ByteMachine.Word

namespace ByteMachine

/-- all bytes, by page -/
structure Memory where
  pages : Vector (Vector Byte 256) 256
  deriving DecidableEq

namespace Memory

def size : Nat := 0x10000

def zero : Memory := ⟨Vector.replicate 256 (Vector.replicate 256 0)⟩

def page (memory : Memory) (address : Word) : Vector Byte 256 :=
  have := UInt8.toNat_lt (Word.high address)
  memory.pages[(Word.high address).toNat]

def read (memory : Memory) (address : Word) : Byte :=
  have := UInt8.toNat_lt (Word.low address)
  (memory.page address)[(Word.low address).toNat]

def write (memory : Memory) (address : Word) (value : Byte) : Memory :=
  let page := (memory.page address).set (Word.low address).toNat value (UInt8.toNat_lt _)
  ⟨memory.pages.set (Word.high address).toNat page (UInt8.toNat_lt _)⟩

/-- put bytes at an address and the addresses after it -/
def writeAll (memory : Memory) (address : Word) : List Byte → Memory
  | [] => memory
  | value :: values => (memory.write address value).writeAll (address + 1) values

/-- the word whose low byte lies at an address and whose high byte lies after it -/
def readWord (memory : Memory) (address : Word) : Word :=
  Word.ofBytes (memory.read address) (memory.read (address + 1))

/-- the bytes from an address on: `count` of them, or fewer at the end of memory -/
def slice (memory : Memory) (address : Word) (count : Nat) : List Byte :=
  (List.range (min count (size - address.toNat))).map fun i => memory.read (address + UInt16.ofNat i)

@[simp] theorem read_zero (address : Word) : zero.read address = 0 := by
  simp [zero, read, page]

theorem read_write (memory : Memory) (address other : Word) (value : Byte) :
    (memory.write address value).read other = if other = address then value else memory.read other := by
  unfold read write page
  simp only [Vector.getElem_set]
  by_cases hh : (Word.high address).toNat = (Word.high other).toNat
  · by_cases hl : (Word.low address).toNat = (Word.low other).toNat
    · have : other = address := by
        rw [← Word.ofBytes_low_high other, ← Word.ofBytes_low_high address,
          UInt8.toNat_inj.1 hh, UInt8.toNat_inj.1 hl]
      simp [this]
    · have : other ≠ address := fun h => hl (by rw [h])
      simp [this, hh, hl]
  · have : other ≠ address := fun h => hh (by rw [h])
    simp [this, hh]

end Memory

end ByteMachine
