/-
The register file: five registers of a byte, the two pointers and the flags. An operand byte reaches the byte registers
and the halves of the pointers; a byte that names no register reads as zero, and writes to it are dropped.

The instruction pointer wraps at the end of the address space. A mark tells the address after the last one from address
0; every write to the instruction pointer clears it.
-/
import ByteMachine.Register

namespace ByteMachine

/-- the registers and the flags -/
structure Registers where
  a : Byte
  b : Byte
  c : Byte
  d : Byte
  m : Byte
  ip : Word
  /-- the last byte fetched was that at the last address -/
  pastEnd : Bool
  sp : Word
  zero : Bool
  carry : Bool
  deriving DecidableEq, Repr

namespace Registers

def stackStart : Word := 0xf000

def initial : Registers := ⟨0, 0, 0, 0, 0, 0, false, stackStart, false, false⟩

def jump (rs : Registers) (target : Word) : Registers := { rs with ip := target, pastEnd := false }

def read (rs : Registers) : Register → Byte
  | .a => rs.a
  | .b => rs.b
  | .c => rs.c
  | .d => rs.d
  | .m => rs.m
  | .ipl => Word.low rs.ip
  | .iph => Word.high rs.ip
  | .spl => Word.low rs.sp
  | .sph => Word.high rs.sp

def write (rs : Registers) (r : Register) (value : Byte) : Registers :=
  match r with
  | .a => { rs with a := value }
  | .b => { rs with b := value }
  | .c => { rs with c := value }
  | .d => { rs with d := value }
  | .m => { rs with m := value }
  | .ipl => rs.jump (Word.ofBytes value (Word.high rs.ip))
  | .iph => rs.jump (Word.ofBytes (Word.low rs.ip) value)
  | .spl => { rs with sp := Word.ofBytes value (Word.high rs.sp) }
  | .sph => { rs with sp := Word.ofBytes (Word.low rs.sp) value }

/-- the value of the register that an operand byte names -/
def get (rs : Registers) (i : Byte) : Byte :=
  match Register.ofIndex? i with
  | some r => rs.read r
  | none => 0

/-- give the register that an operand byte names a value -/
def set (rs : Registers) (i value : Byte) : Registers :=
  match Register.ofIndex? i with
  | some r => rs.write r value
  | none => rs

/-- the word held by two registers -/
def pair (rs : Registers) (low high : Byte) : Word :=
  Word.ofBytes (rs.get low) (rs.get high)

/-- spread a word over two registers, its low byte first -/
def setPair (rs : Registers) (low high : Byte) (value : Word) : Registers :=
  (rs.set low (Word.low value)).set high (Word.high value)

theorem read_write (rs : Registers) (r other : Register) (value : Byte) :
    (rs.write r value).read other = if other = r then value else rs.read other := by
  cases r <;> cases other <;> simp [write, read, jump]

end Registers

end ByteMachine
