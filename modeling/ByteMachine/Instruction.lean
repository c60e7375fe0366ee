/-
Instructions with their operand bytes, and their encoding. A register operand is kept as the byte that names it, since
every byte may stand in an encoded instruction, also one that names no register.

`Opcode.form` says how many operand bytes an opcode takes and which instruction they make; the machine fetches by it and
the listing reads by it.
-/
import ByteMachine.Opcode

namespace ByteMachine

/-- an operation with its operand bytes; a pair of registers or bytes names the low half first -/
inductive Instruction where
  /-- the register takes the value -/
  | num (reg value : Byte)
  /-- the register `dst` takes the value of `src` -/
  | mov (dst src : Byte)
  /-- go on at the address -/
  | jmp (lo hi : Byte)
  /-- go on at the address held by a register pair -/
  | jin (lo hi : Byte)
  /-- go on at the address if the zero flag is set -/
  | jiz (lo hi : Byte)
  /-- go on at the address unless the zero flag is set -/
  | jnz (lo hi : Byte)
  /-- go on at the address if the carry flag is set -/
  | jic (lo hi : Byte)
  /-- go on at the address unless the carry flag is set -/
  | jnc (lo hi : Byte)
  /-- push the return address and go on at the address -/
  | clc (lo hi : Byte)
  /-- push the return address and go on at the address held by a register pair -/
  | clr (lo hi : Byte)
  /-- pop the return address and go on there -/
  | ret
  /-- raise the stack pointer -/
  | alc (size : Byte)
  /-- lower the stack pointer -/
  | eat (size : Byte)
  /-- the register takes the byte `offset + 1` below the stack pointer -/
  | ofg (reg offset : Byte)
  /-- the byte `offset + 1` below the stack pointer takes the value of the register -/
  | ofs (reg offset : Byte)
  /-- the register takes the byte popped from the stack -/
  | pop (reg : Byte)
  /-- push the register -/
  | psh (reg : Byte)
  /-- `m` takes the byte at the address -/
  | gec (lo hi : Byte)
  /-- the byte at the address takes the value of `m` -/
  | sec (lo hi : Byte)
  /-- `m` takes the byte at the address held by a register pair -/
  | ger (lo hi : Byte)
  /-- the byte at the address held by a register pair takes the value of `m` -/
  | ser (lo hi : Byte)
  /-- add one, with flags -/
  | inc (reg : Byte)
  /-- subtract one, with flags -/
  | dec (reg : Byte)
  /-- `dst` takes the sum, with flags -/
  | add (dst src : Byte)
  /-- `dst` takes the difference, with flags -/
  | sub (dst src : Byte)
  /-- `dst` takes the product, with flags -/
  | mul (dst src : Byte)
  /-- shift `dst` left by `src` places -/
  | shl (dst src : Byte)
  /-- shift `dst` right by `src` places -/
  | shr (dst src : Byte)
  /-- add one to the word held by a register pair -/
  | inl (lo hi : Byte)
  /-- subtract one from the word held by a register pair -/
  | del (lo hi : Byte)
  /-- stop -/
  | hlt
  deriving DecidableEq, Repr

namespace Instruction

def opcode : Instruction → Opcode
  | num _ _ => .num
  | mov _ _ => .mov
  | jmp _ _ => .jmp
  | jin _ _ => .jin
  | jiz _ _ => .jiz
  | jnz _ _ => .jnz
  | jic _ _ => .jic
  | jnc _ _ => .jnc
  | clc _ _ => .clc
  | clr _ _ => .clr
  | ret => .ret
  | alc _ => .alc
  | eat _ => .eat
  | ofg _ _ => .ofg
  | ofs _ _ => .ofs
  | pop _ => .pop
  | psh _ => .psh
  | gec _ _ => .gec
  | sec _ _ => .sec
  | ger _ _ => .ger
  | ser _ _ => .ser
  | inc _ => .inc
  | dec _ => .dec
  | add _ _ => .add
  | sub _ _ => .sub
  | mul _ _ => .mul
  | shl _ _ => .shl
  | shr _ _ => .shr
  | inl _ _ => .inl
  | del _ _ => .del
  | hlt => .hlt

/-- the operand bytes in the order of the encoding -/
def operands : Instruction → List Byte
  | num x y => [x, y]
  | mov x y => [x, y]
  | jmp x y => [x, y]
  | jin x y => [x, y]
  | jiz x y => [x, y]
  | jnz x y => [x, y]
  | jic x y => [x, y]
  | jnc x y => [x, y]
  | clc x y => [x, y]
  | clr x y => [x, y]
  | ret => []
  | alc x => [x]
  | eat x => [x]
  | ofg x y => [x, y]
  | ofs x y => [x, y]
  | pop x => [x]
  | psh x => [x]
  | gec x y => [x, y]
  | sec x y => [x, y]
  | ger x y => [x, y]
  | ser x y => [x, y]
  | inc x => [x]
  | dec x => [x]
  | add x y => [x, y]
  | sub x y => [x, y]
  | mul x y => [x, y]
  | shl x y => [x, y]
  | shr x y => [x, y]
  | inl x y => [x, y]
  | del x y => [x, y]
  | hlt => []

def encode (i : Instruction) : List Byte := i.opcode.code :: i.operands

end Instruction

/-- an instruction that waits for its operand bytes -/
inductive Opcode.Form where
  | nullary (i : Instruction)
  | unary (f : Byte → Instruction)
  | binary (f : Byte → Byte → Instruction)

/-- the operand bytes that an opcode takes, and the instruction they make -/
def Opcode.form : Opcode → Form
  | num => .binary .num
  | mov => .binary .mov
  | jmp => .binary .jmp
  | jin => .binary .jin
  | jiz => .binary .jiz
  | jnz => .binary .jnz
  | jic => .binary .jic
  | jnc => .binary .jnc
  | clc => .binary .clc
  | clr => .binary .clr
  | ret => .nullary .ret
  | alc => .unary .alc
  | eat => .unary .eat
  | ofg => .binary .ofg
  | ofs => .binary .ofs
  | pop => .unary .pop
  | psh => .unary .psh
  | gec => .binary .gec
  | sec => .binary .sec
  | ger => .binary .ger
  | ser => .binary .ser
  | inc => .unary .inc
  | dec => .unary .dec
  | add => .binary .add
  | sub => .binary .sub
  | mul => .binary .mul
  | shl => .binary .shl
  | shr => .binary .shr
  | inl => .binary .inl
  | del => .binary .del
  | hlt => .nullary .hlt

/-- the instruction at the head of `code :: rest` and the bytes after it; nothing if the code is unknown or `rest` ends
too early -/
def Instruction.decode? (code : Byte) (rest : List Byte) : Option (Instruction × List Byte) :=
  match (Opcode.ofCode? code).map Opcode.form, rest with
  | some (.nullary i), rest => some (i, rest)
  | some (.unary f), x :: rest => some (f x, rest)
  | some (.binary f), x :: y :: rest => some (f x y, rest)
  | _, _ => none

theorem Instruction.length_operands (i : Instruction) : i.operands.length = i.opcode.operands.length := by
  cases i <;> rfl

theorem Instruction.length_encode (i : Instruction) : i.encode.length = i.opcode.size := by
  simp only [encode, Opcode.size, List.length_cons, length_operands]
  omega

@[simp] theorem Instruction.decode?_encode (i : Instruction) (rest : List Byte) :
    decode? i.opcode.code (i.operands ++ rest) = some (i, rest) := by
  cases i <;> rfl

end ByteMachine
