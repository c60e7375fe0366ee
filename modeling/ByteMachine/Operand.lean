/-
Operands as they are written in source text. A number stands for its value modulo 256, a register for its index, and a
name for one byte of its address: `:name` for the low byte, `name:` for the high one. The word `%name` is short for
both, low byte first.

The forms are tried in the order `%name`, `:name`, `name:`, number, register.
-/
import ByteMachine.AssemblyError
import ByteMachine.Name
import ByteMachine.Opcode
import ByteMachine.Register

namespace ByteMachine

/-- one operand byte as written -/
inductive Operand where
  | literal (value : Byte)
  | register (r : Register)
  | address (name : Name) (half : Half)
  deriving DecidableEq, Repr

namespace Operand

/-- whether the operand may stand in a place of the kind: a literal may stand everywhere, a register only in a register
place, and a byte of an address only in an immediate place -/
def fits : Operand → OperandKind → Bool
  | literal _, _ => true
  | register _, .register => true
  | address _ _, .immediate => true
  | _, _ => false

/-- the value modulo 256 of a run of digits, reduced after every digit -/
def residue? (radix : Nat) (digits : List Char) : Option Nat :=
  digits.foldlM (fun value c => (Text.digitValue? radix c).map fun digit => (value * radix + digit) % 256) 0

/-- the radix of an unsigned number and its digits, which follow the mark of the radix -/
def splitRadix : List Char → Nat × List Char
  | '0' :: 'x' :: digits => (16, digits)
  | '0' :: 'b' :: digits => (2, digits)
  | digits => (10, digits)

/-- the value modulo 256 of an unsigned number -/
def parseMagnitude? (cs : List Char) : Option Byte :=
  let (radix, digits) := splitRadix cs
  if digits.isEmpty then none else (residue? radix digits).map Nat.toUInt8

/-- the value modulo 256 of a number: decimal, or hexadecimal after `0x`, or binary after `0b`, with an optional minus
sign in front -/
def parseNumber? (text : String) : Option Byte :=
  match text.toList with
  | '-' :: cs => (parseMagnitude? cs).map fun value => 0 - value
  | cs => parseMagnitude? cs

def unreadable (word : String) : AssemblyError.Cause :=
  .invalidOperand word "a number, a register or a label reference"

/-- the bytes of the address of a name -/
def addressOf (text : String) (halves : List Half) : Except AssemblyError.Cause (List Operand) :=
  match Name.parse? false text with
  | some name => .ok (halves.map (address name))
  | none => .error (unreadable text)

/-- the operands that a word stands for -/
def parse (word : String) : Except AssemblyError.Cause (List Operand) :=
  match word.toList with
  | '%' :: name => addressOf (String.ofList name) [.low, .high]
  | ':' :: name => addressOf (String.ofList name) [.low]
  | cs =>
    if cs.getLast? = some ':' then addressOf (String.ofList cs.dropLast) [.high]
    else
      match parseNumber? word, Register.ofName? word with
      | some value, _ => .ok [literal value]
      | none, some r => .ok [register r]
      | none, none => .error (unreadable word)

end Operand

end ByteMachine
