/-
The instruction table: every opcode with its code, its mnemonic, the kinds of its operands and its category. The
assembler, the listing and the machine all read this table.

An instruction is encoded as the code of its opcode followed by one byte for each operand. The pseudo-instruction `dat`
has no code; it emits its operands as they are.

`Opcode.ofCode?_eq_some_iff`: no two opcodes share a code.
`Mnemonic.ofText?_eq_operation_iff`: no two share a mnemonic.
-/
import ByteMachine.Profile
import ByteMachine.Word

namespace ByteMachine

/-- what an operand byte stands for: the index of a register, or itself -/
inductive OperandKind where
  | register
  | immediate
  deriving DecidableEq, Repr

inductive Opcode where
  | num
  | mov
  | jmp
  | jin
  | jiz
  | jnz
  | jic
  | jnc
  | clc
  | clr
  | ret
  | alc
  | eat
  | ofg
  | ofs
  | pop
  | psh
  | gec
  | sec
  | ger
  | ser
  | inc
  | dec
  | add
  | sub
  | mul
  | shl
  | shr
  | inl
  | del
  | hlt
  deriving DecidableEq, Repr

/-- what the table says about one opcode -/
structure Opcode.Entry where
  code : Byte
  mnemonic : String
  operands : List OperandKind
  category : Category

namespace Opcode

/-- every opcode, in the order of the table -/
def all : List Opcode :=
  [num, mov, jmp, jin, jiz, jnz, jic, jnc, clc, clr, ret, alc, eat, ofg, ofs, pop,
   psh, gec, sec, ger, ser, inc, dec, add, sub, mul, shl, shr, inl, del, hlt]

def entry : Opcode → Entry
  | num => ⟨0x00, "num", [.register, .immediate], .dataMove⟩
  | mov => ⟨0x01, "mov", [.register, .register], .dataMove⟩
  | jmp => ⟨0x02, "jmp", [.immediate, .immediate], .controlFlow⟩
  | jin => ⟨0x03, "jin", [.register, .register], .controlFlow⟩
  | jiz => ⟨0x04, "jiz", [.immediate, .immediate], .controlFlow⟩
  | jnz => ⟨0x05, "jnz", [.immediate, .immediate], .controlFlow⟩
  | jic => ⟨0x06, "jic", [.immediate, .immediate], .controlFlow⟩
  | jnc => ⟨0x07, "jnc", [.immediate, .immediate], .controlFlow⟩
  | clc => ⟨0x08, "clc", [.immediate, .immediate], .controlFlow⟩
  | clr => ⟨0x09, "clr", [.register, .register], .controlFlow⟩
  | ret => ⟨0x0a, "ret", [], .controlFlow⟩
  | alc => ⟨0x0b, "alc", [.immediate], .stack⟩
  | eat => ⟨0x0c, "eat", [.immediate], .stack⟩
  | ofg => ⟨0x0d, "ofg", [.register, .immediate], .stack⟩
  | ofs => ⟨0x0e, "ofs", [.register, .immediate], .stack⟩
  | pop => ⟨0x0f, "pop", [.register], .stack⟩
  | psh => ⟨0x10, "psh", [.register], .stack⟩
  | gec => ⟨0x11, "gec", [.immediate, .immediate], .memory⟩
  | sec => ⟨0x12, "sec", [.immediate, .immediate], .memory⟩
  | ger => ⟨0x13, "ger", [.register, .register], .memory⟩
  | ser => ⟨0x14, "ser", [.register, .register], .memory⟩
  | inc => ⟨0x15, "inc", [.register], .arithmetic⟩
  | dec => ⟨0x16, "dec", [.register], .arithmetic⟩
  | add => ⟨0x17, "add", [.register, .register], .arithmetic⟩
  | sub => ⟨0x18, "sub", [.register, .register], .arithmetic⟩
  | mul => ⟨0x19, "mul", [.register, .register], .arithmetic⟩
  | shl => ⟨0x1a, "shl", [.register, .register], .arithmetic⟩
  | shr => ⟨0x1b, "shr", [.register, .register], .arithmetic⟩
  | inl => ⟨0x1c, "inl", [.register, .register], .arithmetic⟩
  | del => ⟨0x1d, "del", [.register, .register], .arithmetic⟩
  | hlt => ⟨0xff, "hlt", [], .halt⟩

def code (op : Opcode) : Byte := op.entry.code

def mnemonic (op : Opcode) : String := op.entry.mnemonic

/-- the kinds of the operands, in the order of their bytes -/
def operands (op : Opcode) : List OperandKind := op.entry.operands

def category (op : Opcode) : Category := op.entry.category

def size (op : Opcode) : Nat := 1 + op.operands.length

def ofCode? : Byte → Option Opcode
  | 0x00 => some num
  | 0x01 => some mov
  | 0x02 => some jmp
  | 0x03 => some jin
  | 0x04 => some jiz
  | 0x05 => some jnz
  | 0x06 => some jic
  | 0x07 => some jnc
  | 0x08 => some clc
  | 0x09 => some clr
  | 0x0a => some ret
  | 0x0b => some alc
  | 0x0c => some eat
  | 0x0d => some ofg
  | 0x0e => some ofs
  | 0x0f => some pop
  | 0x10 => some psh
  | 0x11 => some gec
  | 0x12 => some sec
  | 0x13 => some ger
  | 0x14 => some ser
  | 0x15 => some inc
  | 0x16 => some dec
  | 0x17 => some add
  | 0x18 => some sub
  | 0x19 => some mul
  | 0x1a => some shl
  | 0x1b => some shr
  | 0x1c => some inl
  | 0x1d => some del
  | 0xff => some hlt
  | _ => none

def ofMnemonic? (text : String) : Option Opcode :=
  all.find? (·.mnemonic = text)

theorem mem_all (op : Opcode) : op ∈ all := by
  cases op <;> decide

@[simp] theorem ofCode?_code (op : Opcode) : ofCode? op.code = some op := by
  cases op <;> rfl

theorem ofCode?_eq_some_iff {b : Byte} {op : Opcode} : ofCode? b = some op ↔ b = op.code := by
  constructor
  · unfold ofCode?
    split <;> intro h <;> cases h <;> rfl
  · rintro rfl
    exact ofCode?_code op

@[simp] theorem ofMnemonic?_mnemonic (op : Opcode) : ofMnemonic? op.mnemonic = some op := by
  cases op <;> decide

end Opcode

/-- the word that starts an emitting line: the mnemonic of an operation, or `dat` -/
inductive Mnemonic where
  | operation (op : Opcode)
  | data
  deriving DecidableEq, Repr

namespace Mnemonic

/-- the spelling of the pseudo-instruction -/
def dataText : String := "dat"

/-- the mnemonic with that spelling -/
def ofText? (text : String) : Option Mnemonic :=
  if text = dataText then some data else (Opcode.ofMnemonic? text).map operation

theorem mnemonic_ne_dataText (op : Opcode) : op.mnemonic ≠ dataText := by
  cases op <;> decide

theorem ofText?_eq_data_iff {text : String} : ofText? text = some data ↔ text = dataText := by
  rw [ofText?]
  split
  · rename_i hdata
    exact iff_of_true rfl hdata
  · rename_i hdata
    simp [hdata]

theorem ofText?_eq_operation_iff {text : String} {op : Opcode} :
    ofText? text = some (operation op) ↔ text = op.mnemonic := by
  constructor
  · intro h
    rw [ofText?] at h
    split at h
    · cases h
    · obtain ⟨found, hfound, hop⟩ := Option.map_eq_some_iff.1 h
      have hmnemonic := List.find?_some hfound
      rw [← operation.inj hop]
      exact (of_decide_eq_true hmnemonic).symm
  · rintro rfl
    rw [ofText?, if_neg (mnemonic_ne_dataText op), Opcode.ofMnemonic?_mnemonic]
    rfl

end Mnemonic

end ByteMachine
