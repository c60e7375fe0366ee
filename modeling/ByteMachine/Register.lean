/-
The nine registers that an operand byte can name: five of a byte each, and the halves of the instruction pointer and of
the stack pointer. A register's place in `Register.all` is its index in an encoded instruction.
-/
import ByteMachine.Word

namespace ByteMachine

inductive Register where
  | a
  | b
  | c
  | d
  | m
  | ipl
  | iph
  | spl
  | sph
  deriving DecidableEq, Repr

namespace Register

/-- every register, in the order of the indices -/
def all : List Register := [a, b, c, d, m, ipl, iph, spl, sph]

/-- the operand byte that names the register -/
def index : Register → Byte
  | a => 0
  | b => 1
  | c => 2
  | d => 3
  | m => 4
  | ipl => 5
  | iph => 6
  | spl => 7
  | sph => 8

def name : Register → String
  | a => "a"
  | b => "b"
  | c => "c"
  | d => "d"
  | m => "m"
  | ipl => "ipl"
  | iph => "iph"
  | spl => "spl"
  | sph => "sph"

/-- the register that an operand byte names; bytes above eight name none -/
def ofIndex? : Byte → Option Register
  | 0 => some a
  | 1 => some b
  | 2 => some c
  | 3 => some d
  | 4 => some m
  | 5 => some ipl
  | 6 => some iph
  | 7 => some spl
  | 8 => some sph
  | _ => none

def ofName? (text : String) : Option Register :=
  all.find? (·.name = text)

@[simp] theorem ofIndex?_index (r : Register) : ofIndex? r.index = some r := by
  cases r <;> rfl

theorem ofIndex?_eq_some_iff {i : Byte} {r : Register} : ofIndex? i = some r ↔ i = r.index := by
  constructor
  · unfold ofIndex?
    split <;> intro h <;> cases h <;> rfl
  · rintro rfl
    exact ofIndex?_index r

@[simp] theorem ofName?_name (r : Register) : ofName? r.name = some r := by
  cases r <;> decide

end Register

end ByteMachine
