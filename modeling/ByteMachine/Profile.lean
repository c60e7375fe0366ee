/-
Counts of executed instructions by category. A count stops at the greatest sixty-four-bit number instead of wrapping,
and so does the total.
-/

namespace ByteMachine

/-- what kind of work an instruction does -/
inductive Category where
  | dataMove
  | controlFlow
  | stack
  | memory
  | arithmetic
  | halt
  deriving DecidableEq, Repr

namespace Category

/-- every category, in the order of the reports -/
def all : List Category := [dataMove, controlFlow, stack, memory, arithmetic, halt]

def title : Category → String
  | dataMove => "Data Move"
  | controlFlow => "Control Flow"
  | stack => "Stack"
  | memory => "Memory"
  | arithmetic => "Arithmetic"
  | halt => "Halt"

end Category

/-- the sum, or the greatest sixty-four-bit number if the sum does not fit -/
def saturatingAdd (x y : UInt64) : UInt64 :=
  if x.toNat + y.toNat < 0x10000000000000000 then x + y else 0xffffffffffffffff

theorem toNat_saturatingAdd (x y : UInt64) :
    (saturatingAdd x y).toNat = min 0xffffffffffffffff (x.toNat + y.toNat) := by
  unfold saturatingAdd
  split
  · rw [UInt64.toNat_add]
    omega
  · simp
    omega

structure Profile where
  dataMove : UInt64
  controlFlow : UInt64
  stack : UInt64
  memory : UInt64
  arithmetic : UInt64
  halt : UInt64
  deriving DecidableEq, Repr

namespace Profile

def empty : Profile := ⟨0, 0, 0, 0, 0, 0⟩

def get (p : Profile) : Category → UInt64
  | .dataMove => p.dataMove
  | .controlFlow => p.controlFlow
  | .stack => p.stack
  | .memory => p.memory
  | .arithmetic => p.arithmetic
  | .halt => p.halt

def add (p : Profile) (category : Category) (amount : UInt64) : Profile :=
  match category with
  | .dataMove => { p with dataMove := saturatingAdd p.dataMove amount }
  | .controlFlow => { p with controlFlow := saturatingAdd p.controlFlow amount }
  | .stack => { p with stack := saturatingAdd p.stack amount }
  | .memory => { p with memory := saturatingAdd p.memory amount }
  | .arithmetic => { p with arithmetic := saturatingAdd p.arithmetic amount }
  | .halt => { p with halt := saturatingAdd p.halt amount }

def counts (p : Profile) : List (Category × UInt64) :=
  Category.all.map fun category => (category, p.get category)

def total (p : Profile) : UInt64 :=
  p.counts.foldl (fun sum (_, count) => saturatingAdd sum count) 0

@[simp] theorem get_empty (category : Category) : empty.get category = 0 := by
  cases category <;> rfl

theorem get_add (p : Profile) (category other : Category) (amount : UInt64) :
    (p.add category amount).get other =
      if other = category then saturatingAdd (p.get category) amount else p.get other := by
  cases category <;> cases other <;> rfl

end Profile

end ByteMachine
