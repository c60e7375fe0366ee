/-
What an instruction does to memory and device. Most instructions change registers only. Six use a byte at an address that
they compute (`Instruction.dataUse?`), which is in memory or behind the window, and three push bytes onto the stack, which
is in memory wherever the stack pointer is (`Instruction.pushes`).

- `Exec.Within`: a computation that ends, with or without a fault, on a board related to the one it began on.
- `Exec.execute_handles`: memory and device after every instruction.
-/
import Mathlib.Tactic
import ByteMachine.Proofs.Execution.Fetch

namespace ByteMachine

variable {σ : Type}

/-! ## What an instruction uses -/

/-- the address `offset + 1` below the stack pointer, if there is one -/
def Registers.frameSlot? (rs : Registers) (offset : Byte) : Option Word :=
  if offset.toNat < rs.sp.toNat then some (UInt16.ofNat (rs.sp.toNat - offset.toNat - 1)) else none

/-- what is done with the byte at a computed address -/
inductive DataUse where
  | load (address : Word)
  | store (address : Word) (value : Byte)
  deriving DecidableEq, Repr

namespace Instruction

/-- the byte that an instruction loads or stores, as the registers are when it is executed -/
def dataUse? (rs : Registers) : Instruction → Option DataUse
  | gec lo hi => some (.load (Word.ofBytes lo hi))
  | ger lo hi => some (.load (rs.pair lo hi))
  | ofg _ offset => (rs.frameSlot? offset).map .load
  | sec lo hi => some (.store (Word.ofBytes lo hi) rs.m)
  | ser lo hi => some (.store (rs.pair lo hi) rs.m)
  | ofs reg offset => (rs.frameSlot? offset).map fun address => .store address (rs.get reg)
  | _ => none

/-- the bytes that an instruction pushes; a call pushes the address of the next instruction -/
def pushes (rs : Registers) : Instruction → List Byte
  | psh reg => [rs.get reg]
  | clc _ _ | clr _ _ => [Word.low rs.ip, Word.high rs.ip]
  | _ => []

end Instruction

/-- put bytes at a stack pointer and the addresses after it, as far as it can be raised: nothing is pushed at the last
address -/
def Memory.pushAll (memory : Memory) (sp : Word) : List Byte → Memory
  | [] => memory
  | value :: values => if sp = 0xffff then memory else (memory.write sp value).pushAll (sp + 1) values

namespace Board

structure SameStore (s t : Board σ) : Prop where
  memory : t.machine.memory = s.machine.memory
  device : t.device = s.device

theorem SameStore.refl (s : Board σ) : s.SameStore s := ⟨rfl, rfl⟩

theorem SameStore.trans {s t u : Board σ} (h : s.SameStore t) (h' : t.SameStore u) : s.SameStore u :=
  ⟨h'.memory.trans h.memory, h'.device.trans h.device⟩

instance : IsPreorder (Board σ) SameStore where
  refl := SameStore.refl
  trans _ _ _ := SameStore.trans

def pushed (board : Board σ) (values : List Byte) : Board σ :=
  board.withMemory (board.machine.memory.pushAll board.machine.registers.sp values)

variable [Device σ]

def stored (board : Board σ) (address : Word) (value : Byte) : Board σ :=
  if InWindow address then board.withDevice (Device.write board.device (address - windowStart) value)
  else board.withMemory (board.machine.memory.write address value)

/-- what an instruction makes of memory and device -/
def handled (board : Board σ) (i : Instruction) : Board σ :=
  match i.dataUse? board.machine.registers with
  | some (.load address) => board.withDevice (board.machine.memory.view board.device address).2
  | some (.store address value) => board.stored address value
  | none => board.pushed (i.pushes board.machine.registers)

end Board

namespace Exec

/-! ## Computations that stay within a relation -/

/-- the board at the end of a computation, whether there was a fault or not -/
def last {α : Type} : EStateM.Result Fault.Cause (Board σ) α → Board σ
  | .ok _ board => board
  | .error _ board => board

/-- the board at the end is related to the one at the start -/
def Within (E : Board σ → Board σ → Prop) {α : Type} (x : Exec σ α) : Prop := ∀ board, E board (last (x.run board))

section Within

variable {E : Board σ → Board σ → Prop} [IsPreorder (Board σ) E] {α β : Type}

theorem within_pure (value : α) : Within E (pure value : Exec σ α) := fun board => refl_of E board

theorem within_throw (cause : Fault.Cause) : Within E (throw cause : Exec σ α) := fun board => refl_of E board

omit [IsPreorder (Board σ) E] in
theorem Within.ite {condition : Prop} [Decidable condition] {x y : Exec σ α} (hx : Within E x) (hy : Within E y) :
    Within E (if condition then x else y) := by
  by_cases hcondition : condition
  · rw [if_pos hcondition]
    exact hx
  · rw [if_neg hcondition]
    exact hy

/-- what comes after a computation stays within the relation too -/
theorem last_bind (x : Exec σ α) {f : α → Exec σ β} (hf : ∀ value, Within E (f value)) (board : Board σ) :
    E (last (x.run board)) (last ((x >>= f).run board)) := by
  rw [EStateM.run_bind]
  cases x.run board with
  | ok value after => exact hf value after
  | error cause after => exact refl_of E after

theorem Within.bind {x : Exec σ α} {f : α → Exec σ β} (hx : Within E x) (hf : ∀ value, Within E (f value)) :
    Within E (x >>= f) :=
  fun board => trans_of E (hx board) (last_bind x hf board)

theorem within_registers : Within E (registers : Exec σ Registers) := fun board => refl_of E board

theorem within_getRegister (i : Byte) : Within E (getRegister i : Exec σ Byte) :=
  within_registers.bind fun _ => within_pure _

theorem within_getPair (low high : Byte) : Within E (getPair low high : Exec σ Word) :=
  within_registers.bind fun _ => within_pure _

theorem within_checkAddress (address : Int) : Within E (checkAddress address : Exec σ Word) :=
  .ite (within_pure _) (within_throw _)

end Within

/-! ## Computations that leave memory and device alone -/

section Quiet

theorem quiet_modifyRegisters (f : Registers → Registers) :
    Within Board.SameStore (modifyRegisters f : Exec σ Unit) := fun _ => ⟨rfl, rfl⟩

theorem quiet_setRegister (i value : Byte) : Within Board.SameStore (setRegister i value : Exec σ Unit) :=
  quiet_modifyRegisters _

theorem quiet_jump (target : Word) : Within Board.SameStore (jump target : Exec σ Unit) := quiet_modifyRegisters _

theorem quiet_jumpIf (condition : Bool) (low high : Byte) :
    Within Board.SameStore (jumpIf condition low high : Exec σ Unit) :=
  .ite (quiet_jump _) (within_pure _)

theorem quiet_pop : Within Board.SameStore (pop : Exec σ Byte) :=
  within_registers.bind fun _ => (within_checkAddress _).bind fun _ => (quiet_modifyRegisters _).bind fun _ =>
    fun board => .refl board

theorem quiet_moveStack (distance : Int) : Within Board.SameStore (moveStack distance : Exec σ Unit) :=
  within_registers.bind fun _ => (within_checkAddress _).bind fun _ => quiet_modifyRegisters _

theorem quiet_combine (op : Byte → Byte → Byte × Bool) (dst y : Byte) :
    Within Board.SameStore (combine op dst y : Exec σ Unit) :=
  (within_getRegister dst).bind fun _ => (quiet_modifyRegisters _).bind fun _ => quiet_setRegister _ _

theorem quiet_modifyPair (low high : Byte) (f : Word → Word) :
    Within Board.SameStore (modifyPair low high f : Exec σ Unit) :=
  (within_getPair low high).bind fun _ => quiet_modifyRegisters _

end Quiet

/-! ## Computations that use memory or device -/

theorem run_frameSlot_of_some {offset : Byte} {board : Board σ} {address : Word}
    (h : board.machine.registers.frameSlot? offset = some address) :
    (frameSlot offset).run board = .ok address board := by
  have hsp := board.machine.registers.sp.toNat_lt
  rw [Registers.frameSlot?, Option.ite_none_right_eq_some] at h
  obtain ⟨hlt, hslot⟩ := h
  have hexact : (board.machine.registers.sp.toNat : Int) - offset.toNat - 1 =
      (board.machine.registers.sp.toNat - offset.toNat - 1 : Nat) := by omega
  rw [frameSlot, run_bind_of_ok (run_registers board), hexact,
    run_checkAddress_of_lt (by rw [Memory.size]; omega), Option.some.inj hslot]

theorem run_frameSlot_of_none {offset : Byte} {board : Board σ}
    (h : board.machine.registers.frameSlot? offset = none) :
    (frameSlot offset).run board =
      .error (.outOfRange (board.machine.registers.sp.toNat - offset.toNat - 1)) board := by
  rw [Registers.frameSlot?, ite_eq_right_iff] at h
  rw [frameSlot, run_bind_of_ok (run_registers board)]
  refine run_checkAddress_of_outside ?_ board
  intro hinside
  have hlt : offset.toNat < board.machine.registers.sp.toNat := by omega
  cases h hlt

theorem last_bind_of_ok {α β : Type} {x : Exec σ α} {value : α} {board after : Board σ}
    (h : x.run board = .ok value after) (f : α → Exec σ β) :
    last ((x >>= f).run board) = last ((f value).run after) := by
  rw [run_bind_of_ok h]

/-- a computation that pushes the bytes, until the stack pointer cannot be raised, and leaves memory and device alone
otherwise -/
def Pushes (values : List Byte) {α : Type} (x : Exec σ α) : Prop :=
  ∀ board : Board σ, (board.pushed values).SameStore (last (x.run board))

theorem pushes_nil {α : Type} {x : Exec σ α} (h : Within Board.SameStore x) : Pushes [] x := h

theorem Pushes.push_bind {α : Type} {values : List Byte} {f : Unit → Exec σ α} (h : Pushes values (f ()))
    (value : Byte) : Pushes (value :: values) (push value >>= f) := by
  intro board
  rw [EStateM.run_bind]
  by_cases hsp : board.machine.registers.sp = 0xffff
  · rw [run_push_of_last hsp, Board.pushed, Memory.pushAll, if_pos hsp]
    exact .refl board
  · have hrest := h (board.raised value)
    rw [run_push_of_ne hsp, Board.pushed, Memory.pushAll, if_neg hsp]
    exact ⟨hrest.memory, hrest.device⟩

theorem pushes_push (value : Byte) : Pushes [value] (push value : Exec σ Unit) := by
  have hpush := (pushes_nil (within_pure ())).push_bind (σ := σ) (f := pure) value
  rwa [bind_pure] at hpush

theorem last_call (target : Word) (board : Board σ) :
    (board.pushed [Word.low board.machine.registers.ip, Word.high board.machine.registers.ip]).SameStore
      (last ((call target).run board)) := by
  rw [call, run_bind_of_ok (run_registers board)]
  refine Pushes.push_bind ?_ _ board
  refine Pushes.push_bind ?_ _
  exact pushes_nil (quiet_jump target)

/-! ## Instructions -/

variable [Device σ]

/-- a register takes the byte at an address -/
theorem last_load (address : Word) (reg : Byte) (board : Board σ) :
    (board.withDevice (board.machine.memory.view board.device address).2).SameStore
      (last ((do setRegister reg (← load address) : Exec σ Unit).run board)) := by
  rw [EStateM.run_bind, run_load]
  exact quiet_setRegister reg _ _

/-- **An instruction does with memory and device what it is told to,** also if it ends in a fault. -/
theorem execute_handles (i : Instruction) (board : Board σ) :
    (board.handled i).SameStore (last ((execute i).run board)) := by
  cases i with
  | num reg value => exact quiet_setRegister _ _ board
  | mov dst src => exact ((within_getRegister _).bind fun _ => quiet_setRegister _ _) board
  | jmp lo hi => exact quiet_jump _ board
  | jin lo hi => exact ((within_getPair _ _).bind fun _ => quiet_jump _) board
  | jiz lo hi => exact (within_registers.bind fun _ => quiet_jumpIf _ _ _) board
  | jnz lo hi => exact (within_registers.bind fun _ => quiet_jumpIf _ _ _) board
  | jic lo hi => exact (within_registers.bind fun _ => quiet_jumpIf _ _ _) board
  | jnc lo hi => exact (within_registers.bind fun _ => quiet_jumpIf _ _ _) board
  | clc lo hi => exact last_call (Word.ofBytes lo hi) board
  | clr lo hi =>
    rw [execute, last_bind_of_ok (run_getPair lo hi board)]
    exact last_call _ board
  | ret => exact (quiet_pop.bind fun _ => quiet_pop.bind fun _ => quiet_jump _) board
  | alc size => exact quiet_moveStack _ board
  | eat size => exact quiet_moveStack _ board
  | ofg reg offset =>
    cases hslot : board.machine.registers.frameSlot? offset with
    | none =>
      have hrun := run_frameSlot_of_none hslot
      simp only [Board.handled, Instruction.dataUse?, hslot, execute, EStateM.run_bind, hrun]
      exact .refl board
    | some address =>
      simp only [Board.handled, Instruction.dataUse?, hslot, execute, EStateM.run_bind, run_frameSlot_of_some hslot]
      exact last_load address reg board
  | ofs reg offset =>
    cases hslot : board.machine.registers.frameSlot? offset with
    | none =>
      have hrun := run_frameSlot_of_none hslot
      simp only [Board.handled, Instruction.dataUse?, hslot, execute, EStateM.run_bind, hrun]
      exact .refl board
    | some address =>
      simp only [Board.handled, Instruction.dataUse?, hslot, execute, EStateM.run_bind, run_frameSlot_of_some hslot]
      exact ⟨rfl, rfl⟩
  | pop reg => exact (quiet_pop.bind fun _ => quiet_setRegister _ _) board
  | psh reg =>
    rw [execute, last_bind_of_ok (run_getRegister reg board)]
    exact pushes_push _ board
  | gec lo hi => exact last_load (Word.ofBytes lo hi) memoryRegister board
  | sec lo hi => exact ⟨rfl, rfl⟩
  | ger lo hi => exact last_load (board.machine.registers.pair lo hi) memoryRegister board
  | ser lo hi => exact ⟨rfl, rfl⟩
  | inc reg => exact quiet_combine addBytes reg 1 board
  | dec reg => exact quiet_combine subBytes reg 1 board
  | add dst src => exact ((within_getRegister _).bind fun _ => quiet_combine _ _ _) board
  | sub dst src => exact ((within_getRegister _).bind fun _ => quiet_combine _ _ _) board
  | mul dst src => exact ((within_getRegister _).bind fun _ => quiet_combine _ _ _) board
  | shl dst src =>
    exact ((within_getRegister _).bind fun _ => (within_getRegister _).bind fun _ => quiet_setRegister _ _) board
  | shr dst src =>
    exact ((within_getRegister _).bind fun _ => (within_getRegister _).bind fun _ => quiet_setRegister _ _) board
  | inl lo hi => exact quiet_modifyPair _ _ _ board
  | del lo hi => exact quiet_modifyPair _ _ _ board
  | hlt => exact ⟨rfl, rfl⟩

end Exec

end ByteMachine
