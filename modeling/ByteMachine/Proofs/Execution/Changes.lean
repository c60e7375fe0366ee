/-
What an instruction may change. It gives registers values (`Instruction.destinations`), goes on elsewhere
(`Instruction.transfers`), sets the flags (`Instruction.setsFlags`), moves the stack pointer, changes memory or the
device, or stops the machine. The profile and the mark of a stopped machine it never touches.

- `Exec.Allows`: a relation between boards that holds over each of the changes that an instruction makes.
- `Exec.execute_within`: such a relation holds between the boards before and after the instruction, also if that ends in
  a fault; `Exec.execute_same` and `Exec.execute_same_registers` are about parts of the board that stay the same.
-/
import Mathlib.Tactic
import ByteMachine.Proofs.Execution.Effects

namespace ByteMachine

variable {σ : Type}

/-! ## Kinds of changes -/

namespace Instruction

/-- the operand bytes of the registers that an instruction gives a value -/
def destinations : Instruction → List Byte
  | num reg _ | ofg reg _ | pop reg | inc reg | dec reg => [reg]
  | mov dst _ | add dst _ | sub dst _ | mul dst _ | shl dst _ | shr dst _ => [dst]
  | gec _ _ | ger _ _ => [memoryRegister]
  | inl lo hi | del lo hi => [lo, hi]
  | _ => []

/-- whether an instruction goes on elsewhere than at the next instruction, as the flags are when it is executed -/
def transfers (rs : Registers) : Instruction → Bool
  | jmp _ _ | jin _ _ | clc _ _ | clr _ _ | ret => true
  | jiz _ _ => rs.zero
  | jnz _ _ => !rs.zero
  | jic _ _ => rs.carry
  | jnc _ _ => !rs.carry
  | _ => false

def setsFlags : Instruction → Bool
  | inc _ | dec _ | add _ _ | sub _ _ | mul _ _ => true
  | _ => false

end Instruction

namespace Board

/-- a part of the board is the same -/
def Same {γ : Type} (part : Board σ → γ) (s t : Board σ) : Prop := part t = part s

instance {γ : Type} (part : Board σ → γ) : IsPreorder (Board σ) (Same part) where
  refl _ := rfl
  trans _ _ _ h h' := h'.trans h

end Board

namespace Exec

/-- the relation holds over each change that the instruction makes, as the registers are when it is executed -/
structure Allows (E : Board σ → Board σ → Prop) (rs : Registers) (i : Instruction) : Prop where
  set : ∀ dst ∈ i.destinations, ∀ board value,
    E board (board.withRegisters (board.machine.registers.set dst value))
  flags : i.setsFlags = true → ∀ board zero carry,
    E board (board.withRegisters { board.machine.registers with zero, carry })
  jump : i.transfers rs = true → ∀ board target,
    E board (board.withRegisters (board.machine.registers.jump target))
  stack : ∀ board sp, E board (board.withRegisters { board.machine.registers with sp })
  memory : ∀ board memory, E board (board.withMemory memory)
  device : ∀ board device, E board (board.withDevice device)
  halting : i = .hlt → ∀ board, E board board.withHalting

/-! ## Computations -/

section Within

variable {E : Board σ → Board σ → Prop} [IsPreorder (Board σ) E]

omit [IsPreorder (Board σ) E] in
theorem within_modifyRegisters {f : Registers → Registers}
    (h : ∀ board : Board σ, E board (board.withRegisters (f board.machine.registers))) :
    Within E (modifyRegisters f) := h

theorem within_frameSlot (offset : Byte) : Within E (frameSlot offset : Exec σ Word) :=
  within_registers.bind fun _ => within_checkAddress _

theorem within_moveStack
    (hstack : ∀ (board : Board σ) sp, E board (board.withRegisters { board.machine.registers with sp }))
    (distance : Int) : Within E (moveStack distance : Exec σ Unit) :=
  within_registers.bind fun _ => (within_checkAddress _).bind fun sp => within_modifyRegisters (hstack · sp)

theorem within_pop
    (hstack : ∀ (board : Board σ) sp, E board (board.withRegisters { board.machine.registers with sp })) :
    Within E (pop : Exec σ Byte) :=
  within_registers.bind fun _ => (within_checkAddress _).bind fun sp =>
    (within_modifyRegisters (hstack · sp)).bind fun _ => fun board => refl_of E board

theorem within_push
    (hstack : ∀ (board : Board σ) sp, E board (board.withRegisters { board.machine.registers with sp }))
    (hmemory : ∀ (board : Board σ) memory, E board (board.withMemory memory)) (value : Byte) :
    Within E (push value : Exec σ Unit) := by
  refine within_registers.bind fun _ => (within_checkAddress _).bind fun sp => .bind ?_ fun _ =>
    within_modifyRegisters (hstack · sp)
  exact fun board => hmemory board _

theorem within_modifyPair {low high : Byte}
    (hset : ∀ dst ∈ [low, high], ∀ (board : Board σ) value,
      E board (board.withRegisters (board.machine.registers.set dst value)))
    (f : Word → Word) : Within E (modifyPair low high f : Exec σ Unit) := by
  refine (within_getPair _ _).bind fun value => within_modifyRegisters fun board => ?_
  have hlow := hset low List.mem_cons_self board (Word.low (f value))
  exact trans_of E hlow (hset high (List.mem_cons_of_mem _ List.mem_cons_self) _ (Word.high (f value)))

theorem within_combine {dst : Byte}
    (hset : ∀ (board : Board σ) value, E board (board.withRegisters (board.machine.registers.set dst value)))
    (hflags : ∀ (board : Board σ) zero carry,
      E board (board.withRegisters { board.machine.registers with zero, carry }))
    (op : Byte → Byte → Byte × Bool) (y : Byte) : Within E (combine op dst y : Exec σ Unit) :=
  (within_getRegister _).bind fun _ => (within_modifyRegisters (hflags · _ _)).bind fun _ =>
    within_modifyRegisters (hset · _)

/-- a jump under a condition that says whether the instruction goes on elsewhere -/
theorem within_jumpIf {condition : Bool}
    (hjump : condition = true → ∀ (board : Board σ) target,
      E board (board.withRegisters (board.machine.registers.jump target)))
    (low high : Byte) : Within E (jumpIf condition low high : Exec σ Unit) := by
  cases condition with
  | true => exact fun board => hjump rfl board _
  | false => exact within_pure ()

variable [Device σ]

omit [IsPreorder (Board σ) E] in
theorem within_load (hdevice : ∀ (board : Board σ) device, E board (board.withDevice device)) (address : Word) :
    Within E (load address : Exec σ Byte) := by
  intro board
  rw [run_load]
  exact hdevice board _

omit [IsPreorder (Board σ) E] in
theorem within_store (hmemory : ∀ (board : Board σ) memory, E board (board.withMemory memory))
    (hdevice : ∀ (board : Board σ) device, E board (board.withDevice device)) (address : Word) (value : Byte) :
    Within E (store address value : Exec σ Unit) := by
  intro board
  by_cases hwindow : InWindow address
  · rw [run_store_of_window hwindow]
    exact hdevice board _
  · rw [run_store_of_memory hwindow]
    exact hmemory board _

/-! ## Instructions -/

/-- **An instruction makes no other changes.** -/
theorem execute_within {i : Instruction} {board : Board σ} (h : Allows E board.machine.registers i) :
    E board (last ((execute i).run board)) := by
  obtain ⟨hset, hflags, hjump, hstack, hmemory, hdevice, hhalting⟩ := h
  have hpush := within_push hstack hmemory
  have hpop := within_pop hstack
  have hload := within_load hdevice
  have hstore := within_store hmemory hdevice
  have hone : ∀ dst value, dst ∈ i.destinations → Within E (setRegister dst value : Exec σ Unit) :=
    fun dst value hdst => within_modifyRegisters (hset dst hdst · value)
  have hcombine : ∀ op dst y, dst ∈ i.destinations → i.setsFlags = true →
      Within E (combine op dst y : Exec σ Unit) :=
    fun op dst y hdst hsets => within_combine (hset dst hdst) (hflags hsets) op y
  have hgo : ∀ target, i.transfers board.machine.registers = true → Within E (jump target : Exec σ Unit) :=
    fun target htransfers => within_modifyRegisters (hjump htransfers · target)
  have hcall : ∀ target, i.transfers board.machine.registers = true → Within E (call target : Exec σ Unit) :=
    fun target htransfers => within_registers.bind fun _ => (hpush _).bind fun _ => (hpush _).bind fun _ =>
      hgo target htransfers
  cases i with
  | num reg value => exact hone reg value List.mem_cons_self board
  | mov dst src => exact ((within_getRegister _).bind fun value => hone dst value List.mem_cons_self) board
  | jmp lo hi => exact hgo _ rfl board
  | jin lo hi => exact ((within_getPair _ _).bind fun target => hgo target rfl) board
  | jiz lo hi =>
    rw [execute, last_bind_of_ok (run_registers board)]
    exact within_jumpIf hjump lo hi board
  | jnz lo hi =>
    rw [execute, last_bind_of_ok (run_registers board)]
    exact within_jumpIf hjump lo hi board
  | jic lo hi =>
    rw [execute, last_bind_of_ok (run_registers board)]
    exact within_jumpIf hjump lo hi board
  | jnc lo hi =>
    rw [execute, last_bind_of_ok (run_registers board)]
    exact within_jumpIf hjump lo hi board
  | clc lo hi => exact hcall _ rfl board
  | clr lo hi => exact ((within_getPair _ _).bind fun target => hcall target rfl) board
  | ret => exact (hpop.bind fun _ => hpop.bind fun _ => hgo _ rfl) board
  | alc size => exact within_moveStack hstack _ board
  | eat size => exact within_moveStack hstack _ board
  | ofg reg offset =>
    exact ((within_frameSlot _).bind fun _ => (hload _).bind fun value => hone reg value List.mem_cons_self) board
  | ofs reg offset =>
    exact ((within_frameSlot _).bind fun _ => (within_getRegister _).bind fun value => hstore _ value) board
  | pop reg => exact (hpop.bind fun value => hone reg value List.mem_cons_self) board
  | psh reg => exact ((within_getRegister _).bind fun value => hpush value) board
  | gec lo hi => exact ((hload _).bind fun value => hone memoryRegister value List.mem_cons_self) board
  | sec lo hi => exact ((within_getRegister _).bind fun value => hstore _ value) board
  | ger lo hi =>
    exact ((within_getPair _ _).bind fun _ => (hload _).bind fun value =>
      hone memoryRegister value List.mem_cons_self) board
  | ser lo hi =>
    exact ((within_getPair _ _).bind fun _ => (within_getRegister _).bind fun value => hstore _ value) board
  | inc reg => exact hcombine addBytes reg 1 List.mem_cons_self rfl board
  | dec reg => exact hcombine subBytes reg 1 List.mem_cons_self rfl board
  | add dst src => exact ((within_getRegister _).bind fun y => hcombine _ dst y List.mem_cons_self rfl) board
  | sub dst src => exact ((within_getRegister _).bind fun y => hcombine _ dst y List.mem_cons_self rfl) board
  | mul dst src => exact ((within_getRegister _).bind fun y => hcombine _ dst y List.mem_cons_self rfl) board
  | shl dst src =>
    exact ((within_getRegister _).bind fun _ => (within_getRegister _).bind fun _ =>
      hone dst _ List.mem_cons_self) board
  | shr dst src =>
    exact ((within_getRegister _).bind fun _ => (within_getRegister _).bind fun _ =>
      hone dst _ List.mem_cons_self) board
  | inl lo hi => exact within_modifyPair hset _ board
  | del lo hi => exact within_modifyPair hset _ board
  | hlt => exact hhalting rfl board

end Within

/-! ## What stays the same -/

variable [Device σ] {board : Board σ} {i : Instruction}

/-- a part that none of the changes touches is the same after the instruction -/
theorem execute_same {γ : Type} {part : Board σ → γ} (h : Allows (Board.Same part) board.machine.registers i) :
    part (last ((execute i).run board)) = part board := execute_within h

theorem profile_execute (i : Instruction) (board : Board σ) :
    (last ((execute i).run board)).machine.profile = board.machine.profile := by
  have hallows : Allows (Board.Same fun board : Board σ => board.machine.profile) board.machine.registers i :=
    { set := fun _ _ _ _ => rfl
      flags := fun _ _ _ _ => rfl
      jump := fun _ _ _ => rfl
      stack := fun _ _ => rfl
      memory := fun _ _ => rfl
      device := fun _ _ => rfl
      halting := fun _ _ => rfl }
  exact execute_same hallows

/-- so is a part of the registers -/
theorem execute_same_registers {γ : Type} {part : Registers → γ}
    (hset : ∀ dst ∈ i.destinations, ∀ (rs : Registers) value, part (rs.set dst value) = part rs)
    (hflags : i.setsFlags = true → ∀ (rs : Registers) zero carry, part { rs with zero, carry } = part rs)
    (hjump : i.transfers board.machine.registers = true → ∀ (rs : Registers) target, part (rs.jump target) = part rs)
    (hstack : ∀ (rs : Registers) sp, part { rs with sp } = part rs) :
    part (last ((execute i).run board)).machine.registers = part board.machine.registers := by
  have hallows : Allows (Board.Same fun board : Board σ => part board.machine.registers) board.machine.registers i :=
    { set := fun dst hdst board value => hset dst hdst board.machine.registers value
      flags := fun hsets board zero carry => hflags hsets board.machine.registers zero carry
      jump := fun htransfers board target => hjump htransfers board.machine.registers target
      stack := fun board sp => hstack board.machine.registers sp
      memory := fun _ _ => rfl
      device := fun _ _ => rfl
      halting := fun _ _ => rfl }
  exact execute_same hallows

end Exec

/-- the end of a cycle sets the marks of the machine, and no other part of the board -/
theorem Board.conclude_same {γ : Type} {part : Board σ → γ}
    (h : ∀ board halting stopped, part { board with machine := { board.machine with halting, stopped } } = part board)
    (start : Word) (ends : EStateM.Result Fault.Cause (Board σ) Unit) :
    part (conclude start ends).2 = part (Exec.last ends) := by
  cases ends with
  | error cause after => exact h after after.machine.halting true
  | ok value after =>
    by_cases hhalting : after.machine.halting = true
    · rw [conclude, if_pos hhalting]
      exact h after false true
    · rw [conclude, if_neg hhalting]
      rfl

theorem Board.registers_conclude (start : Word) (ends : EStateM.Result Fault.Cause (Board σ) Unit) :
    (conclude start ends).2.machine.registers = (Exec.last ends).machine.registers :=
  @conclude_same _ _ (·.machine.registers) (fun _ _ _ => rfl) start ends

end ByteMachine
