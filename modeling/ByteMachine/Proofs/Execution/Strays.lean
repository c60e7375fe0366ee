/-
Instructions that come to an address outside the address space. Addresses are exact integers here: what an instruction
adds to the stack pointer or takes from it does not wrap.

- `Instruction.stray?`: the address outside that an instruction comes to, from the stack pointer alone.
- `Exec.run_call`, `Exec.run_ret`: both bytes of a return address are pushed and popped, or one is, or none.
- `Exec.execute_strays`, `Exec.execute_succeeds`: an instruction faults at that address, or not at all.
-/
import Mathlib.Tactic
import ByteMachine.Proofs.Execution.Effects

namespace ByteMachine

variable {σ : Type}

/-! ## Instructions -/

/-- the address outside the address space that an instruction comes to, with the stack pointer at `sp`; a call and a
return come to two addresses one after the other, and the first that is outside is at fault -/
def Instruction.stray? (sp : Int) : Instruction → Option Int
  | alc size => if 0xffff < sp + size.toNat then some (sp + size.toNat) else none
  | eat size => if sp - size.toNat < 0 then some (sp - size.toNat) else none
  | ofg _ offset | ofs _ offset => if sp - offset.toNat - 1 < 0 then some (sp - offset.toNat - 1) else none
  | psh _ => if 0xffff < sp + 1 then some 0x10000 else none
  | clc _ _ | clr _ _ => if 0xffff < sp + 2 then some 0x10000 else none
  | pop _ => if sp < 1 then some (-1) else none
  | ret => if sp < 2 then some (-1) else none
  | _ => none

/-- a call is three bytes long -/
theorem Instruction.length_encode_of_call {i : Instruction} (hop : i.opcode = .clc ∨ i.opcode = .clr) :
    i.encode.length = 3 := by
  rcases hop with hop | hop
  · rw [i.length_encode, hop]
    rfl
  · rw [i.length_encode, hop]
    rfl

namespace Board

/-- the board with the address of the next instruction pushed, low byte first, and the next instruction elsewhere -/
def called (board : Board σ) (target : Word) : Board σ :=
  let ip := board.machine.registers.ip
  let pushed := (board.raised (Word.low ip)).raised (Word.high ip)
  pushed.withRegisters (pushed.machine.registers.jump target)

/-- the board with an address popped, high byte first, and the next instruction there -/
def returned (board : Board σ) : Board σ :=
  let sp := board.machine.registers.sp
  let back := Word.ofBytes (board.machine.memory.read (sp - 1 - 1)) (board.machine.memory.read (sp - 1))
  board.lowered.lowered.withRegisters (board.lowered.lowered.machine.registers.jump back)

/-- the board that a fault in an instruction leaves: the first byte of two stays pushed or popped -/
def cutShort (board : Board σ) : Instruction → Board σ
  | .clc _ _ | .clr _ _ =>
    if board.machine.registers.sp = 0xfffe then board.raised (Word.low board.machine.registers.ip) else board
  | .ret => if board.machine.registers.sp = 1 then board.lowered else board
  | _ => board

theorem cutShort_cases (board : Board σ) (i : Instruction) :
    board.cutShort i = board ∨ (∃ value, board.cutShort i = board.raised value) ∨ board.cutShort i = board.lowered := by
  cases i with
  | clc lo hi =>
    by_cases hsp : board.machine.registers.sp = 0xfffe
    · exact .inr (.inl ⟨_, if_pos hsp⟩)
    · exact .inl (if_neg hsp)
  | clr lo hi =>
    by_cases hsp : board.machine.registers.sp = 0xfffe
    · exact .inr (.inl ⟨_, if_pos hsp⟩)
    · exact .inl (if_neg hsp)
  | ret =>
    by_cases hsp : board.machine.registers.sp = 1
    · exact .inr (.inr (if_pos hsp))
    · exact .inl (if_neg hsp)
  | _ => exact .inl rfl

end Board

namespace Exec

/-! ### The stack pointer -/

section Stack

variable {board : Board σ}

theorem sp_eq_last_iff :
    board.machine.registers.sp = 0xffff ↔ 0xffff < (board.machine.registers.sp.toNat : Int) + 1 := by
  have hsp := board.machine.registers.sp.toNat_lt
  rw [← UInt16.toNat_inj, show (0xffff : Word).toNat = 0xffff from rfl]
  omega

theorem sp_eq_zero_iff : board.machine.registers.sp = 0 ↔ (board.machine.registers.sp.toNat : Int) < 1 := by
  rw [← UInt16.toNat_inj, UInt16.toNat_zero]
  omega

theorem toNat_raised (h : board.machine.registers.sp ≠ 0xffff) (value : Byte) :
    (board.raised value).machine.registers.sp.toNat = board.machine.registers.sp.toNat + 1 := by
  have hsp := board.machine.registers.sp.toNat_lt
  have hraised : (board.raised value).machine.registers.sp = board.machine.registers.sp + 1 := rfl
  rw [Ne, sp_eq_last_iff] at h
  rw [hraised, UInt16.toNat_add, UInt16.toNat_one]
  omega

theorem toNat_lowered (h : board.machine.registers.sp ≠ 0) :
    board.lowered.machine.registers.sp.toNat = board.machine.registers.sp.toNat - 1 := by
  have hlowered : board.lowered.machine.registers.sp = board.machine.registers.sp - 1 := rfl
  rw [Ne, sp_eq_zero_iff] at h
  rw [hlowered, UInt16.toNat_sub_of_le, UInt16.toNat_one]
  rw [UInt16.le_iff_toNat_le, UInt16.toNat_one]
  omega

/-- what the last but one place of the stack is told by -/
theorem sp_eq_lastButOne_iff (h : board.machine.registers.sp ≠ 0xffff) (value : Byte) :
    (board.raised value).machine.registers.sp = 0xffff ↔ board.machine.registers.sp = 0xfffe := by
  have hnext := toNat_raised h value
  rw [← UInt16.toNat_inj, ← UInt16.toNat_inj (a := board.machine.registers.sp), hnext,
    show (0xffff : Word).toNat = 0xffff from rfl, show (0xfffe : Word).toNat = 0xfffe from rfl]
  omega

theorem sp_eq_one_iff (h : board.machine.registers.sp ≠ 0) :
    board.lowered.machine.registers.sp = 0 ↔ board.machine.registers.sp = 1 := by
  have hnext := toNat_lowered h
  rw [Ne, sp_eq_zero_iff] at h
  rw [← UInt16.toNat_inj, ← UInt16.toNat_inj (a := board.machine.registers.sp), hnext, UInt16.toNat_zero,
    UInt16.toNat_one]
  omega

theorem run_moveStack_of_inside {distance : Int} (hlow : 0 ≤ (board.machine.registers.sp.toNat : Int) + distance)
    (hhigh : (board.machine.registers.sp.toNat : Int) + distance ≤ 0xffff) :
    ∃ after, (moveStack distance).run board = .ok () after := by
  have hinside : 0 ≤ (board.machine.registers.sp.toNat : Int) + distance ∧
      (board.machine.registers.sp.toNat : Int) + distance < Memory.size :=
    ⟨hlow, by rw [Memory.size]; omega⟩
  rw [moveStack, run_bind_of_ok (run_registers board), checkAddress, if_pos hinside]
  exact ⟨_, rfl⟩

theorem run_moveStack_of_outside {distance : Int}
    (h : (board.machine.registers.sp.toNat : Int) + distance < 0 ∨
      0xffff < (board.machine.registers.sp.toNat : Int) + distance) :
    (moveStack distance).run board =
      .error (.outOfRange (board.machine.registers.sp.toNat + distance)) board := by
  rw [moveStack, run_bind_of_ok (run_registers board)]
  refine run_bind_of_error (run_checkAddress_of_outside ?_ board) _
  rw [Memory.size]
  omega

/-- a call pushes both bytes of the return address, or the second byte does not fit, or already the first -/
theorem run_call (target : Word) (board : Board σ) :
    (call target).run board =
      if 0xffff < (board.machine.registers.sp.toNat : Int) + 2 then
        .error (.outOfRange 0x10000)
          (if board.machine.registers.sp = 0xfffe then board.raised (Word.low board.machine.registers.ip) else board)
      else .ok () (board.called target) := by
  rw [call, run_bind_of_ok (run_registers board)]
  by_cases hlast : board.machine.registers.sp = 0xffff
  · have hno : ¬ board.machine.registers.sp = 0xfffe := by
      rw [hlast]
      decide
    have houtside := sp_eq_last_iff.1 hlast
    rw [run_bind_of_error (run_push_of_last hlast _), if_pos (by omega), if_neg hno]
  · have hnext := toNat_raised hlast (Word.low board.machine.registers.ip)
    have hsecond := sp_eq_lastButOne_iff hlast (Word.low board.machine.registers.ip)
    rw [run_bind_of_ok (run_push_of_ne hlast _)]
    by_cases hfull : board.machine.registers.sp = 0xfffe
    · have houtside := sp_eq_last_iff.1 (hsecond.2 hfull)
      rw [run_bind_of_error (run_push_of_last (hsecond.2 hfull) _), if_pos (by omega), if_pos hfull]
    · rw [← hsecond] at hfull
      have hinside := hfull
      rw [sp_eq_last_iff] at hinside
      rw [run_bind_of_ok (run_push_of_ne hfull _), if_neg (by omega)]
      rfl

variable [Device σ]

/-- a return pops both bytes of the return address, or there is no second byte, or no first -/
theorem run_ret (board : Board σ) :
    (execute .ret).run board =
      if (board.machine.registers.sp.toNat : Int) < 2 then
        .error (.outOfRange (-1)) (if board.machine.registers.sp = 1 then board.lowered else board)
      else .ok () board.returned := by
  rw [execute]
  by_cases hzero : board.machine.registers.sp = 0
  · have hno : ¬ board.machine.registers.sp = 1 := by
      rw [hzero]
      decide
    have houtside := sp_eq_zero_iff.1 hzero
    rw [run_bind_of_error (run_pop_of_zero hzero), if_pos (by omega), if_neg hno]
  · have hnext := toNat_lowered hzero
    have hsecond := sp_eq_one_iff hzero
    rw [run_bind_of_ok (run_pop_of_ne hzero)]
    by_cases hempty : board.machine.registers.sp = 1
    · have houtside := sp_eq_zero_iff.1 (hsecond.2 hempty)
      rw [run_bind_of_error (run_pop_of_zero (hsecond.2 hempty)), if_pos (by omega), if_pos hempty]
    · rw [← hsecond] at hempty
      have hinside := hempty
      rw [sp_eq_zero_iff] at hinside
      rw [run_bind_of_ok (run_pop_of_ne hempty), if_neg (by omega)]
      rfl

end Stack

/-! ### Computations without a fault -/

/-- a computation that never ends in a fault -/
def Total {α : Type} (x : Exec σ α) : Prop := ∀ board, ∃ value after, x.run board = .ok value after

section Total

variable {α β : Type}

theorem total_pure (value : α) : Total (pure value : Exec σ α) := fun board => ⟨value, board, rfl⟩

theorem Total.bind {x : Exec σ α} {f : α → Exec σ β} (hx : Total x) (hf : ∀ value, Total (f value)) :
    Total (x >>= f) := by
  intro board
  obtain ⟨value, after, hrun⟩ := hx board
  rw [run_bind_of_ok hrun]
  exact hf value after

/-- what comes after a computation that ended without a fault -/
theorem Total.after {x : Exec σ α} {f : α → Exec σ Unit} {value : α} {board after : Board σ}
    (h : x.run board = .ok value after) (hf : Total (f value)) : ∃ last, (x >>= f).run board = .ok () last := by
  obtain ⟨⟨⟩, last, hrun⟩ := hf after
  exact ⟨last, by rw [run_bind_of_ok h, hrun]⟩

theorem Total.run {x : Exec σ Unit} (h : Total x) (board : Board σ) : ∃ after, x.run board = .ok () after := by
  obtain ⟨⟨⟩, after, hrun⟩ := h board
  exact ⟨after, hrun⟩

theorem total_registers : Total (registers : Exec σ Registers) := fun board => ⟨_, board, rfl⟩

theorem total_getRegister (i : Byte) : Total (getRegister i : Exec σ Byte) :=
  total_registers.bind fun _ => total_pure _

theorem total_getPair (low high : Byte) : Total (getPair low high : Exec σ Word) :=
  total_registers.bind fun _ => total_pure _

theorem total_modifyRegisters (f : Registers → Registers) : Total (modifyRegisters f : Exec σ Unit) :=
  fun _ => ⟨(), _, rfl⟩

theorem total_setRegister (i value : Byte) : Total (setRegister i value : Exec σ Unit) := total_modifyRegisters _

theorem total_jump (target : Word) : Total (jump target : Exec σ Unit) := total_modifyRegisters _

theorem total_jumpIf (condition : Bool) (low high : Byte) : Total (jumpIf condition low high : Exec σ Unit) := by
  cases condition with
  | true => exact total_jump _
  | false => exact total_pure _

theorem total_combine (op : Byte → Byte → Byte × Bool) (dst y : Byte) : Total (combine op dst y : Exec σ Unit) :=
  (total_getRegister dst).bind fun _ => (total_modifyRegisters _).bind fun _ => total_setRegister _ _

theorem total_modifyPair (low high : Byte) (f : Word → Word) : Total (modifyPair low high f : Exec σ Unit) :=
  (total_getPair low high).bind fun _ => total_modifyRegisters _

variable [Device σ]

theorem total_load (address : Word) : Total (load address : Exec σ Byte) :=
  fun board => ⟨_, _, run_load address board⟩

theorem total_store (address : Word) (value : Byte) : Total (store address value : Exec σ Unit) :=
  fun _ => ⟨(), _, rfl⟩

end Total

/-! ### Instructions -/

section Instructions

variable [Device σ] {board : Board σ} {i : Instruction} {address : Int}

theorem frameSlot?_eq_none_iff {rs : Registers} {offset : Byte} :
    rs.frameSlot? offset = none ↔ (rs.sp.toNat : Int) - offset.toNat - 1 < 0 := by
  rw [Registers.frameSlot?, ite_eq_right_iff]
  constructor
  · intro h
    by_contra hinside
    cases h (by omega)
  · intro h hinside
    omega

theorem exists_frameSlot {rs : Registers} {offset : Byte} (h : ¬ (rs.sp.toNat : Int) - offset.toNat - 1 < 0) :
    ∃ slot, rs.frameSlot? offset = some slot := by
  rw [← frameSlot?_eq_none_iff] at h
  exact Option.ne_none_iff_exists'.1 h

/-- **An instruction that comes to an address outside faults there,** -/
theorem execute_strays (h : i.stray? board.machine.registers.sp.toNat = some address) :
    (execute i).run board = .error (.outOfRange address) (board.cutShort i) := by
  cases i with
  | alc size =>
    obtain ⟨houtside, ⟨⟩⟩ := Option.ite_none_right_eq_some.1 h
    exact run_moveStack_of_outside (.inr houtside)
  | eat size =>
    obtain ⟨houtside, ⟨⟩⟩ := Option.ite_none_right_eq_some.1 h
    exact run_moveStack_of_outside (.inl houtside)
  | ofg reg offset =>
    obtain ⟨houtside, ⟨⟩⟩ := Option.ite_none_right_eq_some.1 h
    have hslot := run_frameSlot_of_none (frameSlot?_eq_none_iff.2 houtside)
    exact run_bind_of_error hslot _
  | ofs reg offset =>
    obtain ⟨houtside, ⟨⟩⟩ := Option.ite_none_right_eq_some.1 h
    have hslot := run_frameSlot_of_none (frameSlot?_eq_none_iff.2 houtside)
    exact run_bind_of_error hslot _
  | psh reg =>
    obtain ⟨houtside, ⟨⟩⟩ := Option.ite_none_right_eq_some.1 h
    rw [execute, run_bind_of_ok (run_getRegister reg board)]
    exact run_push_of_last (sp_eq_last_iff.2 houtside) _
  | clc lo hi =>
    obtain ⟨houtside, ⟨⟩⟩ := Option.ite_none_right_eq_some.1 h
    rw [execute, run_call, if_pos houtside]
    rfl
  | clr lo hi =>
    obtain ⟨houtside, ⟨⟩⟩ := Option.ite_none_right_eq_some.1 h
    rw [execute, run_bind_of_ok (run_getPair lo hi board), run_call, if_pos houtside]
    rfl
  | pop reg =>
    obtain ⟨houtside, ⟨⟩⟩ := Option.ite_none_right_eq_some.1 h
    exact run_bind_of_error (run_pop_of_zero (sp_eq_zero_iff.2 houtside)) _
  | ret =>
    obtain ⟨houtside, ⟨⟩⟩ := Option.ite_none_right_eq_some.1 h
    rw [run_ret, if_pos houtside]
    rfl
  | _ => cases h

theorem not_of_ite_eq_none {condition : Prop} [Decidable condition] {outside : Int}
    (h : (if condition then some outside else none) = none) : ¬ condition := by
  simpa using h

/-- **and one that does not never faults.** -/
theorem execute_succeeds (h : i.stray? board.machine.registers.sp.toNat = none) :
    ∃ after, (execute i).run board = .ok () after := by
  cases i with
  | alc size =>
    have hinside : ¬ 0xffff < (board.machine.registers.sp.toNat : Int) + size.toNat := not_of_ite_eq_none h
    exact run_moveStack_of_inside (by omega) (by omega)
  | eat size =>
    have hinside : ¬ (board.machine.registers.sp.toNat : Int) - size.toNat < 0 := not_of_ite_eq_none h
    have hsp := board.machine.registers.sp.toNat_lt
    exact run_moveStack_of_inside (by omega) (by omega)
  | ofg reg offset =>
    have hinside : ¬ (board.machine.registers.sp.toNat : Int) - offset.toNat - 1 < 0 := not_of_ite_eq_none h
    obtain ⟨slot, hslot⟩ := exists_frameSlot hinside
    exact Total.after (run_frameSlot_of_some hslot) ((total_load _).bind fun _ => total_setRegister _ _)
  | ofs reg offset =>
    have hinside : ¬ (board.machine.registers.sp.toNat : Int) - offset.toNat - 1 < 0 := not_of_ite_eq_none h
    obtain ⟨slot, hslot⟩ := exists_frameSlot hinside
    exact Total.after (run_frameSlot_of_some hslot) ((total_getRegister _).bind fun _ => total_store _ _)
  | psh reg =>
    have hinside : board.machine.registers.sp ≠ 0xffff := by
      rw [Ne, sp_eq_last_iff]
      exact not_of_ite_eq_none h
    rw [execute, run_bind_of_ok (run_getRegister reg board)]
    exact ⟨_, run_push_of_ne hinside _⟩
  | clc lo hi =>
    have hinside : ¬ 0xffff < (board.machine.registers.sp.toNat : Int) + 2 := not_of_ite_eq_none h
    rw [execute, run_call, if_neg hinside]
    exact ⟨_, rfl⟩
  | clr lo hi =>
    have hinside : ¬ 0xffff < (board.machine.registers.sp.toNat : Int) + 2 := not_of_ite_eq_none h
    rw [execute, run_bind_of_ok (run_getPair lo hi board), run_call, if_neg hinside]
    exact ⟨_, rfl⟩
  | pop reg =>
    have hinside : board.machine.registers.sp ≠ 0 := by
      rw [Ne, sp_eq_zero_iff]
      exact not_of_ite_eq_none h
    exact Total.after (run_pop_of_ne hinside) (total_setRegister _ _)
  | ret =>
    have hinside : ¬ (board.machine.registers.sp.toNat : Int) < 2 := not_of_ite_eq_none h
    rw [run_ret, if_neg hinside]
    exact ⟨_, rfl⟩
  | num reg value => exact (total_setRegister _ _).run board
  | mov dst src => exact ((total_getRegister _).bind fun _ => total_setRegister _ _).run board
  | jmp lo hi => exact (total_jump _).run board
  | jin lo hi => exact ((total_getPair _ _).bind fun _ => total_jump _).run board
  | jiz lo hi => exact (total_registers.bind fun _ => total_jumpIf _ _ _).run board
  | jnz lo hi => exact (total_registers.bind fun _ => total_jumpIf _ _ _).run board
  | jic lo hi => exact (total_registers.bind fun _ => total_jumpIf _ _ _).run board
  | jnc lo hi => exact (total_registers.bind fun _ => total_jumpIf _ _ _).run board
  | gec lo hi => exact ((total_load _).bind fun _ => total_setRegister _ _).run board
  | sec lo hi => exact ((total_getRegister _).bind fun _ => total_store _ _).run board
  | ger lo hi =>
    exact ((total_getPair _ _).bind fun _ => (total_load _).bind fun _ => total_setRegister _ _).run board
  | ser lo hi =>
    exact ((total_getPair _ _).bind fun _ => (total_getRegister _).bind fun _ => total_store _ _).run board
  | inc reg => exact (total_combine addBytes reg 1).run board
  | dec reg => exact (total_combine subBytes reg 1).run board
  | add dst src => exact ((total_getRegister _).bind fun _ => total_combine _ _ _).run board
  | sub dst src => exact ((total_getRegister _).bind fun _ => total_combine _ _ _).run board
  | mul dst src => exact ((total_getRegister _).bind fun _ => total_combine _ _ _).run board
  | shl dst src =>
    exact ((total_getRegister _).bind fun _ => (total_getRegister _).bind fun _ => total_setRegister _ _).run board
  | shr dst src =>
    exact ((total_getRegister _).bind fun _ => (total_getRegister _).bind fun _ => total_setRegister _ _).run board
  | inl lo hi => exact (total_modifyPair _ _ _).run board
  | del lo hi => exact (total_modifyPair _ _ _).run board
  | hlt => exact ⟨_, rfl⟩

end Instructions

end Exec

end ByteMachine
