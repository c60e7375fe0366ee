/-
What a fault leaves behind. The machine is stopped. Nothing was written to the device, and memory and registers are as
they were, but for the instruction pointer and for two instructions that are left half done: a call whose second byte does
not fit on the stack, and a return that finds only one.

- `Machine.MovedOnly`: machines that differ in the instruction pointer, in being stopped and in what is counted.
- `Board.remains_of_fault`: every part of the board after a fault.
-/
import Mathlib.Tactic
import ByteMachine.Proofs.Execution.Faults

namespace ByteMachine

variable {σ : Type}

/-! ## Instructions that are left half done -/

namespace Instruction

/-- a call with room for one byte on the stack -/
def HalfPushes (i : Instruction) (sp : Word) : Prop := (i.opcode = .clc ∨ i.opcode = .clr) ∧ sp = 0xfffe

/-- a return with one byte below the stack pointer -/
def HalfPops (i : Instruction) (sp : Word) : Prop := i.opcode = .ret ∧ sp = 1

end Instruction

namespace Board

section CutShort

variable {board : Board σ} {i : Instruction}

theorem cutShort_of_halfPushes (h : i.HalfPushes board.machine.registers.sp) :
    board.cutShort i = board.raised (Word.low board.machine.registers.ip) := by
  obtain ⟨hop, hsp⟩ := h
  cases i with
  | clc lo hi => exact if_pos hsp
  | clr lo hi => exact if_pos hsp
  | _ => rcases hop with hop | hop <;> cases hop

theorem cutShort_of_halfPops (h : i.HalfPops board.machine.registers.sp) : board.cutShort i = board.lowered := by
  obtain ⟨hop, hsp⟩ := h
  cases i with
  | ret => exact if_pos hsp
  | _ => cases hop

/-- no other instruction is -/
theorem cutShort_of_neither (hpushes : ¬ i.HalfPushes board.machine.registers.sp)
    (hpops : ¬ i.HalfPops board.machine.registers.sp) : board.cutShort i = board := by
  cases i with
  | clc lo hi => exact if_neg fun hsp => hpushes ⟨.inl rfl, hsp⟩
  | clr lo hi => exact if_neg fun hsp => hpushes ⟨.inr rfl, hsp⟩
  | ret => exact if_neg fun hsp => hpops ⟨rfl, hsp⟩
  | _ => rfl

end CutShort

end Board

/-! ## Where only the instruction pointer moves -/

/-- the flags and the registers that programs compute with are the same -/
structure Registers.SameData (before after : Registers) : Prop where
  a : after.a = before.a
  b : after.b = before.b
  c : after.c = before.c
  d : after.d = before.d
  m : after.m = before.m
  zero : after.zero = before.zero
  carry : after.carry = before.carry

namespace Machine

/-- memory, flags and registers are the same, but for the instruction pointer -/
structure MovedOnly (before after : Machine) : Prop where
  memory : after.memory = before.memory
  data : before.registers.SameData after.registers
  sp : after.registers.sp = before.registers.sp

theorem MovedOnly.refl (machine : Machine) : machine.MovedOnly machine := ⟨rfl, ⟨rfl, rfl, rfl, rfl, rfl, rfl, rfl⟩, rfl⟩

theorem movedOnly_awake (machine : Machine) : machine.MovedOnly machine.awake := by
  rw [awake]
  split_ifs
  · exact ⟨rfl, ⟨rfl, rfl, rfl, rfl, rfl, rfl, rfl⟩, rfl⟩
  · exact .refl machine

end Machine

namespace Board

variable [Device σ] {board : Board σ} {i : Instruction}

/-- no fetch moves anything else, -/
theorem FetchEnds.movedOnly {cause : Fault.Cause} {after : Board σ} (h : board.awake.FetchEnds (.error cause after)) :
    board.machine.MovedOnly after.machine := by
  obtain ⟨hmemory, ⟨ha, hb, hc, hd, hm, hzero, hcarry⟩, hsp⟩ := board.machine.movedOnly_awake
  cases h with
  | unknown _ _ => exact ⟨hmemory, ⟨ha, hb, hc, hd, hm, hzero, hcarry⟩, hsp⟩
  | cut _ _ _ => exact ⟨hmemory, ⟨ha, hb, hc, hd, hm, hzero, hcarry⟩, hsp⟩
  | past _ _ => exact ⟨hmemory, ⟨ha, hb, hc, hd, hm, hzero, hcarry⟩, hsp⟩

theorem movedOnly_reached (board : Board σ) (i : Instruction) :
    board.machine.MovedOnly (board.awake.reached i).machine := by
  obtain ⟨hmemory, ⟨ha, hb, hc, hd, hm, hzero, hcarry⟩, hsp⟩ := board.machine.movedOnly_awake
  exact ⟨hmemory, ⟨ha, hb, hc, hd, hm, hzero, hcarry⟩, hsp⟩

/-! ## Accesses -/

omit [Device σ] in
theorem read_of_mem_windowReads {address : Word} {values : List Byte} {access : Access}
    (h : access ∈ windowReads address values) : ∃ offset value, access = .read offset value := by
  induction values generalizing address with
  | nil => cases h
  | cons value values ih =>
    rw [windowReads, List.mem_append] at h
    rcases h with hfirst | hrest
    · split_ifs at hfirst
      · exact ⟨_, _, List.mem_singleton.1 hfirst⟩
      · cases hfirst
    · exact ih hrest

/-- a step faults where there is no instruction or where that comes to an address outside, -/
theorem cases_of_fault {fault : Fault} (h : board.step.1 = .error fault) :
    board.awake.nextInstruction? = none ∨
      ∃ i address, board.awake.nextInstruction? = some i ∧ i.stray? board.machine.registers.sp.toNat = some address := by
  cases hnext : board.awake.nextInstruction? with
  | none => exact .inl rfl
  | some i =>
    cases hstray : i.stray? board.machine.registers.sp.toNat with
    | none =>
      obtain ⟨exit, hexit⟩ := exists_ok_step hnext hstray
      rw [hexit] at h
      cases h
    | some address => exact .inr ⟨i, address, rfl, hstray⟩

/-- and then the device saw no more than the fetch -/
theorem accesses_of_fault {fault : Fault} (h : board.step.1 = .error fault) :
    board.accesses = windowReads board.awake.machine.registers.ip board.awake.fetches.1 := by
  rw [accesses_eq]
  rcases cases_of_fault h with hnext | ⟨i, address, hnext, hstray⟩
  · rw [nextDataAccesses, hnext, List.append_nil]
  · rw [← sp_awake, ← sp_reached board.awake i] at hstray
    have hdata := dataAccesses_of_strays hstray
    rw [nextDataAccesses_of_some hnext, hdata, List.append_nil]

/-! ## The board after a fault -/

/-- what a fault in a step leaves -/
structure Remains (board : Board σ) : Prop where
  noWrite : ∀ access ∈ board.accesses, ∃ offset value, access = .read offset value
  data : board.machine.registers.SameData board.step.2.machine.registers
  stopped : board.step.2.machine.stopped = true
  /-- the low byte of the return address stays pushed -/
  halfPushed : ∀ i, board.awake.nextInstruction? = some i → i.HalfPushes board.machine.registers.sp →
    board.step.2.machine.memory =
        board.machine.memory.write 0xfffe (Word.low (board.machine.resumeAddress + 3)) ∧
      board.step.2.machine.registers.sp = 0xffff
  /-- the high byte of the return address stays popped -/
  halfPopped : ∀ i, board.awake.nextInstruction? = some i → i.HalfPops board.machine.registers.sp →
    board.step.2.machine.memory = board.machine.memory ∧ board.step.2.machine.registers.sp = 0
  /-- there is no third case -/
  otherwise : (∀ i, board.awake.nextInstruction? = some i →
      ¬ i.HalfPushes board.machine.registers.sp ∧ ¬ i.HalfPops board.machine.registers.sp) →
    board.step.2.machine.memory = board.machine.memory ∧
      board.step.2.machine.registers.sp = board.machine.registers.sp

/-- a fetch that fails leaves everything in place -/
theorem movedOnly_of_none (hnext : board.awake.nextInstruction? = none) :
    board.machine.MovedOnly board.step.2.machine ∧ board.step.2.machine.stopped = true := by
  obtain ⟨cause, after, hends, hstep⟩ := step_of_none hnext
  have hmoved := hends.movedOnly
  rw [hstep]
  exact ⟨⟨hmoved.memory, hmoved.data, hmoved.sp⟩, rfl⟩

omit [Device σ] in
theorem sameData_cutShort (board : Board σ) (i : Instruction) :
    board.machine.registers.SameData (board.cutShort i).machine.registers := by
  rcases board.cutShort_cases i with hcut | ⟨value, hcut⟩ | hcut
  all_goals
    rw [hcut]
    exact ⟨rfl, rfl, rfl, rfl, rfl, rfl, rfl⟩

theorem ip_reached_of_halfPushes (h : i.HalfPushes board.machine.registers.sp) :
    (board.awake.reached i).machine.registers.ip = board.machine.resumeAddress + 3 := by
  have hip : (board.awake.reached i).machine.registers.ip =
      board.awake.machine.registers.ip + UInt16.ofNat i.encode.length := rfl
  rw [hip, Instruction.length_encode_of_call h.1, resumeAddress_eq]
  rfl

section Strays

variable {address : Int} (hnext : board.awake.nextInstruction? = some i)
  (hstray : i.stray? board.machine.registers.sp.toNat = some address)

include hnext hstray

/-- what is left of the board on which an instruction came to an address outside -/
theorem machine_of_strays :
    board.step.2.machine = { ((board.awake.reached i).cutShort i).machine with stopped := true } := by
  rw [step_of_strays hnext hstray]
  rfl

theorem data_of_strays : board.machine.registers.SameData board.step.2.machine.registers := by
  have hreached := (board.movedOnly_reached i).data
  have hcut := (board.awake.reached i).sameData_cutShort i
  rw [machine_of_strays hnext hstray]
  exact ⟨hcut.a.trans hreached.a, hcut.b.trans hreached.b, hcut.c.trans hreached.c, hcut.d.trans hreached.d,
    hcut.m.trans hreached.m, hcut.zero.trans hreached.zero, hcut.carry.trans hreached.carry⟩

theorem remains_of_halfPushes (h : i.HalfPushes board.machine.registers.sp) :
    board.step.2.machine.memory =
        board.machine.memory.write 0xfffe (Word.low (board.machine.resumeAddress + 3)) ∧
      board.step.2.machine.registers.sp = 0xffff := by
  have hreached := board.movedOnly_reached i
  have hip := ip_reached_of_halfPushes h
  have hsp := hreached.sp.trans h.2
  have hcut : (board.awake.reached i).cutShort i = _ := cutShort_of_halfPushes ⟨h.1, hsp⟩
  rw [hip] at hcut
  rw [machine_of_strays hnext hstray, hcut, ← hreached.memory]
  exact ⟨congrArg (Memory.write _ · _) hsp, congrArg (· + 1) hsp⟩

theorem remains_of_halfPops (h : i.HalfPops board.machine.registers.sp) :
    board.step.2.machine.memory = board.machine.memory ∧ board.step.2.machine.registers.sp = 0 := by
  have hreached := board.movedOnly_reached i
  have hsp := hreached.sp.trans h.2
  have hcut : (board.awake.reached i).cutShort i = _ := cutShort_of_halfPops ⟨h.1, hsp⟩
  rw [machine_of_strays hnext hstray, hcut]
  exact ⟨hreached.memory, congrArg (· - 1) hsp⟩

theorem remains_of_neither (hpushes : ¬ i.HalfPushes board.machine.registers.sp)
    (hpops : ¬ i.HalfPops board.machine.registers.sp) :
    board.step.2.machine.memory = board.machine.memory ∧
      board.step.2.machine.registers.sp = board.machine.registers.sp := by
  have hreached := board.movedOnly_reached i
  rw [← hreached.sp] at hpushes hpops
  have hcut : (board.awake.reached i).cutShort i = _ := cutShort_of_neither hpushes hpops
  rw [machine_of_strays hnext hstray, hcut]
  exact ⟨hreached.memory, hreached.sp⟩

end Strays

/-- **A fault leaves everything in place, but for half of a call or of a return.** -/
theorem remains_of_fault (board : Board σ) (fault : Fault) (h : board.step.1 = .error fault) : board.Remains := by
  have hreads : ∀ access ∈ board.accesses, ∃ offset value, access = .read offset value := by
    rw [accesses_of_fault h]
    intro access
    exact read_of_mem_windowReads
  rcases cases_of_fault h with hnext | ⟨i, address, hnext, hstray⟩
  · obtain ⟨hmoved, hstopped⟩ := movedOnly_of_none hnext
    have hnone : ∀ i, board.awake.nextInstruction? ≠ some i := by simp [hnext]
    exact ⟨hreads, hmoved.data, hstopped, fun i hi => absurd hi (hnone i), fun i hi => absurd hi (hnone i),
      fun _ => ⟨hmoved.memory, hmoved.sp⟩⟩
  · have hsame : ∀ j, board.awake.nextInstruction? = some j → j = i := by
      intro j hj
      exact Option.some.inj (hj.symm.trans hnext)
    have hstopped := congrArg Machine.stopped (machine_of_strays hnext hstray)
    refine ⟨hreads, data_of_strays hnext hstray, hstopped, ?_, ?_, ?_⟩
    · intro j hj hpushes
      obtain rfl := hsame j hj
      exact remains_of_halfPushes hnext hstray hpushes
    · intro j hj hpops
      obtain rfl := hsame j hj
      exact remains_of_halfPops hnext hstray hpops
    · intro hneither
      obtain ⟨hpushes, hpops⟩ := hneither i hnext
      exact remains_of_neither hnext hstray hpushes hpops

/-- a machine with a call at address 0x1234 and room for one byte on the stack -/
def lastPush : Board NoDevice :=
  ⟨{ Machine.initial with
      memory := Memory.zero.writeAll 0x1234 [0x08, 0x00, 0x20]
      registers := { Registers.initial with ip := 0x1234, sp := 0xfffe }
      stopped := false }, ⟨⟩⟩

theorem lastPush_remains :
    lastPush.step.1 = .error ⟨0x1234, .outOfRange 0x10000⟩ ∧
      lastPush.step.2.machine.memory = lastPush.machine.memory.write 0xfffe 0x37 ∧
      lastPush.step.2.machine.registers.sp = 0xffff := by
  have hfault : lastPush.step.1 = .error ⟨0x1234, .outOfRange 0x10000⟩ := by decide +kernel
  have hnext : lastPush.awake.nextInstruction? = some (.clc 0x00 0x20) := by decide +kernel
  have hremains := remains_of_fault lastPush _ hfault
  exact ⟨hfault, hremains.halfPushed _ hnext ⟨.inl rfl, rfl⟩⟩

end Board

end ByteMachine
