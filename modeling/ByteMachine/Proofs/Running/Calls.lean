/-
Calls and returns. A call pushes the address after its last byte, and the return that finds the stack as the call left it
goes on there: as if the call had been passed over, if there is such an address. A call that ends with the byte at the
last address pushes address 0, and the return goes on at address 0, where passing the call over would come to a fault.

- `Machine.LeadsTo`: what a program does in between, with any devices.
- `Board.ret_resumes`: the board after the return.
-/
import Mathlib.Tactic
import ByteMachine.Proofs.Execution.Faults

namespace ByteMachine

/-- one machine comes of another by steps that pause, with any devices -/
inductive Machine.LeadsTo (first : Machine) : Machine → Prop
  | refl : first.LeadsTo first
  | step {σ : Type} [Device σ] {board next : Board σ} :
      first.LeadsTo board.machine → board.step = (.ok .paused, next) → first.LeadsTo next.machine

variable {σ τ : Type} [Device σ] [Device τ]

namespace Board

/-! ## Machines that go on -/

structure Running (machine : Machine) : Prop where
  going : machine.stopped = false
  notHalting : machine.halting = false

theorem running_of_step {board next : Board σ} (h : board.step = (.ok .paused, next)) : Running next.machine := by
  have hgoing := going_of_step h
  rw [step_eq, conclude_eq_paused_iff] at h
  exact ⟨hgoing, h.2⟩

theorem Running.of_leadsTo {first last : Machine} (h : first.LeadsTo last) (hfirst : Running first) : Running last := by
  cases h with
  | refl => exact hfirst
  | step _ hstep => exact running_of_step hstep

/-! ## The call -/

section Call

variable {board called : Board σ} {i : Instruction} (hop : i.opcode = .clc ∨ i.opcode = .clr)

include hop

theorem execute_of_call (board : Board σ) : ∃ target, (execute i).run board = (Exec.call target).run board := by
  cases i with
  | clc lo hi => exact ⟨_, rfl⟩
  | clr lo hi =>
    refine ⟨board.machine.registers.pair lo hi, ?_⟩
    rw [execute, Exec.run_bind_of_ok (Exec.run_getPair lo hi board)]
  | _ => rcases hop with hop | hop <;> cases hop

/-- a call that does not fault has room for two bytes on the stack and pushes them -/
theorem step_of_call (hnext : board.awake.nextInstruction? = some i) (hcall : board.step = (.ok .paused, called)) :
    board.machine.registers.sp.toNat + 2 ≤ 0xffff ∧ ∃ target, called = (board.awake.reached i).called target := by
  obtain ⟨target, htarget⟩ := execute_of_call hop (board.awake.reached i)
  rw [step_eq_of_some hnext, conclude_eq_paused_iff, htarget, Exec.run_call, sp_reached, sp_awake] at hcall
  by_cases hfull : 0xffff < (board.machine.registers.sp.toNat : Int) + 2
  · rw [if_pos hfull] at hcall
    exact absurd hcall.1 nofun
  · rw [if_neg hfull] at hcall
    obtain ⟨⟨⟩, -⟩ := hcall
    exact ⟨by omega, target, rfl⟩

end Call

/-! ## The return -/

section Return

variable {board : Board σ}

/-- a return with two bytes on the stack pops them -/
theorem step_of_ret (hrunning : Running board.machine) (hnext : board.nextInstruction? = some .ret)
    (hsp : 2 ≤ board.machine.registers.sp.toNat) : board.step = (.ok .paused, (board.reached .ret).returned) := by
  have hawake := awake_of_going hrunning.going
  rw [← hawake] at hnext
  rw [step_eq_of_some hnext, conclude_eq_paused_iff, hawake, Exec.run_ret, sp_reached, if_neg (by omega)]
  exact ⟨rfl, hrunning.notHalting⟩

omit [Device σ] in
theorem toNat_ip_past (board : Board σ) (count : Nat) :
    (board.past count).machine.registers.ip.toNat = (board.machine.registers.ip.toNat + count) % Memory.size := by
  rw [ip_past]
  exact UInt16.toNat_ofNat

omit [Device σ] in
/-- a byte after others is fetched after them, or after the last address -/
theorem place_past {count : Nat} (h : board.machine.registers.ip.toNat + count ≤ Memory.size) :
    (board.past count).place = board.machine.registers.ip.toNat + count := by
  rcases Nat.lt_or_eq_of_le h with hlt | hlast
  · rw [place, pastEnd_past hlt, ip_past]
    exact Nat.mod_eq_of_lt hlt
  · rw [place, pastEnd_past_eq_true_iff.2 hlast, if_pos rfl, hlast]

theorem place_reached {i : Instruction} (hnext : board.nextInstruction? = some i) :
    board.machine.registers.ip.toNat + i.encode.length ≤ Memory.size ∧
      (board.reached i).place = board.machine.registers.ip.toNat + i.encode.length := by
  have hlength := board.length_fetches
  have hplace := board.place_add_room
  have hpositive : 0 < i.encode.length := Nat.zero_lt_succ _
  rw [fetches_of_some hnext] at hlength
  obtain ⟨hpast, -⟩ := within_of_lt_room (show 0 < board.room by omega)
  rw [place, hpast, if_neg (by simp)] at hplace
  have hfits : board.machine.registers.ip.toNat + i.encode.length ≤ Memory.size := by omega
  exact ⟨hfits, place_past hfits⟩

omit [Device σ] in
/-- what a return finds where a call left it -/
theorem registers_returned (board : Board σ) {s back : Word} (hsp : board.machine.registers.sp = s + 1 + 1)
    (hlow : board.machine.memory.read s = Word.low back) (hhigh : board.machine.memory.read (s + 1) = Word.high back) :
    board.returned.machine.registers = { board.machine.registers with ip := back, pastEnd := false, sp := s } := by
  have hfirst : board.machine.registers.sp - 1 = s + 1 := by rw [hsp, UInt16.add_sub_cancel]
  have hsecond : board.machine.registers.sp - 1 - 1 = s := by rw [hfirst, UInt16.add_sub_cancel]
  have hback : Word.ofBytes (board.machine.memory.read (board.machine.registers.sp - 1 - 1))
      (board.machine.memory.read (board.machine.registers.sp - 1)) = back := by
    rw [hsecond, hfirst, hlow, hhigh, Word.ofBytes_low_high]
  have hregisters : board.returned.machine.registers =
      { board.machine.registers with
        ip := Word.ofBytes (board.machine.memory.read (board.machine.registers.sp - 1 - 1))
          (board.machine.memory.read (board.machine.registers.sp - 1))
        pastEnd := false
        sp := board.machine.registers.sp - 1 - 1 } := rfl
  rw [hregisters, hback, hsecond]

omit [Device σ] in
/-- what a call leaves for a return -/
theorem read_called (board : Board σ) (target : Word) :
    (board.called target).machine.memory.read board.machine.registers.sp = Word.low board.machine.registers.ip ∧
      (board.called target).machine.memory.read (board.machine.registers.sp + 1) =
        Word.high board.machine.registers.ip := by
  have hmemory : (board.called target).machine.memory =
      (board.machine.memory.write board.machine.registers.sp (Word.low board.machine.registers.ip)).write
        (board.machine.registers.sp + 1) (Word.high board.machine.registers.ip) := rfl
  have hne : board.machine.registers.sp ≠ board.machine.registers.sp + 1 := by
    rw [Ne, UInt16.left_eq_add]
    decide
  rw [hmemory, Memory.read_write, Memory.read_write, if_neg hne, if_pos rfl, Memory.read_write, if_pos rfl]
  exact ⟨rfl, rfl⟩

end Return

/-! ## Both -/

/-- the board with the next instruction where it is on another board -/
def goingOnAt (board : Board τ) (rs : Registers) : Board τ :=
  board.withRegisters { board.machine.registers with ip := rs.ip, pastEnd := rs.pastEnd }

/-- a board `arrived` with a return next that answers the call which is next on a board, where `passed` is the board with
the instruction pointer past the call -/
structure Resumes (board passed : Board σ) (arrived : Board τ) : Prop where
  /-- the return does not fault -/
  paused : arrived.step.1 = .ok .paused
  /-- the stack pointer is back where it was before the call -/
  sp : arrived.step.2.machine.registers.sp = board.machine.registers.sp
  /-- the call takes three bytes, the last of which may be that at the last address -/
  room : board.machine.resumeAddress.toNat + 3 ≤ Memory.size
  placePassed : passed.place = board.machine.resumeAddress.toNat + 3
  /-- the next byte is fetched after those of the call, if there is an address for it, -/
  place : board.machine.resumeAddress.toNat + 3 < Memory.size →
    arrived.step.2.place = board.machine.resumeAddress.toNat + 3
  /-- and the program goes on as if the call had been passed over, exactly then -/
  asPassed : arrived.step.2.goingOnAt passed.machine.registers = arrived.step.2 ↔
    board.machine.resumeAddress.toNat + 3 < Memory.size
  /-- otherwise it goes on at address 0, where passing the call over would come to a fault -/
  atEnd : board.machine.resumeAddress.toNat + 3 = Memory.size →
    arrived.step.2.place = 0 ∧
      (arrived.step.2.goingOnAt passed.machine.registers).step.1 = .error ⟨0, .outOfRange 0x10000⟩

omit [Device τ] in
theorem goingOnAt_eq_iff {board : Board τ} {rs : Registers} :
    board.goingOnAt rs = board ↔
      rs.ip = board.machine.registers.ip ∧ rs.pastEnd = board.machine.registers.pastEnd := by
  constructor
  · intro h
    exact ⟨congrArg (·.machine.registers.ip) h, congrArg (·.machine.registers.pastEnd) h⟩
  · rintro ⟨hip, hpast⟩
    rw [goingOnAt, hip, hpast]
    rfl

/-- after the last address a step comes to a fault -/
theorem step_goingOnAt {board : Board τ} {rs : Registers} (hgoing : board.machine.stopped = false)
    (hpast : rs.pastEnd = true) : (board.goingOnAt rs).step.1 = .error ⟨rs.ip, .outOfRange 0x10000⟩ := by
  have hsame : (board.goingOnAt rs).machine.stopped = false := hgoing
  refine ((board.goingOnAt rs).step_eq_outOfRange_iff _ _).2 ⟨?_, .inl ⟨?_, rfl⟩⟩
  · rw [resumeAddress_eq, awake_of_going hsame]
    rfl
  · rw [awake_of_going hsame]
    refine ⟨0, one_le_needed _, ?_⟩
    rw [place]
    exact if_pos hpast

section Answer

variable {board called : Board σ} {arrived : Board τ} {i : Instruction}
  (hnext : board.awake.nextInstruction? = some i) (hop : i.opcode = .clc ∨ i.opcode = .clr)
  (hcall : board.step = (.ok .paused, called)) (hleads : called.machine.LeadsTo arrived.machine)
  (hret : arrived.nextInstruction? = some .ret) (hsp : arrived.machine.registers.sp = called.machine.registers.sp)
  (hintact : ∀ address, address = board.machine.registers.sp ∨ address = board.machine.registers.sp + 1 →
    arrived.machine.memory.read address = called.machine.memory.read address)

include hnext hop hcall hleads hret hsp hintact

/-- the return pops the address that the call pushed -/
theorem step_of_answer :
    ∃ next, arrived.step = (.ok .paused, next) ∧
      next.machine.registers.ip = (board.awake.reached i).machine.registers.ip ∧
      next.machine.registers.pastEnd = false ∧ next.machine.registers.sp = board.machine.registers.sp := by
  have hrunning := (running_of_step hcall).of_leadsTo hleads
  obtain ⟨hroom, target, rfl⟩ := step_of_call hop hnext hcall
  have hreached : (board.awake.reached i).machine.registers.sp = board.machine.registers.sp := sp_awake board
  obtain ⟨hlow, hhigh⟩ := (board.awake.reached i).read_called target
  rw [hreached] at hlow hhigh
  have hraised : arrived.machine.registers.sp = board.machine.registers.sp + 1 + 1 := by
    rw [hsp, ← hreached]
    rfl
  have htwo : 2 ≤ arrived.machine.registers.sp.toNat := by
    rw [hraised, UInt16.toNat_add, UInt16.toNat_add, UInt16.toNat_one]
    omega
  have hregisters := (arrived.reached .ret).registers_returned hraised ((hintact _ (.inl rfl)).trans hlow)
    ((hintact _ (.inr rfl)).trans hhigh)
  refine ⟨_, step_of_ret hrunning hret htwo, ?_⟩
  rw [hregisters]
  exact ⟨rfl, rfl, rfl⟩

end Answer

/-- **A return that finds the stack as a call left it goes on after the call,** if that does not end at the last
address. -/
theorem ret_resumes (board called : Board σ) (arrived : Board τ) (i : Instruction)
    (hnext : board.awake.nextInstruction? = some i) (hop : i.opcode = .clc ∨ i.opcode = .clr)
    (hcall : board.step = (.ok .paused, called)) (hleads : called.machine.LeadsTo arrived.machine)
    (hret : arrived.nextInstruction? = some .ret)
    (hsp : arrived.machine.registers.sp = called.machine.registers.sp)
    (hintact : ∀ address, address = board.machine.registers.sp ∨ address = board.machine.registers.sp + 1 →
      arrived.machine.memory.read address = called.machine.memory.read address) :
    Resumes board (board.awake.reached i) arrived := by
  obtain ⟨next, hstep, hip, hpast, hsp'⟩ := step_of_answer hnext hop hcall hleads hret hsp hintact
  obtain ⟨hroom, hplace⟩ := place_reached hnext
  have hback : (board.awake.reached i).machine.registers.ip.toNat =
      (board.machine.resumeAddress.toNat + 3) % Memory.size := by
    rw [resumeAddress_eq, ← Instruction.length_encode_of_call hop]
    exact toNat_ip_past _ _
  have hpassed : (board.awake.reached i).machine.registers.pastEnd = true ↔
      board.machine.resumeAddress.toNat + 3 = Memory.size := by
    rw [resumeAddress_eq, ← Instruction.length_encode_of_call hop]
    exact pastEnd_past_eq_true_iff
  rw [Instruction.length_encode_of_call hop, ← resumeAddress_eq] at hroom hplace
  have hfound : next.place = (board.machine.resumeAddress.toNat + 3) % Memory.size := by
    rw [place, hpast, if_neg Bool.false_ne_true, hip, hback]
  refine ⟨by rw [hstep], by rw [hstep, hsp'], hroom, hplace, ?_, ?_, ?_⟩
  · intro hlt
    rw [hstep, hfound, Nat.mod_eq_of_lt hlt]
  · rw [hstep, goingOnAt_eq_iff, hip, hpast, Nat.lt_iff_le_and_ne, Ne, ← hpassed]
    simp [hroom]
  · intro hlast
    rw [hstep, hfound, hlast, Nat.mod_self]
    have hzero : (board.awake.reached i).machine.registers.ip = 0 := by
      rw [← UInt16.toNat_inj, hback, hlast, Nat.mod_self, UInt16.toNat_zero]
    have hfault := step_goingOnAt (going_of_step hstep) (hpassed.2 hlast)
    rw [hzero] at hfault
    exact ⟨rfl, hfault⟩

/-- a machine with a call of 0x2000 at an address, where a subroutine lies -/
def calling (start : Word) (callee : List Byte) : Board NoDevice :=
  ⟨{ Machine.initial with
      memory := (Memory.zero.writeAll start [0x08, 0x00, 0x20]).writeAll 0x2000 callee
      registers := { Registers.initial with a := 7, ip := start }
      stopped := false }, ⟨⟩⟩

/-- push a register, count it up, pop another register, and return -/
def pushAndPop : List Byte := [0x10, 0x00, 0x15, 0x00, 0x0f, 0x01, 0x0a]

theorem calling_resumes :
    (calling 0x1000 pushAndPop).awake.nextInstruction? = some (.clc 0x00 0x20) ∧
      ∃ called arrived : Board NoDevice, (calling 0x1000 pushAndPop).step = (.ok .paused, called) ∧
        called.machine.LeadsTo arrived.machine ∧ arrived.machine.registers.a = 8 ∧ arrived.machine.registers.b = 7 ∧
        arrived.nextInstruction? = some .ret ∧
        Resumes (calling 0x1000 pushAndPop) ((calling 0x1000 pushAndPop).awake.reached (.clc 0x00 0x20)) arrived := by
  have hnext : (calling 0x1000 pushAndPop).awake.nextInstruction? = some (.clc 0x00 0x20) := by decide +kernel
  have hcall : (calling 0x1000 pushAndPop).step.1 = .ok .paused := by decide +kernel
  have hpush : (calling 0x1000 pushAndPop).step.2.step.1 = .ok .paused := by decide +kernel
  have hcount : (calling 0x1000 pushAndPop).step.2.step.2.step.1 = .ok .paused := by decide +kernel
  have hpop : (calling 0x1000 pushAndPop).step.2.step.2.step.2.step.1 = .ok .paused := by decide +kernel
  have hleads : (calling 0x1000 pushAndPop).step.2.machine.LeadsTo
      (calling 0x1000 pushAndPop).step.2.step.2.step.2.step.2.machine :=
    .step (.step (.step .refl (Prod.ext hpush rfl)) (Prod.ext hcount rfl)) (Prod.ext hpop rfl)
  have hret : (calling 0x1000 pushAndPop).step.2.step.2.step.2.step.2.nextInstruction? = some .ret := by decide +kernel
  refine ⟨hnext, _, _, Prod.ext hcall rfl, hleads, by decide +kernel, by decide +kernel, hret, ?_⟩
  refine ret_resumes _ _ _ _ hnext (.inl rfl) (Prod.ext hcall rfl) hleads hret (by decide +kernel) ?_
  rintro _ (rfl | rfl) <;> decide +kernel

/-- after a call that ends at the last address the return goes on at address 0, and the next step does not come to the
address after the last one -/
theorem calling_last_wraps :
    (calling 0xfffd [0x0a]).awake.nextInstruction? = some (.clc 0x00 0x20) ∧
      (calling 0xfffd [0x0a]).step.1 = .ok .paused ∧
      (calling 0xfffd [0x0a]).step.2.nextInstruction? = some .ret ∧
        (calling 0xfffd [0x0a]).step.2.step.1 = .ok .paused ∧
        (calling 0xfffd [0x0a]).step.2.step.2.machine.registers.sp = (calling 0xfffd [0x0a]).machine.registers.sp ∧
          (calling 0xfffd [0x0a]).step.2.step.2.step.1 = .ok .paused := by
  refine ⟨?_, ?_, ?_, ?_, ?_, ?_⟩ <;> decide +kernel

end Board

end ByteMachine
