/-
What the primitive operations of the machine come to, said once for each: the value, and the board with one part
changed. Proofs about programs rewrite with these and need not open the operations.

`Board.step_eq`: a step is a cycle of the machine set going, and what its end makes of the machine.
-/
import Mathlib.Tactic
import ByteMachine.Machine.Run

namespace ByteMachine

variable {σ : Type}

/-! ## Changes of a board -/

namespace Board

def withRegisters (board : Board σ) (registers : Registers) : Board σ :=
  { board with machine := { board.machine with registers } }

def withMemory (board : Board σ) (memory : Memory) : Board σ := { board with machine := { board.machine with memory } }

def withProfile (board : Board σ) (profile : Profile) : Board σ :=
  { board with machine := { board.machine with profile } }

/-- the board with a byte put at the stack pointer, which is raised -/
def raised (board : Board σ) (value : Byte) : Board σ :=
  let rs := board.machine.registers
  (board.withMemory (board.machine.memory.write rs.sp value)).withRegisters { rs with sp := rs.sp + 1 }

def lowered (board : Board σ) : Board σ :=
  let rs := board.machine.registers
  board.withRegisters { rs with sp := rs.sp - 1 }

def withHalting (board : Board σ) : Board σ := { board with machine := { board.machine with halting := true } }

def withDevice (board : Board σ) (device : σ) : Board σ := { board with device }

def counted (board : Board σ) (category : Category) : Board σ :=
  board.withProfile (board.machine.profile.add category 1)

/-! ## Setting a machine going -/

theorem awake_of_going {board : Board σ} (h : board.machine.stopped = false) : board.awake = board := by
  simp [awake, Machine.awake, h]

theorem going_awake (board : Board σ) : board.awake.machine.stopped = false := by
  cases h : board.machine.stopped <;> simp [awake, Machine.awake, h]

theorem memory_awake (board : Board σ) : board.awake.machine.memory = board.machine.memory := by
  cases h : board.machine.stopped <;> simp [awake, Machine.awake, h]

@[simp] theorem awake_awake (board : Board σ) : board.awake.awake = board.awake :=
  awake_of_going (going_awake board)

theorem resumeAddress_eq (board : Board σ) : board.machine.resumeAddress = board.awake.machine.registers.ip := by
  cases h : board.machine.stopped <;> simp [Machine.resumeAddress, awake, Machine.awake, h, Registers.jump]

end Board

/-! ## Operations -/

namespace Exec

variable {address : Word}

section Bind

variable {α β : Type} {x : Exec σ α} {value : α} {cause : Fault.Cause} {board after : Board σ}

theorem run_bind_of_ok (h : x.run board = .ok value after) (f : α → Exec σ β) :
    (x >>= f).run board = (f value).run after := by
  rw [EStateM.run_bind, h]

theorem run_bind_of_error (h : x.run board = .error cause after) (f : α → Exec σ β) :
    (x >>= f).run board = .error cause after := by
  rw [EStateM.run_bind, h]

end Bind

theorem run_registers (board : Board σ) : registers.run board = .ok board.machine.registers board := rfl

theorem run_modifyRegisters (f : Registers → Registers) (board : Board σ) :
    (modifyRegisters f).run board = .ok () (board.withRegisters (f board.machine.registers)) := rfl

theorem run_getRegister (i : Byte) (board : Board σ) :
    (getRegister i).run board = .ok (board.machine.registers.get i) board := rfl

theorem run_getPair (low high : Byte) (board : Board σ) :
    (getPair low high).run board = .ok (board.machine.registers.pair low high) board := rfl

theorem run_count (category : Category) (board : Board σ) :
    (count category).run board = .ok () (board.counted category) := rfl

theorem run_checkAddress_of_lt {address : Nat} (h : address < Memory.size) (board : Board σ) :
    (checkAddress address).run board = .ok (UInt16.ofNat address) board := by
  rw [checkAddress, if_pos ⟨Int.natCast_nonneg address, Int.ofNat_lt.2 h⟩]
  rfl

theorem run_checkAddress_of_outside {address : Int} (h : ¬ (0 ≤ address ∧ address < Memory.size)) (board : Board σ) :
    (checkAddress address).run board = .error (.outOfRange address) board := by
  rw [checkAddress, if_neg h]
  rfl

/-! ## The stack -/

section Stack

variable {board : Board σ} {address : Int} {next : Word} {cause : Fault.Cause}

/-- a byte is pushed if the stack pointer can be raised -/
theorem run_push_of_next (haddress : (board.machine.registers.sp.toNat : Int) + 1 = address)
    (hcheck : (checkAddress address).run board = .ok next board) (value : Byte) :
    (push value).run board =
      .ok () ((board.withMemory (board.machine.memory.write board.machine.registers.sp value)).withRegisters
        { board.machine.registers with sp := next }) := by
  rw [push, run_bind_of_ok (run_registers board)]
  simp only [haddress]
  rw [run_bind_of_ok hcheck]
  rfl

theorem run_push_of_outside (haddress : (board.machine.registers.sp.toNat : Int) + 1 = address)
    (hcheck : (checkAddress address).run board = .error cause board) (value : Byte) :
    (push value).run board = .error cause board := by
  rw [push, run_bind_of_ok (run_registers board)]
  simp only [haddress]
  rw [run_bind_of_error hcheck]

theorem run_push_of_ne (h : board.machine.registers.sp ≠ 0xffff) (value : Byte) :
    (push value).run board = .ok () (board.raised value) := by
  have hroom : board.machine.registers.sp.toNat + 1 < Memory.size := by
    have hsp := board.machine.registers.sp.toNat_lt
    rw [Ne, ← UInt16.toNat_inj, show (0xffff : Word).toNat = 0xffff from rfl] at h
    rw [Memory.size]
    omega
  have hnext : UInt16.ofNat (board.machine.registers.sp.toNat + 1) = board.machine.registers.sp + 1 := by
    rw [UInt16.ofNat_add, UInt16.ofNat_toNat]
    rfl
  rw [Board.raised, ← hnext]
  exact run_push_of_next (Int.natCast_add _ 1) (run_checkAddress_of_lt hroom board) value

theorem run_push_of_last (h : board.machine.registers.sp = 0xffff) (value : Byte) :
    (push value).run board = .error (.outOfRange 0x10000) board :=
  run_push_of_outside (by rw [h]; rfl) (run_checkAddress_of_outside (by decide) board) value

/-- a byte is popped if the stack pointer can be lowered -/
theorem run_pop_of_next (haddress : (board.machine.registers.sp.toNat : Int) - 1 = address)
    (hcheck : (checkAddress address).run board = .ok next board) :
    pop.run board = .ok (board.machine.memory.read next)
      (board.withRegisters { board.machine.registers with sp := next }) := by
  rw [pop, run_bind_of_ok (run_registers board)]
  simp only [haddress]
  rw [run_bind_of_ok hcheck]
  rfl

theorem run_pop_of_outside (haddress : (board.machine.registers.sp.toNat : Int) - 1 = address)
    (hcheck : (checkAddress address).run board = .error cause board) : pop.run board = .error cause board := by
  rw [pop, run_bind_of_ok (run_registers board)]
  simp only [haddress]
  rw [run_bind_of_error hcheck]

theorem run_pop_of_ne (h : board.machine.registers.sp ≠ 0) :
    pop.run board = .ok (board.machine.memory.read (board.machine.registers.sp - 1)) board.lowered := by
  have hpositive : 1 ≤ board.machine.registers.sp.toNat := by
    rw [Ne, ← UInt16.toNat_inj, UInt16.toNat_zero] at h
    omega
  have hroom : board.machine.registers.sp.toNat - 1 < Memory.size := by
    have hsp := board.machine.registers.sp.toNat_lt
    rw [Memory.size]
    omega
  have hnext : UInt16.ofNat (board.machine.registers.sp.toNat - 1) = board.machine.registers.sp - 1 := by
    rw [UInt16.ofNat_sub hpositive, UInt16.ofNat_toNat]
    rfl
  rw [Board.lowered, ← hnext]
  exact run_pop_of_next (Int.natCast_sub hpositive).symm (run_checkAddress_of_lt hroom board)

theorem run_pop_of_zero (h : board.machine.registers.sp = 0) : pop.run board = .error (.outOfRange (-1)) board :=
  run_pop_of_outside (by rw [h]; rfl) (run_checkAddress_of_outside (by decide) board)

end Stack

/-! ## Memory and device -/

variable [Device σ]

theorem run_load_of_window (h : InWindow address) (board : Board σ) :
    (load address).run board = .ok (Device.read board.device (address - windowStart)).1
      (board.withDevice (Device.read board.device (address - windowStart)).2) := if_pos h

theorem run_load_of_memory (h : ¬ InWindow address) (board : Board σ) :
    (load address).run board = .ok (board.machine.memory.read address) board := if_neg h

theorem run_store_of_window (h : InWindow address) (value : Byte) (board : Board σ) :
    (store address value).run board =
      .ok () (board.withDevice (Device.write board.device (address - windowStart) value)) :=
  congrArg (EStateM.Result.ok ()) (if_pos h)

theorem run_store_of_memory (h : ¬ InWindow address) (value : Byte) (board : Board σ) :
    (store address value).run board = .ok () (board.withMemory (board.machine.memory.write address value)) :=
  congrArg (EStateM.Result.ok ()) (if_neg h)

end Exec

/-! ## Steps -/

/-- what the end of a cycle makes of a step, where the cycle began at the address -/
def Board.conclude (start : Word) :
    EStateM.Result Fault.Cause (Board σ) Unit → Except Fault Exit × Board σ
  | .ok _ board => if board.machine.halting then (.ok .halted, board.stop) else (.ok .paused, board)
  | .error cause board =>
    (.error ⟨start, cause⟩, { board with machine := { board.machine with stopped := true } })

/-- a step pauses if its cycle ends without a fault and the machine is not about to stop -/
theorem Board.conclude_eq_paused_iff {start : Word} {ends : EStateM.Result Fault.Cause (Board σ) Unit} {next : Board σ} :
    conclude start ends = (.ok .paused, next) ↔ ends = .ok () next ∧ next.machine.halting = false := by
  cases ends with
  | error cause after => simp [conclude]
  | ok value after =>
    cases hhalting : after.machine.halting with
    | true =>
      rw [conclude, if_pos hhalting]
      refine iff_of_false nofun ?_
      rintro ⟨⟨⟩, hgoing⟩
      rw [hhalting] at hgoing
      cases hgoing
    | false =>
      rw [conclude, if_neg (by simp [hhalting])]
      constructor
      · rintro ⟨⟩
        exact ⟨rfl, hhalting⟩
      · rintro ⟨⟨⟩, -⟩
        rfl

theorem Board.step_eq [Device σ] (board : Board σ) :
    board.step = conclude board.awake.machine.registers.ip (Exec.cycle.run board.awake) := by
  rw [step]
  cases Exec.cycle.run board.awake <;> rfl

end ByteMachine
