/-
The flags. Five instructions tell in them about an exact result: the carry flag that it is no byte, and the zero flag that
its last eight bits are zero. The register named first takes these eight bits, if there is such a register. All other
instructions leave the flags alone.

- `Instruction.exactResult?`: the exact result, from the registers as the instruction finds them.
- `Exec.execute_computes`: what such an instruction makes of the registers.
- `Board.step_sets_flags`: the flags after every step that does not end in a fault.
-/
import Mathlib.Tactic
import ByteMachine.Proofs.Execution.Changes
import ByteMachine.Proofs.Execution.Remains

namespace ByteMachine

variable {σ : Type}

/-! ## Exact results -/

/-- the register that takes the result of an instruction which sets the flags, and the exact result -/
def Instruction.exactResult? (rs : Registers) : Instruction → Option (Byte × Int)
  | inc reg => some (reg, (rs.get reg).toNat + 1)
  | dec reg => some (reg, (rs.get reg).toNat - 1)
  | add dst src => some (dst, (rs.get dst).toNat + (rs.get src).toNat)
  | sub dst src => some (dst, (rs.get dst).toNat - (rs.get src).toNat)
  | mul dst src => some (dst, (rs.get dst).toNat * (rs.get src).toNat)
  | _ => none

namespace Registers

theorem zero_set (rs : Registers) (i value : Byte) : (rs.set i value).zero = rs.zero := by
  unfold Registers.set
  split
  · rename_i r _
    cases r <;> rfl
  · rfl

theorem carry_set (rs : Registers) (i value : Byte) : (rs.set i value).carry = rs.carry := by
  unfold Registers.set
  split
  · rename_i r _
    cases r <;> rfl
  · rfl

theorem read_set (rs : Registers) (i value : Byte) (r : Register) :
    (rs.set i value).read r = if Register.ofIndex? i = some r then value else rs.read r := by
  unfold Registers.set
  cases Register.ofIndex? i with
  | none => simp
  | some named => simp [read_write, eq_comm]

end Registers

namespace Exec

/-- a byte and a mark tell about an exact result: its last eight bits, and whether it is no byte -/
structure Tells (result : Byte × Bool) (exact : Int) : Prop where
  value : (result.1.toNat : Int) = exact % 256
  outside : result.2 = true ↔ ¬ (0 ≤ exact ∧ exact ≤ 255)

theorem addBytes_tells (x y : Byte) : Tells (addBytes x y) (x.toNat + y.toNat) := by
  refine ⟨?_, ?_⟩
  · rw [addBytes, UInt8.toNat_add]
    omega
  · rw [addBytes, decide_eq_true_iff]
    omega

theorem subBytes_tells (x y : Byte) : Tells (subBytes x y) (x.toNat - y.toNat) := by
  have hx := x.toNat_lt
  have hy := y.toNat_lt
  refine ⟨?_, ?_⟩
  · rw [subBytes, UInt8.toNat_sub]
    omega
  · rw [subBytes, decide_eq_true_iff, UInt8.lt_iff_toNat_lt]
    omega

theorem mulBytes_tells (x y : Byte) : Tells (mulBytes x y) (x.toNat * y.toNat) := by
  refine ⟨?_, ?_⟩
  · rw [mulBytes, UInt8.toNat_mul]
    omega
  · rw [mulBytes, decide_eq_true_iff, ← Nat.cast_mul]
    omega

/-- the zero flag tells about the last eight bits -/
theorem Tells.eq_zero_iff {result : Byte × Bool} {exact : Int} (h : Tells result exact) :
    result.1 = 0 ↔ exact % 256 = 0 := by
  rw [← h.value, ← UInt8.toNat_inj, UInt8.toNat_zero, Nat.cast_eq_zero]

/-- the registers with a result and the flags that tell about it -/
def computed (rs : Registers) (dst : Byte) (result : Byte × Bool) : Registers :=
  { rs with zero := result.1 = 0, carry := result.2 }.set dst result.1

theorem run_combine (op : Byte → Byte → Byte × Bool) (dst y : Byte) (board : Board σ) :
    (combine op dst y).run board =
      .ok () (board.withRegisters (computed board.machine.registers dst (op (board.machine.registers.get dst) y))) :=
  rfl

variable [Device σ]

/-- **An instruction that sets the flags computes its exact result,** as far as a byte and a mark can tell it. -/
theorem execute_computes {i : Instruction} {board : Board σ} {dst : Byte} {exact : Int}
    (h : i.exactResult? board.machine.registers = some (dst, exact)) :
    ∃ result, Tells result exact ∧
      (execute i).run board = .ok () (board.withRegisters (computed board.machine.registers dst result)) := by
  have hone : ((1 : Byte).toNat : Int) = 1 := rfl
  cases i with
  | inc reg =>
    obtain ⟨rfl, rfl⟩ := Prod.mk.inj (Option.some.inj h)
    refine ⟨_, ?_, run_combine addBytes reg 1 board⟩
    rw [← hone]
    exact addBytes_tells _ 1
  | dec reg =>
    obtain ⟨rfl, rfl⟩ := Prod.mk.inj (Option.some.inj h)
    refine ⟨_, ?_, run_combine subBytes reg 1 board⟩
    rw [← hone]
    exact subBytes_tells _ 1
  | add dst src =>
    obtain ⟨rfl, rfl⟩ := Prod.mk.inj (Option.some.inj h)
    exact ⟨_, addBytes_tells _ _, run_combine addBytes dst (board.machine.registers.get src) board⟩
  | sub dst src =>
    obtain ⟨rfl, rfl⟩ := Prod.mk.inj (Option.some.inj h)
    exact ⟨_, subBytes_tells _ _, run_combine subBytes dst (board.machine.registers.get src) board⟩
  | mul dst src =>
    obtain ⟨rfl, rfl⟩ := Prod.mk.inj (Option.some.inj h)
    exact ⟨_, mulBytes_tells _ _, run_combine mulBytes dst (board.machine.registers.get src) board⟩
  | _ => cases h

/-- any other instruction leaves the flags alone, also if it ends in a fault -/
theorem execute_leaves_flags {i : Instruction} (h : i.setsFlags = false) (board : Board σ) :
    (last ((execute i).run board)).machine.registers.zero = board.machine.registers.zero ∧
      (last ((execute i).run board)).machine.registers.carry = board.machine.registers.carry := by
  have hset : ∀ dst ∈ i.destinations, ∀ (rs : Registers) value,
      ((rs.set dst value).zero, (rs.set dst value).carry) = (rs.zero, rs.carry) :=
    fun dst _ rs value => Prod.ext (rs.zero_set dst value) (rs.carry_set dst value)
  have hsame := @execute_same_registers _ _ board i _ (fun rs => (rs.zero, rs.carry)) hset
    (by simp [h]) (fun _ _ _ => rfl) (fun _ _ => rfl)
  exact Prod.ext_iff.1 hsame

end Exec

/-! ## Steps -/

namespace Board

variable [Device σ]

/-- the flags after a step that executed the instruction -/
structure SetsFlags (board : Board σ) (i : Instruction) : Prop where
  /-- the instruction finds the registers as they were, with the instruction pointer past its bytes -/
  found : (board.awake.reached i).machine.registers = { board.machine.registers with
    ip := board.machine.resumeAddress + UInt16.ofNat i.encode.length
    pastEnd := board.machine.resumeAddress.toNat + i.encode.length = Memory.size }
  /-- the flags tell about the exact result, -/
  flags : ∀ dst exact, i.exactResult? (board.awake.reached i).machine.registers = some (dst, exact) →
    (board.step.2.machine.registers.carry = true ↔ ¬ (0 ≤ exact ∧ exact ≤ 255)) ∧
      (board.step.2.machine.registers.zero = true ↔ exact % 256 = 0)
  /-- its last eight bits are in the register named first, and no other one changes -/
  result : ∀ dst exact, i.exactResult? (board.awake.reached i).machine.registers = some (dst, exact) →
    ∀ r, (Register.ofIndex? dst = some r → ((board.step.2.machine.registers.read r).toNat : Int) = exact % 256) ∧
      (Register.ofIndex? dst ≠ some r →
        board.step.2.machine.registers.read r = (board.awake.reached i).machine.registers.read r)
  /-- all other instructions leave the flags alone -/
  others : i.opcode ∉ [Opcode.inc, .dec, .add, .sub, .mul] →
    board.step.2.machine.registers.carry = board.machine.registers.carry ∧
      board.step.2.machine.registers.zero = board.machine.registers.zero

theorem registers_reached (board : Board σ) (i : Instruction) :
    (board.awake.reached i).machine.registers = { board.machine.registers with
      ip := board.machine.resumeAddress + UInt16.ofNat i.encode.length
      pastEnd := board.machine.resumeAddress.toNat + i.encode.length = Memory.size } := by
  have hreached : (board.awake.reached i).machine.registers = { board.awake.machine.registers with
      ip := board.awake.machine.registers.ip + UInt16.ofNat i.encode.length
      pastEnd := board.awake.machine.registers.ip.toNat + i.encode.length = Memory.size } := rfl
  rw [hreached, resumeAddress_eq]
  cases hstopped : board.machine.stopped <;> simp [awake, Machine.awake, hstopped, Registers.jump]

section Steps

variable {board : Board σ} {i : Instruction} (hnext : board.awake.nextInstruction? = some i)

include hnext

theorem registers_of_some :
    board.step.2.machine.registers =
      (Exec.last ((execute i).run (board.awake.reached i))).machine.registers := by
  rw [step_eq_of_some hnext, registers_conclude]

/-- the registers after a step that computes an exact result -/
theorem registers_of_exactResult? {dst : Byte} {exact : Int}
    (h : i.exactResult? (board.awake.reached i).machine.registers = some (dst, exact)) :
    ∃ result, Exec.Tells result exact ∧ board.step.2.machine.registers =
      Exec.computed (board.awake.reached i).machine.registers dst result := by
  obtain ⟨result, htells, hrun⟩ := Exec.execute_computes h
  refine ⟨result, htells, ?_⟩
  rw [registers_of_some hnext, hrun]
  rfl

theorem sets_flags_of_some : board.SetsFlags i := by
  have hdata := (board.movedOnly_reached i).data
  constructor
  case found => exact board.registers_reached i
  case flags =>
    intro dst exact h
    obtain ⟨result, htells, hafter⟩ := registers_of_exactResult? hnext h
    rw [hafter, Exec.computed, Registers.carry_set, Registers.zero_set, decide_eq_true_iff]
    exact ⟨htells.outside, htells.eq_zero_iff⟩
  case result =>
    intro dst exact h r
    obtain ⟨result, htells, hafter⟩ := registers_of_exactResult? hnext h
    rw [hafter, Exec.computed, Registers.read_set]
    refine ⟨fun hr => ?_, fun hr => ?_⟩
    · rw [if_pos hr]
      exact htells.value
    · rw [if_neg hr]
      cases r <;> rfl
  case others =>
    intro hop
    have hsets : i.setsFlags = false := by
      cases i with
      | inc reg => simp [Instruction.opcode] at hop
      | dec reg => simp [Instruction.opcode] at hop
      | add dst src => simp [Instruction.opcode] at hop
      | sub dst src => simp [Instruction.opcode] at hop
      | mul dst src => simp [Instruction.opcode] at hop
      | _ => rfl
    have hflags := Exec.execute_leaves_flags hsets (board.awake.reached i)
    rw [registers_of_some hnext, hflags.1, hflags.2]
    exact ⟨hdata.carry, hdata.zero⟩

end Steps

/-- **The flags tell about exact results.** A step without a fault executes the instruction that was fetched. If that
computes an exact result, the carry flag says that it is no byte and the zero flag that its last eight bits are zero, and
the register named first takes these bits. If not, the flags are what they were. -/
theorem step_sets_flags (board : Board σ) (exit : Exit) (h : board.step.1 = .ok exit) :
    ∃ i, board.awake.nextInstruction? = some i ∧ board.SetsFlags i := by
  obtain ⟨i, hnext⟩ := exists_nextInstruction_of_ok h
  exact ⟨i, hnext, sets_flags_of_some hnext⟩

/-- a machine with `mul ipl ipl` at address 0x1230 -/
def squaring : Board NoDevice :=
  ⟨{ Machine.initial with
      memory := Memory.zero.writeAll 0x1230 [0x19, 0x05, 0x05]
      registers := { Registers.initial with ip := 0x1230 }
      stopped := false }, ⟨⟩⟩

theorem squaring_sets_flags :
    squaring.step.1 = .ok .paused ∧ squaring.step.2.machine.registers.carry = true ∧
      squaring.step.2.machine.registers.zero = false ∧
      (squaring.step.2.machine.registers.read .ipl).toNat = 41 := by
  have hpaused : squaring.step.1 = .ok .paused := by decide +kernel
  have hnext : squaring.awake.nextInstruction? = some (.mul 5 5) := by decide +kernel
  have hexact : (Instruction.mul 5 5).exactResult? (squaring.awake.reached (.mul 5 5)).machine.registers =
      some (5, 2601) := by decide +kernel
  obtain ⟨i, hi, hsets⟩ := step_sets_flags squaring _ hpaused
  obtain rfl : Instruction.mul 5 5 = i := Option.some.inj (hnext.symm.trans hi)
  obtain ⟨hcarry, hzero⟩ := hsets.flags _ _ hexact
  have hresult := (hsets.result _ _ hexact .ipl).1 rfl
  refine ⟨hpaused, hcarry.2 (by decide), ?_, ?_⟩
  · rw [Bool.eq_false_iff]
    exact fun h => absurd (hzero.1 h) (by decide)
  · omega

end Board

end ByteMachine
