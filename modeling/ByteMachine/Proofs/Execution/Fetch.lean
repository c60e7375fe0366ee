/-
Fetching an instruction that lies in memory. Where programs see the bytes of an instruction at the instruction pointer,
the machine fetches that instruction, counts it, and moves the instruction pointer past its bytes.

`Exec.run_fetchInstruction`: what is fetched. `Board.Ready.step_eq`: the step executes it, on the board on which it was
fetched.
-/
import Mathlib.Tactic
import ByteMachine.Proofs.Execution.Primitives
import ByteMachine.Proofs.Loading.Bytes

namespace ByteMachine

/-! ## Bytes that programs see -/

namespace Memory

/-- programs see the bytes at the address and the addresses after it: they are in memory, and none is hidden by the
device -/
structure Shows (memory : Memory) (address : Nat) (bytes : List Byte) : Prop where
  held : memory.Holds address bytes
  outside : ∀ i < bytes.length, ¬ InWindow (UInt16.ofNat (address + i))

/-- the byte that programs see at an address, and the device after they looked -/
def view {σ : Type} [Device σ] (memory : Memory) (device : σ) (address : Word) : Byte × σ :=
  if InWindow address then Device.read device (address - windowStart) else (memory.read address, device)

end Memory

/-- an instruction is what its opcode makes of its operands -/
theorem Instruction.made_of_opcode (i : Instruction) :
    match i.opcode.form with
    | .nullary j => i = j ∧ i.operands = []
    | .unary f => ∃ x, i = f x ∧ i.operands = [x]
    | .binary f => ∃ x y, i = f x y ∧ i.operands = [x, y] := by
  cases i <;> simp [Instruction.opcode, Opcode.form, Instruction.operands]

variable {σ : Type}

/-- a machine that comes to an instruction: it is going, the instruction pointer is at the address and not past the last
one, and programs see the bytes there -/
structure Board.Ready (board : Board σ) (address : Nat) (bytes : List Byte) : Prop where
  going : board.machine.stopped = false
  arrived : board.machine.registers.ip.toNat = address
  within : board.machine.registers.pastEnd = false
  shown : board.machine.memory.Shows address bytes

/-! ## The instruction pointer -/

namespace Board

/-- the board with the instruction pointer moved past some bytes, the last of which may be that at the last address -/
def past (board : Board σ) (count : Nat) : Board σ :=
  board.withRegisters { board.machine.registers with
    ip := board.machine.registers.ip + UInt16.ofNat count
    pastEnd := decide (board.machine.registers.ip.toNat + count = Memory.size) }

/-- the board on which an instruction that was fetched is executed -/
def entered (board : Board σ) (i : Instruction) : Board σ :=
  (board.counted i.opcode.category).past i.encode.length

theorem past_zero {board : Board σ} (h : board.machine.registers.pastEnd = false) : board.past 0 = board := by
  have hip := board.machine.registers.ip.toNat_lt
  have hend : decide (board.machine.registers.ip.toNat + 0 = Memory.size) = board.machine.registers.pastEnd := by
    rw [h, decide_eq_false_iff_not, Memory.size]
    omega
  rw [past, hend, show UInt16.ofNat 0 = 0 from rfl, UInt16.add_zero]
  rfl

theorem ip_past (board : Board σ) (count : Nat) :
    (board.past count).machine.registers.ip = UInt16.ofNat (board.machine.registers.ip.toNat + count) := by
  rw [UInt16.ofNat_add, UInt16.ofNat_toNat]
  rfl

theorem pastEnd_past_eq_true_iff {board : Board σ} {count : Nat} :
    (board.past count).machine.registers.pastEnd = true ↔
      board.machine.registers.ip.toNat + count = Memory.size := decide_eq_true_iff

theorem pastEnd_past {board : Board σ} {count : Nat} (h : board.machine.registers.ip.toNat + count < Memory.size) :
    (board.past count).machine.registers.pastEnd = false := decide_eq_false (Nat.ne_of_lt h)

theorem past_past_one {board : Board σ} {count : Nat} (h : board.machine.registers.ip.toNat + count < Memory.size) :
    (board.past count).past 1 = board.past (count + 1) := by
  have hip : (board.past count).machine.registers.ip.toNat = board.machine.registers.ip.toNat + count := by
    rw [ip_past]
    exact Nat.mod_eq_of_lt h
  have hnext : (board.past count).machine.registers.ip + 1 =
      board.machine.registers.ip + UInt16.ofNat (count + 1) := by
    rw [UInt16.ofNat_add, ← UInt16.add_assoc]
    rfl
  rw [past, hip, Nat.add_assoc, show UInt16.ofNat 1 = 1 from rfl, hnext]
  rfl

theorem counted_past (board : Board σ) (count : Nat) (category : Category) :
    (board.past count).counted category = (board.counted category).past count := rfl

end Board

namespace Exec

variable [Device σ]

theorem run_load (address : Word) (board : Board σ) :
    (load address).run board =
      .ok (board.machine.memory.view board.device address).1
        (board.withDevice (board.machine.memory.view board.device address).2) := by
  by_cases hwindow : InWindow address
  · rw [run_load_of_window hwindow, Memory.view, if_pos hwindow]
  · rw [run_load_of_memory hwindow, Memory.view, if_neg hwindow]
    rfl

/-- the byte that programs see at the instruction pointer is fetched -/
theorem run_fetch_view {board : Board σ} (hpast : board.machine.registers.pastEnd = false) :
    fetch.run board = .ok (board.machine.memory.view board.device board.machine.registers.ip).1
      ((board.withDevice (board.machine.memory.view board.device board.machine.registers.ip).2).past 1) := by
  have hend : decide (board.machine.registers.ip = 0xffff) =
      decide (board.machine.registers.ip.toNat + 1 = Memory.size) := by
    rw [decide_eq_decide, ← UInt16.toNat_inj, Memory.size]
    simp
  rw [Board.past, Board.withDevice, ← hend]
  simp only [fetch, EStateM.run_bind, run_registers, hpast, Bool.false_eq_true, if_false, run_load,
    run_modifyRegisters]
  rfl

/-- past the last address there is no byte to fetch -/
theorem run_fetch_of_pastEnd {board : Board σ} (hpast : board.machine.registers.pastEnd = true) :
    fetch.run board = .error (.outOfRange Memory.size) board := by
  rw [fetch, run_bind_of_ok (run_registers board), hpast]
  rfl

theorem run_fetch {board : Board σ} (hpast : board.machine.registers.pastEnd = false)
    (houtside : ¬ InWindow board.machine.registers.ip) :
    fetch.run board = .ok (board.machine.memory.read board.machine.registers.ip) (board.past 1) := by
  rw [run_fetch_view hpast, Memory.view, if_neg houtside]
  rfl

/-- the byte at a place is fetched when the instruction pointer is there -/
theorem run_fetch_of_shown (board : Board σ) {bytes : List Byte}
    (hshown : board.machine.memory.Shows board.machine.registers.ip.toNat bytes)
    (hroom : board.machine.registers.ip.toNat + bytes.length ≤ Memory.size) {count : Nat}
    (hcount : count < bytes.length) :
    fetch.run (board.past count) = .ok bytes[count] (board.past (count + 1)) := by
  have hhere : board.machine.registers.ip.toNat + count < Memory.size := by omega
  have houtside := hshown.outside count hcount
  rw [← board.ip_past] at houtside
  rw [run_fetch (Board.pastEnd_past hhere) houtside, Board.past_past_one hhere, board.ip_past]
  exact congrArg (EStateM.Result.ok · _) (hshown.held count hcount)

/-- **An instruction that programs see at the instruction pointer is fetched.** It is counted, and the instruction
pointer is then past its bytes. -/
theorem run_fetchInstruction {board : Board σ} {i : Instruction}
    (hpast : board.machine.registers.pastEnd = false)
    (hshown : board.machine.memory.Shows board.machine.registers.ip.toNat i.encode)
    (hroom : board.machine.registers.ip.toNat + i.encode.length ≤ Memory.size) :
    fetchInstruction.run board = .ok i (board.entered i) := by
  have hfirst : 0 < i.encode.length := Nat.zero_lt_succ _
  have hcode := run_fetch_of_shown board hshown hroom hfirst
  rw [Board.past_zero hpast] at hcode
  have hopcode : Opcode.ofCode? i.encode[0] = some i.opcode := i.opcode.ofCode?_code
  -- the operands are fetched from the board on which the opcode was counted
  have hnext : ∀ count (hcount : count < i.encode.length),
      fetch.run ((board.counted i.opcode.category).past count) =
        .ok i.encode[count] ((board.counted i.opcode.category).past (count + 1)) :=
    fun count hcount => run_fetch_of_shown (board.counted i.opcode.category) hshown hroom hcount
  have hmade := i.made_of_opcode
  rw [fetchInstruction, EStateM.run_bind, hcode]
  simp only [hopcode]
  rw [EStateM.run_bind, run_count, Board.counted_past]
  simp only [zero_add]
  cases hform : i.opcode.form with
  | nullary j =>
    rw [hform] at hmade
    obtain ⟨hj, hoperands⟩ := hmade
    have hlength : i.encode.length = 1 := by rw [Instruction.encode, hoperands]; rfl
    rw [Board.entered, hlength, hj]
    rfl
  | unary f =>
    rw [hform] at hmade
    obtain ⟨x, hi, hoperands⟩ := hmade
    have hencode : i.encode = [i.opcode.code, x] := by rw [Instruction.encode, hoperands]
    have hlength : i.encode.length = 2 := by rw [hencode]; rfl
    have hx := hnext 1 (by omega)
    simp only [hencode, List.getElem_cons_succ, List.getElem_cons_zero] at hx
    simp only [EStateM.run_bind, hx]
    rw [Board.entered, hlength, hi]
    rfl
  | binary f =>
    rw [hform] at hmade
    obtain ⟨x, y, hi, hoperands⟩ := hmade
    have hencode : i.encode = [i.opcode.code, x, y] := by rw [Instruction.encode, hoperands]
    have hlength : i.encode.length = 3 := by rw [hencode]; rfl
    have hx := hnext 1 (by omega)
    have hy := hnext 2 (by omega)
    simp only [hencode, List.getElem_cons_succ, List.getElem_cons_zero] at hx hy
    simp only [EStateM.run_bind, hx, hy]
    rw [Board.entered, hlength, hi]
    rfl

end Exec

/-- **The step executes the instruction that the machine comes to,** on the board on which it was fetched. -/
theorem Board.Ready.step_eq [Device σ] {board : Board σ} {address : Nat} {i : Instruction}
    (h : board.Ready address i.encode) (hroom : address + i.encode.length ≤ Memory.size) :
    board.step = conclude board.machine.registers.ip ((execute i).run (board.entered i)) := by
  obtain ⟨hgoing, rfl, hwithin, hshown⟩ := h
  rw [Board.step_eq, awake_of_going hgoing, Exec.cycle, EStateM.run_bind,
    Exec.run_fetchInstruction hwithin hshown hroom]

end ByteMachine
