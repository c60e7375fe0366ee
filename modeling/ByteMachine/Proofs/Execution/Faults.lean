/-
Which steps fault. Past the byte at the last address the next one lies at 0x10000; a step faults if the instruction needs
that byte, if its opcode byte is not in the table, or if the instruction comes to an address outside the address space.

- `Board.Overruns`, `Board.opcodeByte?`: what the fetch of an instruction finds.
- `Board.FetchEnds.overruns_iff`, `Board.FetchEnds.opcodeByte?_iff`: the two faults of a fetch.
- `Board.step_faults_exactly`: the faults of a step, each with its conditions.
-/
import Mathlib.Tactic
import ByteMachine.Proofs.Execution.Routing
import ByteMachine.Proofs.Execution.Strays
import ByteMachine.Proofs.Running.Control

namespace ByteMachine

variable {σ : Type}

/-! ## Fetching -/

namespace Board

variable [Device σ]

omit [Device σ] in
/-- where the next byte is fetched: at the instruction pointer, or after the last address -/
def place (board : Board σ) : Nat :=
  if board.machine.registers.pastEnd then Memory.size else board.machine.registers.ip.toNat

/-- the opcode byte as programs see it, if there is an address for it -/
def opcodeByte? (board : Board σ) : Option Byte :=
  if board.place < Memory.size then
    some (board.machine.memory.view board.device board.machine.registers.ip).1
  else none

/-- the number of bytes that the next instruction needs: its opcode byte, and the operands that this one asks for -/
def needed (board : Board σ) : Nat := (board.opcodeByte?.map Opcode.lengthFrom).getD 1

/-- a byte that the next instruction needs lies after the last address -/
def Overruns (board : Board σ) : Prop := ∃ n < board.needed, board.place + n = 0x10000

section Fetching

variable {board : Board σ} {code : Byte}

theorem one_le_lengthFrom (code : Byte) : 1 ≤ Opcode.lengthFrom code := by
  rw [Opcode.lengthFrom]
  cases Opcode.ofCode? code with
  | none => exact Nat.le_refl 1
  | some op => exact Nat.le_add_right 1 _

theorem one_le_needed (board : Board σ) : 1 ≤ board.needed := by
  rw [needed]
  cases board.opcodeByte? with
  | none => exact Nat.le_refl 1
  | some code => exact one_le_lengthFrom code

omit [Device σ] in
theorem place_add_room (board : Board σ) : board.place + board.room = Memory.size := by
  have hip := board.machine.registers.ip.toNat_lt
  rw [place, room, Memory.size]
  split
  · rfl
  · omega

theorem overruns_iff_room_lt : board.Overruns ↔ board.room < board.needed := by
  have hplace := board.place_add_room
  rw [Memory.size] at hplace
  constructor
  · rintro ⟨n, hn, hlast⟩
    omega
  · intro h
    exact ⟨board.room, h, hplace⟩

/-- the opcode byte is the first that is fetched -/
theorem head?_fetches (board : Board σ) : board.fetches.1.head? = board.opcodeByte? := by
  have hplace := board.place_add_room
  have hlength := one_le_lengthFrom (board.machine.memory.view board.device board.machine.registers.ip).1
  rw [fetches, opcodeByte?]
  rcases Nat.eq_zero_or_pos board.room with hnone | hsome
  · rw [hnone, Nat.min_zero, if_neg (by omega)]
    rfl
  · rw [if_pos (by omega), ← Nat.sub_add_cancel (Nat.le_min.2 ⟨hlength, hsome⟩), Memory.viewAll_succ]
    rfl

theorem length_fetches (board : Board σ) : board.fetches.1.length = min board.needed board.room := by
  have hplace := board.place_add_room
  rw [fetches, Memory.length_viewAll, needed, opcodeByte?]
  rcases Nat.eq_zero_or_pos board.room with hnone | hsome
  · rw [hnone, Nat.min_zero, Nat.min_zero]
  · rw [if_pos (by omega)]
    rfl

theorem lengthFrom_code (op : Opcode) : Opcode.lengthFrom op.code = op.size := by
  rw [Opcode.lengthFrom, Opcode.ofCode?_code]
  rfl

theorem lengthFrom_of_none (h : Opcode.ofCode? code = none) : Opcode.lengthFrom code = 1 := by
  rw [Opcode.lengthFrom, h]
  rfl

/-- how the fetch of an instruction ends says whether a byte that it needs lies after the last address, -/
theorem FetchEnds.overruns_iff {ends : EStateM.Result Fault.Cause (Board σ) Instruction} {address : Int}
    (h : board.FetchEnds ends) :
    board.Overruns ∧ address = 0x10000 ↔ ∃ after, ends = .error (.outOfRange address) after := by
  have hlength := board.length_fetches
  have hhead := board.head?_fetches
  rw [overruns_iff_room_lt]
  cases h with
  | @whole i hfetched =>
    have hneeded : board.needed = i.encode.length := by
      rw [needed, ← hhead, hfetched, i.length_encode]
      exact lengthFrom_code i.opcode
    rw [hfetched] at hlength
    exact iff_of_false (by omega) (by rintro ⟨after, ⟨⟩⟩)
  | unknown hfetched hunknown =>
    rw [hfetched, List.length_singleton] at hlength
    have hneeded : board.needed = 1 := by
      rw [needed, ← hhead, hfetched]
      exact lengthFrom_of_none hunknown
    exact iff_of_false (by omega) (by rintro ⟨after, ⟨⟩⟩)
  | @cut op operands hfetched hless hroom =>
    have hneeded : board.needed = op.size := by
      rw [needed, ← hhead, hfetched]
      exact lengthFrom_code op
    rw [Opcode.size] at hneeded
    constructor
    · rintro ⟨-, rfl⟩
      exact ⟨_, rfl⟩
    · rintro ⟨after, ⟨⟩⟩
      exact ⟨by omega, rfl⟩
  | past hfetched hroom =>
    have hneeded := board.one_le_needed
    constructor
    · rintro ⟨-, rfl⟩
      exact ⟨_, rfl⟩
    · rintro ⟨after, ⟨⟩⟩
      exact ⟨by omega, rfl⟩

/-- and whether the opcode byte is that of no instruction -/
theorem FetchEnds.opcodeByte?_iff {ends : EStateM.Result Fault.Cause (Board σ) Instruction} (h : board.FetchEnds ends) :
    board.opcodeByte? = some code ∧ Opcode.ofCode? code = none ↔
      ∃ after, ends = .error (.invalidOpcode code) after := by
  rw [← head?_fetches]
  cases h with
  | @whole i hfetched =>
    refine iff_of_false ?_ (by rintro ⟨after, ⟨⟩⟩)
    rintro ⟨hhead, hunknown⟩
    rw [hfetched, Instruction.encode, List.head?_cons, Option.some_inj] at hhead
    rw [← hhead, Opcode.ofCode?_code] at hunknown
    cases hunknown
  | unknown hfetched hunknown =>
    rw [hfetched, List.head?_cons, Option.some_inj]
    constructor
    · rintro ⟨rfl, -⟩
      exact ⟨_, rfl⟩
    · rintro ⟨after, ⟨⟩⟩
      exact ⟨rfl, hunknown⟩
  | cut hfetched hless hroom =>
    refine iff_of_false ?_ (by rintro ⟨after, ⟨⟩⟩)
    rintro ⟨hhead, hunknown⟩
    rw [hfetched, List.head?_cons, Option.some_inj] at hhead
    rw [← hhead, Opcode.ofCode?_code] at hunknown
    cases hunknown
  | past hfetched hroom =>
    refine iff_of_false ?_ (by rintro ⟨after, ⟨⟩⟩)
    rintro ⟨hhead, -⟩
    rw [hfetched] at hhead
    cases hhead

end Fetching

/-! ## Steps -/

section Steps

variable {board : Board σ} {i : Instruction} {address : Int} {ip : Word}

omit [Device σ] in
theorem sp_awake (board : Board σ) : board.awake.machine.registers.sp = board.machine.registers.sp := by
  cases h : board.machine.stopped <;> simp [awake, Machine.awake, h, Registers.jump]

theorem sp_reached (board : Board σ) (i : Instruction) :
    (board.reached i).machine.registers.sp = board.machine.registers.sp := rfl

theorem fetchEnds_of_some (hnext : board.nextInstruction? = some i) : board.FetchEnds (.ok i (board.reached i)) := by
  have hends := Exec.fetchInstruction_ends board
  rwa [Exec.run_fetchInstruction_of_some hnext] at hends

theorem fetches_of_some (hnext : board.nextInstruction? = some i) : board.fetches.1 = i.encode := by
  cases fetchEnds_of_some hnext with
  | whole hfetched => exact hfetched

theorem not_overruns_of_some (hnext : board.nextInstruction? = some i) : ¬ board.Overruns := by
  intro h
  obtain ⟨after, ⟨⟩⟩ := (fetchEnds_of_some hnext).overruns_iff.1 ⟨h, rfl⟩

/-- a step faults where the instruction does that it executes, -/
theorem step_of_strays (hnext : board.awake.nextInstruction? = some i)
    (h : i.stray? board.machine.registers.sp.toNat = some address) :
    board.step = conclude board.machine.resumeAddress
      (.error (.outOfRange address) ((board.awake.reached i).cutShort i)) := by
  rw [← sp_awake, ← sp_reached board.awake i] at h
  rw [step_eq_of_some hnext, Exec.execute_strays h, resumeAddress_eq]

theorem exists_ok_step (hnext : board.awake.nextInstruction? = some i)
    (h : i.stray? board.machine.registers.sp.toNat = none) : ∃ exit, board.step.1 = .ok exit := by
  rw [← sp_awake, ← sp_reached board.awake i] at h
  obtain ⟨after, hrun⟩ := Exec.execute_succeeds h
  rw [step_eq_of_some hnext, hrun, conclude]
  split
  · exact ⟨.halted, rfl⟩
  · exact ⟨.paused, rfl⟩

/-- and otherwise where the fetch does -/
theorem step_of_none (hnext : board.awake.nextInstruction? = none) :
    ∃ cause after, board.awake.FetchEnds (.error cause after) ∧
      board.step = conclude board.machine.resumeAddress (.error cause after) := by
  obtain ⟨cause, after, hends, hrun⟩ := Exec.run_cycle_of_none hnext
  refine ⟨cause, after, hends, ?_⟩
  rw [step_eq, hrun, resumeAddress_eq]

/-- a step without a fault executes an instruction -/
theorem exists_nextInstruction_of_ok {exit : Exit} (h : board.step.1 = .ok exit) :
    ∃ i, board.awake.nextInstruction? = some i := by
  cases hnext : board.awake.nextInstruction? with
  | some i => exact ⟨i, rfl⟩
  | none =>
    obtain ⟨cause, after, -, hstep⟩ := step_of_none hnext
    rw [hstep] at h
    cases h

theorem step_eq_outOfRange_iff (board : Board σ) (ip : Word) (address : Int) :
    board.step.1 = .error ⟨ip, .outOfRange address⟩ ↔
      ip = board.machine.resumeAddress ∧
        (board.awake.Overruns ∧ address = 0x10000 ∨
          ∃ i, board.awake.nextInstruction? = some i ∧
            i.stray? board.machine.registers.sp.toNat = some address) := by
  cases hnext : board.awake.nextInstruction? with
  | none =>
    obtain ⟨cause, after, hends, hstep⟩ := step_of_none hnext
    rw [hstep]
    constructor
    · rintro ⟨⟩
      exact ⟨rfl, .inl (hends.overruns_iff.2 ⟨after, rfl⟩)⟩
    · rintro ⟨rfl, hover | ⟨i, ⟨⟩, -⟩⟩
      obtain ⟨-, ⟨⟩⟩ := hends.overruns_iff.1 hover
      rfl
  | some i =>
    have hwhole := not_overruns_of_some hnext
    cases hstray : i.stray? board.machine.registers.sp.toNat with
    | none =>
      obtain ⟨exit, hstep⟩ := exists_ok_step hnext hstray
      rw [hstep]
      refine iff_of_false nofun ?_
      rintro ⟨-, ⟨hover, -⟩ | ⟨j, ⟨⟩, hj⟩⟩
      · exact hwhole hover
      · rw [hstray] at hj
        cases hj
    | some found =>
      rw [step_of_strays hnext hstray]
      constructor
      · rintro ⟨⟩
        exact ⟨rfl, .inr ⟨i, rfl, hstray⟩⟩
      · rintro ⟨rfl, ⟨hover, -⟩ | ⟨j, ⟨⟩, hj⟩⟩
        · exact absurd hover hwhole
        · obtain rfl := Option.some.inj (hstray.symm.trans hj)
          rfl

theorem step_eq_invalidOpcode_iff (board : Board σ) (ip : Word) (code : Byte) :
    board.step.1 = .error ⟨ip, .invalidOpcode code⟩ ↔
      ip = board.machine.resumeAddress ∧ board.awake.opcodeByte? = some code ∧ Opcode.ofCode? code = none := by
  cases hnext : board.awake.nextInstruction? with
  | none =>
    obtain ⟨cause, after, hends, hstep⟩ := step_of_none hnext
    rw [hstep]
    constructor
    · rintro ⟨⟩
      exact ⟨rfl, hends.opcodeByte?_iff.2 ⟨after, rfl⟩⟩
    · rintro ⟨rfl, hunknown⟩
      obtain ⟨-, ⟨⟩⟩ := hends.opcodeByte?_iff.1 hunknown
      rfl
  | some i =>
    have hknown : ¬ (board.awake.opcodeByte? = some code ∧ Opcode.ofCode? code = none) := by
      intro hunknown
      obtain ⟨after, ⟨⟩⟩ := (fetchEnds_of_some hnext).opcodeByte?_iff.1 hunknown
    refine iff_of_false ?_ fun h => hknown h.2
    cases hstray : i.stray? board.machine.registers.sp.toNat with
    | none =>
      obtain ⟨exit, hstep⟩ := exists_ok_step hnext hstray
      rw [hstep]
      nofun
    | some found =>
      rw [step_of_strays hnext hstray]
      nofun

/-- no byte that is needed is missing and the opcode is known: then the bytes are an instruction -/
theorem exists_nextInstruction (hroom : ¬ board.Overruns)
    (hknown : ∀ code, board.opcodeByte? = some code → Opcode.ofCode? code ≠ none) :
    ∃ i, board.nextInstruction? = some i := by
  cases hnext : board.nextInstruction? with
  | some i => exact ⟨i, rfl⟩
  | none =>
    obtain ⟨cause, after, hends, -⟩ := Exec.run_fetchInstruction_of_none hnext
    cases cause with
    | outOfRange address => exact absurd (hends.overruns_iff.2 ⟨after, rfl⟩).1 hroom
    | invalidOpcode code =>
      obtain ⟨hcode, hunknown⟩ := hends.opcodeByte?_iff.2 ⟨after, rfl⟩
      exact absurd hunknown (hknown code hcode)

/-- the faults of a step -/
structure FaultsExactly (board : Board σ) : Prop where
  /-- a stopped machine starts from the word at the first two addresses, -/
  stopped : board.machine.stopped = true → board.machine.resumeAddress = board.machine.memory.readWord 0
  /-- any other where the instruction pointer is, -/
  going : board.machine.stopped = false → board.machine.resumeAddress = board.machine.registers.ip
  /-- which is address 0 after the last one -/
  wrapped : ∀ calls, Machine.After calls board.machine → board.machine.registers.pastEnd = true →
    board.machine.registers.ip = 0
  /-- an address is outside: that of a byte that is needed, or one that the instruction comes to -/
  outOfRange : ∀ ip address, board.step.1 = .error ⟨ip, .outOfRange address⟩ ↔
    ip = board.machine.resumeAddress ∧
      (board.awake.Overruns ∧ address = 0x10000 ∨
        ∃ i, board.awake.nextInstruction? = some i ∧ i.stray? board.machine.registers.sp.toNat = some address)
  /-- the opcode byte is not in the table -/
  invalidOpcode : ∀ ip code, board.step.1 = .error ⟨ip, .invalidOpcode code⟩ ↔
    ip = board.machine.resumeAddress ∧ board.awake.opcodeByte? = some code ∧ Opcode.ofCode? code = none
  /-- in all other cases there is no fault -/
  succeeds : ¬ board.awake.Overruns →
    (∀ code, board.awake.opcodeByte? = some code → Opcode.ofCode? code ≠ none) →
      (∀ i, board.awake.nextInstruction? = some i → i.stray? board.machine.registers.sp.toNat = none) →
        ∃ exit, board.step.1 = .ok exit
  /-- all bytes of an instruction are fetched, in order, before it comes to an address outside -/
  fetchedFirst : ∀ i address, board.awake.nextInstruction? = some i →
    i.stray? board.machine.registers.sp.toNat = some address →
      board.awake.fetches.1 = i.encode ∧ board.accesses = windowReads board.machine.resumeAddress i.encode ∧
        board.step.2.machine.registers.ip = board.machine.resumeAddress + UInt16.ofNat i.encode.length

theorem dataUse?_of_strays {rs : Registers} (h : i.stray? rs.sp.toNat = some address) : i.dataUse? rs = none := by
  cases i with
  | ofg reg offset =>
    obtain ⟨houtside, ⟨⟩⟩ := Option.ite_none_right_eq_some.1 h
    rw [Instruction.dataUse?, Exec.frameSlot?_eq_none_iff.2 houtside]
    rfl
  | ofs reg offset =>
    obtain ⟨houtside, ⟨⟩⟩ := Option.ite_none_right_eq_some.1 h
    rw [Instruction.dataUse?, Exec.frameSlot?_eq_none_iff.2 houtside]
    rfl
  | gec lo hi => cases h
  | sec lo hi => cases h
  | ger lo hi => cases h
  | ser lo hi => cases h
  | _ => rfl

theorem nextDataAccesses_of_some (hnext : board.nextInstruction? = some i) :
    board.nextDataAccesses = (board.reached i).dataAccesses i := by
  rw [nextDataAccesses, hnext]

theorem dataAccesses_of_strays (h : i.stray? board.machine.registers.sp.toNat = some address) :
    board.dataAccesses i = [] := by
  have huse := dataUse?_of_strays h
  rw [dataAccesses, huse]

omit [Device σ] in
theorem ip_cutShort (board : Board σ) (i : Instruction) :
    (board.cutShort i).machine.registers.ip = board.machine.registers.ip := by
  rcases board.cutShort_cases i with hcut | ⟨value, hcut⟩ | hcut <;>
    exact congrArg (·.machine.registers.ip) hcut

end Steps

/-- **A step faults exactly where exact arithmetic leaves the address space, or the opcode byte is not in the table.** -/
theorem step_faults_exactly (board : Board σ) : board.FaultsExactly where
  stopped h := if_pos h
  going h := if_neg (by simp [h])
  wrapped _ hafter := hafter.settled.1.consistent
  outOfRange := board.step_eq_outOfRange_iff
  invalidOpcode := board.step_eq_invalidOpcode_iff
  succeeds hroom hknown hinside := by
    obtain ⟨i, hnext⟩ := exists_nextInstruction hroom hknown
    exact exists_ok_step hnext (hinside i hnext)
  fetchedFirst := by
    intro i address hnext hstray
    have hfetched := fetches_of_some hnext
    refine ⟨hfetched, ?_, ?_⟩
    · rw [← sp_awake, ← sp_reached board.awake i] at hstray
      have hdata := dataAccesses_of_strays hstray
      rw [accesses_eq, nextDataAccesses_of_some hnext, hfetched, resumeAddress_eq, hdata, List.append_nil]
    · have hip := ip_cutShort (board.awake.reached i) i
      rw [step_of_strays hnext hstray, resumeAddress_eq]
      exact hip

end Board

end ByteMachine
