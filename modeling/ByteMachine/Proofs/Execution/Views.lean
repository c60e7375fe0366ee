/-
What programs see, and what a step fetches of it. An address in the window shows what the device answers there, which may
be something else every time; any other address shows the byte in memory.

- `Memory.viewAll`: the bytes at consecutive addresses, seen one after the other.
- `Board.fetches`: the bytes that a step fetches: an opcode, and the operands that it takes as far as there are addresses.
- `Exec.fetchInstruction_ends`: an instruction is fetched if all these bytes are there, and otherwise nothing is executed.
-/
import Mathlib.Tactic
import ByteMachine.Proofs.Execution.Fetch
import ByteMachine.Proofs.Listing.Chunks

namespace ByteMachine

variable {σ : Type} [Device σ]

/-! ## Seeing bytes -/

namespace Memory

variable (memory : Memory)

/-- the bytes that programs see from an address on, one after the other, and the device after they looked -/
def viewAll (device : σ) (address : Word) : (count : Nat) → List Byte × σ
  | 0 => ([], device)
  | count + 1 =>
    let (value, device) := memory.view device address
    let (values, device) := viewAll device (address + 1) count
    (value :: values, device)

theorem viewAll_succ (device : σ) (address : Word) (count : Nat) :
    memory.viewAll device address (count + 1) =
      ((memory.view device address).1 ::
          (memory.viewAll (memory.view device address).2 (address + 1) count).1,
        (memory.viewAll (memory.view device address).2 (address + 1) count).2) := rfl

theorem length_viewAll (device : σ) (address : Word) (count : Nat) :
    (memory.viewAll device address count).1.length = count := by
  induction count generalizing device address with
  | zero => rfl
  | succ count ih => rw [viewAll_succ, List.length_cons, ih]

/-- the last byte is seen after all others -/
theorem viewAll_concat (device : σ) (address : Word) (count : Nat) :
    memory.viewAll device address (count + 1) =
      ((memory.viewAll device address count).1 ++
          [(memory.view (memory.viewAll device address count).2 (address + UInt16.ofNat count)).1],
        (memory.view (memory.viewAll device address count).2 (address + UInt16.ofNat count)).2) := by
  induction count generalizing device address with
  | zero => simp [viewAll]
  | succ count ih =>
    have hnext : address + UInt16.ofNat (count + 1) = address + 1 + UInt16.ofNat count := by
      rw [UInt16.ofNat_add, UInt16.add_assoc, UInt16.add_comm (UInt16.ofNat count)]
      rfl
    rw [viewAll_succ, ih, hnext, viewAll_succ memory device]
    rfl

end Memory

/-! ## What a step fetches -/

/-- an instruction that is cut off is none -/
theorem Instruction.decode?_eq_none {op : Opcode} {operands : List Byte} (h : operands.length < op.operands.length) :
    decode? op.code operands = none := by
  rw [Option.eq_none_iff_forall_ne_some]
  rintro ⟨i, left⟩ hdecode
  have hencode := encode_append_of_decode? hdecode
  obtain ⟨hcode, hoperands⟩ : i.opcode.code = op.code ∧ i.operands ++ left = operands := List.cons.inj hencode
  obtain rfl : i.opcode = op := by
    have hop := Opcode.ofCode?_code i.opcode
    rw [hcode, Opcode.ofCode?_code] at hop
    exact (Option.some.inj hop).symm
  rw [← hoperands, List.length_append, i.length_operands] at h
  omega

/-- the number of bytes of the instruction that starts with a byte; one if the byte is no opcode -/
def Opcode.lengthFrom (code : Byte) : Nat := ((Opcode.ofCode? code).map Opcode.size).getD 1

namespace Board

variable (board : Board σ)

omit [Device σ] in
/-- the number of addresses from the instruction pointer on -/
def room : Nat :=
  if board.machine.registers.pastEnd then 0 else Memory.size - board.machine.registers.ip.toNat

/-- the bytes that are fetched from the instruction pointer on, and the device after -/
def fetches : List Byte × σ :=
  let ip := board.machine.registers.ip
  let code := (board.machine.memory.view board.device ip).1
  board.machine.memory.viewAll board.device ip (min (Opcode.lengthFrom code) board.room)

/-- the instruction that is fetched, if all of its bytes are there -/
def nextInstruction? : Option Instruction :=
  match board.fetches.1 with
  | [] => none
  | code :: rest => (Instruction.decode? code rest).map (·.1)

/-- the board after that many bytes were fetched -/
def seen (count : Nat) : Board σ :=
  (board.withDevice (board.machine.memory.viewAll board.device board.machine.registers.ip count).2).past count

/-- the board on which the instruction that was fetched is executed -/
def reached (i : Instruction) : Board σ := (board.withDevice board.fetches.2).entered i

/-- how the fetch of an instruction ends, and on which board -/
inductive FetchEnds : EStateM.Result Fault.Cause (Board σ) Instruction → Prop
  /-- all bytes are there -/
  | whole {i : Instruction} : board.fetches.1 = i.encode → FetchEnds (.ok i (board.reached i))
  /-- the first byte is no opcode -/
  | unknown {code : Byte} :
      board.fetches.1 = [code] → Opcode.ofCode? code = none → FetchEnds (.error (.invalidOpcode code) (board.seen 1))
  /-- the last address comes before the last operand -/
  | cut {op : Opcode} {operands : List Byte} :
      board.fetches.1 = op.code :: operands → operands.length < op.operands.length → operands.length + 1 = board.room →
        FetchEnds (.error (.outOfRange Memory.size) ((board.counted op.category).seen board.room))
  /-- the last address comes before the first byte -/
  | past : board.fetches.1 = [] → board.room = 0 → FetchEnds (.error (.outOfRange Memory.size) board)

variable {board}

omit [Device σ] in
theorem pastEnd_of_room_eq_zero (h : board.room = 0) : board.machine.registers.pastEnd = true := by
  have hip := board.machine.registers.ip.toNat_lt
  by_contra hpast
  rw [room, if_neg hpast, Memory.size] at h
  omega

omit [Device σ] in
theorem within_of_lt_room {count : Nat} (h : count < board.room) :
    board.machine.registers.pastEnd = false ∧ board.machine.registers.ip.toNat + count < Memory.size := by
  rw [room] at h
  split at h
  · omega
  · rename_i hpast
    exact ⟨by simpa using hpast, by omega⟩

omit [Device σ] in
theorem room_le_size : board.machine.registers.ip.toNat + board.room ≤ Memory.size ∨ board.room = 0 := by
  have hip := board.machine.registers.ip.toNat_lt
  rw [room, Memory.size]
  split
  · exact .inr rfl
  · exact .inl (by omega)

/-- one more byte is seen where the instruction pointer is -/
theorem seen_succ {count : Nat} (h : board.machine.registers.ip.toNat + count < Memory.size) :
    board.seen (count + 1) =
      ((board.seen count).withDevice ((board.seen count).machine.memory.view (board.seen count).device
        (board.seen count).machine.registers.ip).2).past 1 := by
  have hdevice := congrArg Prod.snd
    (Memory.viewAll_concat board.machine.memory board.device board.machine.registers.ip count)
  have hpast := @past_past_one _ (board.withDevice
    (board.machine.memory.viewAll board.device board.machine.registers.ip (count + 1)).2) count h
  rw [seen, ← hpast, hdevice]
  rfl

theorem seen_zero (h : board.machine.registers.pastEnd = false) : board.seen 0 = board := past_zero h

end Board

/-! ## Fetching -/

namespace Exec

/-- the next byte that programs see is fetched, while there is one -/
theorem run_fetch_seen {board : Board σ} {count : Nat} (h : count < board.room) :
    ∃ value, (board.machine.memory.viewAll board.device board.machine.registers.ip (count + 1)).1 =
        (board.machine.memory.viewAll board.device board.machine.registers.ip count).1 ++ [value] ∧
      fetch.run (board.seen count) = .ok value (board.seen (count + 1)) := by
  obtain ⟨-, hhere⟩ := Board.within_of_lt_room h
  have hpast : (board.seen count).machine.registers.pastEnd = false := Board.pastEnd_past hhere
  refine ⟨_, congrArg Prod.fst (Memory.viewAll_concat _ _ _ _), ?_⟩
  rw [run_fetch_view hpast, Board.seen_succ hhere]
  rfl

/-- after the last address nothing is fetched -/
theorem run_fetch_end {board : Board σ} {count : Nat} (hpositive : 0 < count) (h : count = board.room) :
    fetch.run (board.seen count) = .error (.outOfRange Memory.size) (board.seen count) := by
  refine run_fetch_of_pastEnd (Board.pastEnd_past_eq_true_iff.2 ?_)
  rcases board.room_le_size with hroom | hroom
  · have hwithin := @Board.within_of_lt_room _ board 0 (by omega)
    rw [Board.room, if_neg (by simp [hwithin.1])] at h
    simp only [Board.withDevice, Memory.size] at hwithin h ⊢
    omega
  · omega

section Operands

variable {board : Board σ} {code : Byte}

theorem fetches_eq
    (h : (board.machine.memory.viewAll board.device board.machine.registers.ip 1).1 = [code]) :
    board.fetches = board.machine.memory.viewAll board.device board.machine.registers.ip
      (min (Opcode.lengthFrom code) board.room) := by
  rw [Memory.viewAll_succ] at h
  obtain ⟨rfl, -⟩ := List.cons.inj h
  rfl

variable {op : Opcode}
  (hcode : (board.machine.memory.viewAll board.device board.machine.registers.ip 1).1 = [op.code])

include hcode

theorem fetches_eq_of_opcode :
    board.fetches =
      board.machine.memory.viewAll board.device board.machine.registers.ip (min op.size board.room) := by
  have hlength : Opcode.lengthFrom op.code = op.size := by
    rw [Opcode.lengthFrom, Opcode.ofCode?_code]
    rfl
  rw [fetches_eq hcode, hlength]

/-- all operands are there -/
theorem fetchEnds_whole {i : Instruction} (hop : i.opcode = op) (hroom : i.encode.length ≤ board.room)
    (hencode :
      (board.machine.memory.viewAll board.device board.machine.registers.ip i.encode.length).1 = i.encode) :
    board.FetchEnds (.ok i ((board.counted op.category).seen i.encode.length)) := by
  subst hop
  have hfetches := fetches_eq_of_opcode hcode
  rw [← i.length_encode, Nat.min_eq_left hroom] at hfetches
  have hreached : board.reached i = (board.counted i.opcode.category).seen i.encode.length := by
    rw [Board.reached, hfetches]
    rfl
  rw [← hreached]
  exact .whole (by rw [hfetches, hencode])

/-- there are no addresses left for the last operand -/
theorem fetchEnds_cut {operands : List Byte} (hroom : operands.length + 1 = board.room)
    (hless : operands.length < op.operands.length)
    (hoperands :
      (board.machine.memory.viewAll board.device board.machine.registers.ip (operands.length + 1)).1 =
        op.code :: operands) :
    board.FetchEnds
      (.error (.outOfRange Memory.size) ((board.counted op.category).seen (operands.length + 1))) := by
  have hfetches := fetches_eq_of_opcode hcode
  have hcount : min op.size board.room = operands.length + 1 := by
    rw [Opcode.size]
    omega
  rw [hcount] at hfetches
  rw [hroom]
  exact .cut (by rw [hfetches, hoperands]) hless hroom

/-- what is left of the fetch of an instruction when its opcode is known -/
theorem fetchOperands_ends (hroom : 0 < board.room) :
    board.FetchEnds ((do
      count op.category
      match op.form with
      | .nullary i => return i
      | .unary f => return f (← fetch)
      | .binary f =>
        let x ← fetch
        let y ← fetch
        return f x y : Exec σ Instruction).run (board.seen 1)) := by
  -- the operands are fetched from the board on which the opcode was counted
  have hnext := fun n => @run_fetch_seen _ _ (board.counted op.category) n
  have hend := fun n => @run_fetch_end _ _ (board.counted op.category) n
  have hcounted : (board.seen 1).counted op.category = (board.counted op.category).seen 1 := rfl
  have hform := op.form_makes
  rw [EStateM.run_bind, run_count, hcounted]
  simp only
  cases hf : op.form with
  | nullary i =>
    rw [hf] at hform
    obtain ⟨hi, hoperands⟩ := hform
    have hencode : i.encode = [op.code] := by rw [Instruction.encode, hi, hoperands]
    have hends := fetchEnds_whole hcode hi (by rw [hencode]; exact hroom) (by rw [hencode]; exact hcode)
    rw [hencode] at hends
    exact hends
  | unary f =>
    rw [hf] at hform
    have hoperands : op.operands.length = 1 := by
      rw [← (hform 0).1, ← (f 0).length_operands, (hform 0).2]
      rfl
    rcases Nat.lt_or_ge 1 board.room with htwo | hlast
    · obtain ⟨x, hx, hfetch⟩ := hnext 1 htwo
      have hencode : (f x).encode = [op.code, x] := by rw [Instruction.encode, (hform x).1, (hform x).2]
      have hends := fetchEnds_whole hcode (hform x).1 (by rw [hencode]; exact htwo)
        (by rw [hencode]; exact hx.trans (congrArg (· ++ [x]) hcode))
      rw [hencode] at hends
      simp only [EStateM.run_bind, hfetch]
      exact hends
    · have hfetch := hend 1 Nat.one_pos (Nat.le_antisymm hroom hlast)
      simp only [EStateM.run_bind, hfetch]
      exact @fetchEnds_cut _ _ _ _ hcode [] (Nat.le_antisymm hroom hlast) (by rw [hoperands]; exact Nat.one_pos) hcode
  | binary f =>
    rw [hf] at hform
    have hoperands : op.operands.length = 2 := by
      rw [← (hform 0 0).1, ← (f 0 0).length_operands, (hform 0 0).2]
      rfl
    rcases Nat.lt_or_ge 1 board.room with htwo | hlast
    · obtain ⟨x, hx, hfetchx⟩ := hnext 1 htwo
      have hcodex := hx.trans (congrArg (· ++ [x]) hcode)
      rcases Nat.lt_or_ge 2 board.room with hthree | hlast
      · obtain ⟨y, hy, hfetchy⟩ := hnext 2 hthree
        have hencode : (f x y).encode = [op.code, x, y] := by
          rw [Instruction.encode, (hform x y).1, (hform x y).2]
        have hends := fetchEnds_whole hcode (hform x y).1 (by rw [hencode]; exact hthree)
          (by rw [hencode]; exact hy.trans (congrArg (· ++ [y]) hcodex))
        rw [hencode] at hends
        simp only [EStateM.run_bind, hfetchx, hfetchy]
        exact hends
      · have hfetch := hend 2 Nat.two_pos (Nat.le_antisymm htwo hlast)
        simp only [EStateM.run_bind, hfetchx, hfetch]
        exact @fetchEnds_cut _ _ _ _ hcode [x] (Nat.le_antisymm htwo hlast)
          (by rw [hoperands]; exact Nat.one_lt_two) hcodex
    · have hfetch := hend 1 Nat.one_pos (Nat.le_antisymm hroom hlast)
      simp only [EStateM.run_bind, hfetch]
      exact @fetchEnds_cut _ _ _ _ hcode [] (Nat.le_antisymm hroom hlast) (by rw [hoperands]; exact Nat.two_pos) hcode

end Operands

/-- **An instruction is fetched if all of its bytes are there,** and otherwise the fetch ends in a fault. -/
theorem fetchInstruction_ends (board : Board σ) : board.FetchEnds (fetchInstruction.run board) := by
  rw [fetchInstruction, EStateM.run_bind]
  by_cases hroom : board.room = 0
  · rw [run_fetch_of_pastEnd (Board.pastEnd_of_room_eq_zero hroom)]
    refine .past ?_ hroom
    rw [Board.fetches, hroom, Nat.min_zero]
    rfl
  · have hfirst : 0 < board.room := Nat.pos_of_ne_zero hroom
    obtain ⟨hpast, -⟩ := Board.within_of_lt_room hfirst
    obtain ⟨code, hcode, hfetch⟩ := run_fetch_seen hfirst
    have hfetches := fetches_eq hcode
    rw [Board.seen_zero hpast] at hfetch
    rw [hfetch]
    simp only
    cases hop : Opcode.ofCode? code with
    | none =>
      have hlength : min (Opcode.lengthFrom code) board.room = 1 := by
        rw [Opcode.lengthFrom, hop]
        exact Nat.min_eq_left hfirst
      rw [hlength] at hfetches
      exact .unknown (by rw [hfetches]; exact hcode) hop
    | some op =>
      obtain rfl := Opcode.ofCode?_eq_some_iff.1 hop
      exact fetchOperands_ends hcode hfirst

/-! ## Cycles -/

section Cycles

variable {board after : Board σ} {i : Instruction} {cause : Fault.Cause}

theorem nextInstruction?_of_ok (h : board.FetchEnds (.ok i after)) :
    board.nextInstruction? = some i ∧ after = board.reached i := by
  cases h with
  | whole hfetched =>
    refine ⟨?_, rfl⟩
    have hdecode := i.decode?_encode []
    rw [List.append_nil] at hdecode
    simp only [Board.nextInstruction?, hfetched, Instruction.encode, hdecode, Option.map_some]

theorem nextInstruction?_of_error (h : board.FetchEnds (.error cause after)) : board.nextInstruction? = none := by
  cases h with
  | unknown hfetched hunknown => simp [Board.nextInstruction?, hfetched, Instruction.decode?, hunknown]
  | cut hfetched hless _ => simp [Board.nextInstruction?, hfetched, Instruction.decode?_eq_none hless]
  | past hfetched _ => simp [Board.nextInstruction?, hfetched]

/-- the next instruction is fetched, -/
theorem run_fetchInstruction_of_some (h : board.nextInstruction? = some i) :
    fetchInstruction.run board = .ok i (board.reached i) := by
  have hends := fetchInstruction_ends board
  cases hfetch : fetchInstruction.run board with
  | ok j after =>
    rw [hfetch] at hends
    obtain ⟨hj, rfl⟩ := nextInstruction?_of_ok hends
    obtain rfl := Option.some.inj (h.symm.trans hj)
    rfl
  | error cause after =>
    rw [hfetch] at hends
    rw [nextInstruction?_of_error hends] at h
    cases h

/-- and where there is none the fetch ends in a fault -/
theorem run_fetchInstruction_of_none (h : board.nextInstruction? = none) :
    ∃ cause after, board.FetchEnds (.error cause after) ∧ fetchInstruction.run board = .error cause after := by
  have hends := fetchInstruction_ends board
  cases hfetch : fetchInstruction.run board with
  | ok j after =>
    rw [hfetch] at hends
    rw [(nextInstruction?_of_ok hends).1] at h
    cases h
  | error cause after =>
    rw [hfetch] at hends
    exact ⟨cause, after, hends, rfl⟩

/-- **A cycle executes the instruction that was fetched,** -/
theorem run_cycle_of_some (h : board.nextInstruction? = some i) :
    cycle.run board = (execute i).run (board.reached i) := by
  rw [cycle, run_bind_of_ok (run_fetchInstruction_of_some h)]

/-- and nothing if there was none -/
theorem run_cycle_of_none (h : board.nextInstruction? = none) :
    ∃ cause after, board.FetchEnds (.error cause after) ∧ cycle.run board = .error cause after := by
  obtain ⟨cause, after, hends, hfetch⟩ := run_fetchInstruction_of_none h
  exact ⟨cause, after, hends, run_bind_of_error hfetch _⟩

end Cycles

end Exec

/-! ## Steps -/

theorem Board.step_eq_of_some {board : Board σ} {i : Instruction} (h : board.awake.nextInstruction? = some i) :
    board.step = conclude board.awake.machine.registers.ip ((execute i).run (board.awake.reached i)) := by
  rw [step_eq, Exec.run_cycle_of_some h]

end ByteMachine
