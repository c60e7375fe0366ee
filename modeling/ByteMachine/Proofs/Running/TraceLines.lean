/-
The line before a step. It shows what a listing shows in memory at the instruction pointer, while the step fetches through
the window and knows where the last address was. The line tells what the step executes exactly where the two agree.

- `Chunk.bytes_eq_of_text_eq`: a text stands for one list of bytes.
- `Board.chunkAt_eq`: what a listing shows there if memory holds the bytes that the step fetches.
- `Board.traceLine_shows_step`: when the line shows what is fetched, and what it says about faults.
-/
import Mathlib.Tactic
import ByteMachine.Proofs.Execution.Alike
import ByteMachine.Proofs.Execution.Views
import ByteMachine.Proofs.Listing.Reassembly
import ByteMachine.Proofs.Running.Trace

namespace ByteMachine

open Command.Runner

/-! ## Chunks and their texts -/

/-- lines that are the same emit the same bytes -/
theorem Chunk.bytes_eq_of_text_eq {c d : Chunk} (hc : c.bytes.length ≤ 0x10000) (hd : d.bytes.length ≤ 0x10000)
    (h : c.text = d.text) : c.bytes = d.bytes := by
  have hassembled : ∀ chunk : Chunk, chunk.bytes.length ≤ 0x10000 →
      assemble chunk.text 0 = .ok ⟨chunk.bytes, 0, []⟩ := by
    intro chunk hlength
    have hline := assemble_of_emits [(chunk.text, chunk.bytes)] 0 (by simpa using chunk.isLine_text)
      (by simpa using chunk.emits) (by simpa using hlength)
    simpa using hline
  have hsame := hassembled c hc
  rw [h, hassembled d hd] at hsame
  exact (Assembly.mk.inj (Except.ok.inj hsame)).1.symm

/-- the first chunk is the instruction that the bytes begin with -/
theorem Chunk.first_encode_append (i : Instruction) (rest : List Byte) :
    first i.opcode.code (i.operands ++ rest) = (instruction i, rest) := by
  simp [first, Opcode.ofCode?_code]

/-! ## Bytes in memory -/

namespace Memory

variable {memory : Memory} {address : Word} {count : Nat}

theorem length_slice : (memory.slice address count).length = min count (size - address.toNat) := by
  simp [slice]

theorem holds_slice : memory.Holds address.toNat (memory.slice address count) := by
  intro i hi
  simp only [slice, List.getElem_map, List.getElem_range, UInt16.ofNat_add, UInt16.ofNat_toNat]

/-- bytes that memory holds begin every slice that is long enough -/
theorem begins_slice_of_holds {bytes : List Byte} (h : memory.Holds address.toNat bytes)
    (hlength : bytes.length ≤ (memory.slice address count).length) : bytes <+: memory.slice address count := by
  rw [List.prefix_iff_eq_take]
  refine List.ext_getElem (by rw [List.length_take, Nat.min_eq_left hlength]) fun i hi hi' => ?_
  rw [List.getElem_take, ← h i hi, ← holds_slice i (Nat.lt_of_lt_of_le hi hlength)]

theorem Holds.of_begins {start : Nat} {bytes more : List Byte} (h : memory.Holds start more) (hbegins : bytes <+: more) :
    memory.Holds start bytes := by
  intro i hi
  rw [h i (Nat.lt_of_lt_of_le hi hbegins.length_le), hbegins.getElem hi]

end Memory

namespace Machine

variable (machine : Machine) (address : Word)

/-- a chunk is cut from up to three bytes, the first of which is always there -/
theorem slice_eq_cons :
    machine.memory.slice address 3 = machine.memory.read address :: (machine.memory.slice address 3).drop 1 := by
  have hlength : 0 < (machine.memory.slice address 3).length := by
    have haddress := address.toNat_lt
    rw [Memory.length_slice, Memory.size]
    omega
  have hfirst := Memory.holds_slice 0 hlength
  rw [Nat.add_zero, UInt16.ofNat_toNat] at hfirst
  rw [hfirst, List.getElem_cons_drop, List.drop_zero]

theorem bytes_chunkAt_begins : (machine.chunkAt address).bytes <+: machine.memory.slice address 3 := by
  rw [slice_eq_cons]
  exact ⟨_, Chunk.bytes_first_append _ _⟩

theorem chunkAt_of_slice_eq {machine : Machine} {address : Word} {code : Byte} {rest : List Byte}
    (h : machine.memory.slice address 3 = code :: rest) : machine.chunkAt address = (Chunk.first code rest).1 := by
  have hcons := slice_eq_cons machine address
  rw [h, List.drop_one, List.tail_cons] at hcons
  rw [chunkAt, h, (List.cons.inj hcons).1]
  rfl

end Machine

theorem Opcode.lengthFrom_le (code : Byte) : lengthFrom code ≤ 3 := by
  unfold lengthFrom
  cases ofCode? code with
  | none => decide
  | some op => cases op <;> decide

namespace Board

variable {σ : Type} [Device σ]

/-! ## What is fetched -/

/-- what the fetch comes to: an instruction, or bytes that are none -/
def fetchedChunk (board : Board σ) : Chunk :=
  match board.nextInstruction? with
  | some i => .instruction i
  | none => .data board.fetches.1

/-- what is fetched are the bytes of memory at the instruction pointer -/
structure FetchesMemory (board : Board σ) : Prop where
  within : board.machine.registers.pastEnd = false
  held : board.machine.memory.Holds board.machine.registers.ip.toNat board.fetches.1

variable {board : Board σ}

theorem length_fetches_le (board : Board σ) : board.fetches.1.length ≤ min 3 board.room := by
  rw [fetches, Memory.length_viewAll]
  have hlength := Opcode.lengthFrom_le (board.machine.memory.view board.device board.machine.registers.ip).1
  omega

theorem bytes_fetchedChunk (board : Board σ) : board.fetchedChunk.bytes = board.fetches.1 := by
  have hends := Exec.fetchInstruction_ends board
  cases hrun : Exec.fetchInstruction.run board with
  | ok i after =>
    rw [hrun] at hends
    rw [fetchedChunk, (Exec.nextInstruction?_of_ok hends).1]
    cases hends with
    | whole hfetched => exact hfetched.symm
  | error cause after =>
    rw [hrun] at hends
    rw [fetchedChunk, Exec.nextInstruction?_of_error hends]
    rfl

omit [Device σ] in
theorem length_slice_ip (h : board.machine.registers.pastEnd = false) :
    (board.machine.memory.slice board.machine.registers.ip 3).length = min 3 board.room := by
  rw [Memory.length_slice, room, if_neg (by simp [h])]

/-- **Where the fetch sees memory, a listing shows what is fetched.** -/
theorem chunkAt_eq (h : board.FetchesMemory) :
    board.machine.chunkAt board.machine.registers.ip = board.fetchedChunk := by
  have hlength := length_slice_ip h.within
  obtain ⟨more, hslice⟩ := Memory.begins_slice_of_holds h.held (hlength ▸ board.length_fetches_le)
  have hends := Exec.fetchInstruction_ends board
  generalize Exec.fetchInstruction.run board = fetched at hends
  cases hends with
  | @whole i hfetched =>
    have hnext := (Exec.nextInstruction?_of_ok (.whole hfetched)).1
    rw [hfetched, Instruction.encode, List.cons_append] at hslice
    rw [Machine.chunkAt_of_slice_eq hslice.symm, Chunk.first_encode_append, fetchedChunk, hnext]
  | unknown hfetched hunknown =>
    have hnext := Exec.nextInstruction?_of_error (.unknown hfetched hunknown)
    rw [hfetched, List.singleton_append] at hslice
    rw [Machine.chunkAt_of_slice_eq hslice.symm, fetchedChunk, hnext, hfetched]
    simp [Chunk.first, hunknown]
  | @cut op operands hfetched hless hroom =>
    have hnext := Exec.nextInstruction?_of_error (.cut hfetched hless hroom)
    -- the slice ends where the fetch ended
    obtain rfl : more = [] := by
      have htwo : op.operands.length ≤ 2 := by cases op <;> decide
      rw [hfetched] at hslice
      rw [← hslice, List.length_append, List.length_cons] at hlength
      rw [← List.length_eq_zero_iff]
      omega
    rw [hfetched, List.append_nil] at hslice
    rw [Machine.chunkAt_of_slice_eq hslice.symm, fetchedChunk, hnext, hfetched]
    simp [Chunk.first, Instruction.decode?_eq_none hless]
  | past _ hroom =>
    have hpast := pastEnd_of_room_eq_zero hroom
    rw [h.within] at hpast
    cases hpast

/-- a listing shows other bytes anywhere else -/
theorem fetchesMemory_of_text_eq (h : (board.machine.chunkAt board.machine.registers.ip).text = board.fetchedChunk.text) :
    board.FetchesMemory := by
  have hbegins := board.machine.bytes_chunkAt_begins board.machine.registers.ip
  have hlength : (board.machine.memory.slice board.machine.registers.ip 3).length ≤ 3 := by
    rw [Memory.length_slice]
    exact Nat.min_le_left _ _
  have hfetches := board.length_fetches_le
  have hbytes : (board.machine.chunkAt board.machine.registers.ip).bytes = board.fetches.1 := by
    rw [← bytes_fetchedChunk]
    refine Chunk.bytes_eq_of_text_eq ?_ ?_ h
    · exact (hbegins.length_le.trans hlength).trans (by decide)
    · rw [bytes_fetchedChunk]
      omega
  refine ⟨?_, ?_⟩
  · -- a listing shows a byte at least, and past the last address none is fetched
    by_contra hpast
    have hroom : board.room = 0 := by rw [room, if_pos (by simpa using hpast)]
    have hnone : board.fetches.1 = [] := List.length_eq_zero_iff.1 (by omega)
    rw [hnone] at hbytes
    exact Chunk.bytes_first_ne_nil _ _ hbytes
  · rw [← hbytes]
    exact Memory.holds_slice.of_begins hbegins

/-! ## The line before a step -/

omit [Device σ] in
theorem chunkAt_awake (board : Board σ) (address : Word) :
    board.awake.machine.chunkAt address = board.machine.chunkAt address := by
  rw [Machine.chunkAt, memory_awake]
  rfl

/-- the line that tells what is fetched -/
def fetchLine (board : Board σ) : String :=
  Text.hex 4 board.machine.registers.ip.toNat ++ ": " ++ board.fetchedChunk.text

/-- an instruction that was fetched does not fail over its opcode -/
theorem step_ne_invalidOpcode {i : Instruction} (h : board.awake.nextInstruction? = some i) (start : Word)
    (code : Byte) : board.step.1 ≠ .error ⟨start, .invalidOpcode code⟩ := by
  rw [step_eq_of_some h]
  cases hrun : (execute i).run (board.awake.reached i) with
  | ok value after =>
    rw [conclude]
    split_ifs <;> simp
  | error cause after =>
    obtain ⟨address, rfl⟩ := Exec.cause_of_execute hrun
    simp [conclude]

/-- what is fetched is no instruction exactly if the step fails over an opcode or over a fetch after the last address -/
theorem nextInstruction?_eq_none_iff (board : Board σ) :
    board.awake.nextInstruction? = none ↔
      (∃ code, board.step.1 = .error ⟨board.awake.machine.registers.ip, .invalidOpcode code⟩) ∨
        ∃ after, Exec.fetchInstruction.run board.awake = .error (.outOfRange Memory.size) after := by
  constructor
  · intro hnone
    obtain ⟨cause, after, hends, hrun⟩ := Exec.run_fetchInstruction_of_none hnone
    have hstep := board.step_eq
    rw [Exec.cycle, Exec.run_bind_of_error hrun] at hstep
    cases hends with
    | unknown _ _ => exact .inl ⟨_, congrArg Prod.fst hstep⟩
    | cut _ _ _ => exact .inr ⟨_, hrun⟩
    | past _ _ => exact .inr ⟨_, hrun⟩
  · rintro (⟨code, hfault⟩ | ⟨after, hrun⟩)
    · rw [Option.eq_none_iff_forall_ne_some]
      intro i hnext
      exact step_ne_invalidOpcode hnext _ code hfault
    · have hends := Exec.fetchInstruction_ends board.awake
      rw [hrun] at hends
      exact Exec.nextInstruction?_of_error hends

theorem exists_data_iff (board : Board σ) :
    (∃ bytes, board.fetchedChunk = .data bytes) ↔ board.nextInstruction? = none := by
  rw [fetchedChunk]
  cases board.nextInstruction? <;> simp

/-- **The line before a step** tells what the step fetches exactly if the fetch sees memory, before the end of it. It then
shows data exactly if the step fails over an opcode or over a fetch after the last address. What is fetched, if it is an
instruction, is what the step executes. -/
theorem traceLine_shows_step (board : Board σ) :
    (traceLine board.machine = board.awake.fetchLine ↔ board.awake.FetchesMemory) ∧
      (board.awake.FetchesMemory →
        ((∃ bytes, board.machine.chunkAt board.machine.resumeAddress = .data bytes) ↔
          (∃ code, board.step.1 = .error ⟨board.awake.machine.registers.ip, .invalidOpcode code⟩) ∨
            ∃ after, Exec.fetchInstruction.run board.awake = .error (.outOfRange Memory.size) after)) ∧
      ∀ i, board.awake.nextInstruction? = some i →
        board.step = conclude board.awake.machine.registers.ip ((execute i).run (board.awake.reached i)) := by
  have hshown := chunkAt_awake board board.awake.machine.registers.ip
  refine ⟨?_, fun h => ?_, fun i h => step_eq_of_some h⟩
  · rw [traceLine, fetchLine, resumeAddress_eq, String.append_right_inj, ← hshown]
    exact ⟨fetchesMemory_of_text_eq, fun h => by rw [chunkAt_eq h]⟩
  · rw [resumeAddress_eq, ← hshown, chunkAt_eq h, exists_data_iff, nextInstruction?_eq_none_iff]

/-- the line and the fetch of the halting console agree, on an instruction -/
theorem haltingConsole_traceLine :
    haltingConsole.awake.FetchesMemory ∧ traceLine haltingConsole.machine = "0010: hlt" ∧
      ¬ ∃ bytes, haltingConsole.machine.chunkAt haltingConsole.machine.resumeAddress = .data bytes := by
  have hnext : haltingConsole.awake.nextInstruction? = some .hlt := by decide +kernel
  obtain ⟨hline, hdata, -⟩ := traceLine_shows_step haltingConsole
  have hsees : haltingConsole.awake.FetchesMemory := hline.1 (by decide +kernel)
  refine ⟨hsees, by decide +kernel, ?_⟩
  rw [hdata hsees, ← nextInstruction?_eq_none_iff, hnext]
  exact nofun

/-- a new machine that starts at the first address of the window, with a byte of memory there that is under it -/
def windowConsole : Board Console :=
  ⟨{ Machine.initial with
      memory := Memory.zero.writeAll 0 [0x00, 0xe0] |>.write 0xe000 0xff }, ⟨Screen.initial, #[]⟩⟩

/-- the line shows the byte of memory, and the screen answers the fetch with zeros -/
theorem windowConsole_traceLine :
    traceLine windowConsole.machine = "e000: hlt" ∧ windowConsole.awake.nextInstruction? = some (.num 0 0) ∧
      windowConsole.awake.fetchLine = "e000: num a 0x00" ∧ windowConsole.step.1 = .ok .paused ∧
      traceLine windowConsole.machine ≠ windowConsole.awake.fetchLine := by
  have hline : traceLine windowConsole.machine = "e000: hlt" := by decide +kernel
  have hfetched : windowConsole.awake.fetchLine = "e000: num a 0x00" := by decide +kernel
  refine ⟨hline, by decide +kernel, hfetched, by decide +kernel, ?_⟩
  rw [hline, hfetched]
  decide

end Board

end ByteMachine
