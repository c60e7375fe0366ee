/-
What a listing shows in memory and what the machine does there. Where the device hides nothing, the line at the
instruction pointer tells what the next step does: it shows data exactly where the step has no instruction to execute, and
otherwise the instruction that the step executes. The next line stands where that goes on.

- `Machine.head?_chunks`: the line is the first of a listing of all memory from the address on.
- `Machine.chunkAt_of_unknown`, `Machine.chunkAt_of_cut`, `Machine.chunkAt_of_room`: the three kinds of lines.
- `Exec.execute_goes_on`: where an instruction goes on that leaves the instruction pointer alone.
- `Board.listing_tells_step`: the line and the step.
-/
import Mathlib.Tactic
import ByteMachine.Proofs.Execution.Changes
import ByteMachine.Proofs.Execution.Faults
import ByteMachine.Proofs.Execution.Lines
import ByteMachine.Proofs.Execution.RegisterFile
import ByteMachine.Proofs.Running.TraceLines

namespace ByteMachine

/-! ## Lines -/

/-- the word that a line of source text starts with -/
def Text.firstWord? (text : String) : Option String := ((Token.ofLine text).map (·.text)).head?

namespace Chunk

theorem firstWord?_text (chunk : Chunk) : Text.firstWord? chunk.text = chunk.words.head? := by
  rw [Text.firstWord?, ofLine_text]

theorem firstWord?_instruction (i : Instruction) :
    Text.firstWord? (instruction i).text = some i.opcode.mnemonic := firstWord?_text _

theorem firstWord?_data (values : List Byte) : Text.firstWord? (data values).text = some Mnemonic.dataText :=
  firstWord?_text _

/-- where there are bytes for all operands, the first chunk is an instruction -/
theorem first_of_fits {op : Opcode} {rest : List Byte} (h : op.operands.length ≤ rest.length) :
    ∃ i, i.opcode = op ∧ ∀ more, (first op.code (rest ++ more)).1 = instruction i := by
  have htake : (rest.take op.operands.length).length = op.operands.length := by rw [List.length_take, Nat.min_eq_left h]
  obtain ⟨i, rfl, hoperands⟩ := op.exists_instruction htake
  refine ⟨i, rfl, fun more => ?_⟩
  rw [← List.take_append_drop i.opcode.operands.length rest, ← hoperands, List.append_assoc, first_encode_append]

theorem first_of_unknown {code : Byte} (h : Opcode.ofCode? code = none) (rest : List Byte) :
    (first code rest).1 = data [code] := by
  simp only [first, h]

/-- where there are not, it is data -/
theorem first_of_cut {op : Opcode} {rest : List Byte} (h : rest.length < op.operands.length) :
    (first op.code rest).1 = data (op.code :: rest) := by
  simp only [first, Opcode.ofCode?_code, Instruction.decode?_eq_none h]

/-- two bytes after the opcode are enough to tell the first chunk -/
theorem first_append {rest : List Byte} (h : rest.length = 2) (code : Byte) (more : List Byte) :
    (first code (rest ++ more)).1 = (first code rest).1 := by
  cases hop : Opcode.ofCode? code with
  | none => rw [first_of_unknown hop, first_of_unknown hop]
  | some op =>
    obtain rfl := Opcode.ofCode?_eq_some_iff.1 hop
    have htwo : op.operands.length ≤ rest.length := by
      rw [h]
      cases op <;> decide
    obtain ⟨i, -, hfirst⟩ := first_of_fits htwo
    rw [hfirst, ← List.append_nil rest, hfirst]

end Chunk

namespace Machine

variable {machine : Machine} {address : Word} {op : Opcode}

/-- a chunk is cut from a byte and up to two more, as many as there are -/
theorem exists_slice_eq (machine : Machine) (address : Word) :
    ∃ rest, machine.memory.slice address 3 = machine.memory.read address :: rest ∧
      rest.length = min 2 (0xffff - address.toNat) ∧
      machine.chunkAt address = (Chunk.first (machine.memory.read address) rest).1 := by
  refine ⟨_, machine.slice_eq_cons address, ?_, rfl⟩
  rw [List.length_drop, Memory.length_slice, Memory.size]
  omega

/-- **The line is the first of a listing** of all memory from the address on. -/
theorem head?_chunks (machine : Machine) (address : Word) :
    (chunks (machine.memory.slice address Memory.size)).head? = some (machine.chunkAt address) := by
  have haddress := address.toNat_lt
  obtain ⟨rest, hslice, hlength, hchunk⟩ := machine.exists_slice_eq address
  have hall : (machine.memory.slice address Memory.size).length = 0x10000 - address.toNat := by
    rw [Memory.length_slice, Memory.size]
    omega
  have hheld : machine.memory.Holds address.toNat (machine.memory.read address :: rest) := by
    rw [← hslice]
    exact Memory.holds_slice
  obtain ⟨more, hmore⟩ : machine.memory.read address :: rest <+: machine.memory.slice address Memory.size :=
    Memory.begins_slice_of_holds hheld (by rw [hall, List.length_cons]; omega)
  have hfirst : (Chunk.first (machine.memory.read address) (rest ++ more)).1 = machine.chunkAt address := by
    rw [hchunk]
    rcases Nat.lt_or_ge address.toNat 0xfffe with hinside | hlast
    · exact Chunk.first_append (by omega) _ _
    · -- near the end of memory there are no more bytes
      obtain rfl : more = [] := by
        rw [← hmore, List.length_append, List.length_cons] at hall
        exact List.length_eq_zero_iff.1 (by omega)
      rw [List.append_nil]
  rw [← hmore, List.cons_append, chunks, hfirst, List.head?_cons]

theorem chunkAt_of_unknown (h : Opcode.ofCode? (machine.memory.read address) = none) :
    machine.chunkAt address = .data [machine.memory.read address] := Chunk.first_of_unknown h _

/-- an instruction that ends after the last address is shown as data -/
theorem chunkAt_of_cut (hop : Opcode.ofCode? (machine.memory.read address) = some op)
    (hroom : Memory.size < address.toNat + op.size) : ∃ values, machine.chunkAt address = .data values := by
  have haddress := address.toNat_lt
  obtain ⟨rest, -, hlength, hchunk⟩ := machine.exists_slice_eq address
  have htwo : op.operands.length ≤ 2 := by cases op <;> decide
  rw [Opcode.size, Memory.size] at hroom
  rw [Opcode.ofCode?_eq_some_iff.1 hop, Chunk.first_of_cut (by omega)] at hchunk
  exact ⟨_, hchunk⟩

/-- and any other is shown as it is -/
theorem chunkAt_of_room (hop : Opcode.ofCode? (machine.memory.read address) = some op)
    (hroom : address.toNat + op.size ≤ Memory.size) :
    ∃ i, i.opcode = op ∧ machine.chunkAt address = .instruction i := by
  obtain ⟨rest, -, hlength, hchunk⟩ := machine.exists_slice_eq address
  have htwo : op.operands.length ≤ 2 := by cases op <;> decide
  rw [Opcode.size, Memory.size] at hroom
  obtain ⟨i, hi, hfirst⟩ := @Chunk.first_of_fits op rest (by omega)
  have hnone := hfirst []
  rw [List.append_nil] at hnone
  rw [Opcode.ofCode?_eq_some_iff.1 hop, hnone] at hchunk
  exact ⟨i, hi, hchunk⟩

end Machine

/-! ## Where an instruction goes on -/

/-- whether an instruction gives half of the instruction pointer a value -/
def Instruction.MovesPointer (i : Instruction) : Prop :=
  Register.ipl.index ∈ i.destinations ∨ Register.iph.index ∈ i.destinations

instance (i : Instruction) : Decidable i.MovesPointer := inferInstanceAs (Decidable (_ ∨ _))

variable {σ : Type} [Device σ]

/-- an instruction that does not go on elsewhere and leaves the instruction pointer alone goes on where that is -/
theorem Exec.execute_goes_on {board : Board σ} {i : Instruction}
    (htransfers : i.transfers board.machine.registers = false) (hpointer : ¬ i.MovesPointer) :
    (last ((execute i).run board)).machine.registers.ip = board.machine.registers.ip ∧
      (last ((execute i).run board)).machine.registers.pastEnd = board.machine.registers.pastEnd := by
  rw [Instruction.MovesPointer, not_or] at hpointer
  have hset : ∀ dst ∈ i.destinations, ∀ (rs : Registers) value,
      ((rs.set dst value).ip, (rs.set dst value).pastEnd) = (rs.ip, rs.pastEnd) := by
    intro dst hdst rs value
    have hip : ¬ Register.IsIpHalf dst := by
      rintro (rfl | rfl)
      · exact hpointer.1 hdst
      · exact hpointer.2 hdst
    exact Prod.ext (rs.ip_set hip value) ((rs.pastEnd_set dst value).trans (if_neg hip))
  have hsame := @execute_same_registers _ _ board i _ (fun rs => (rs.ip, rs.pastEnd)) hset
    (fun _ _ _ _ => rfl) (by simp [htransfers]) (fun _ _ => rfl)
  exact Prod.ext_iff.1 hsame

/-! ## The line and the step -/

namespace Board

/-- the line at the instruction pointer, with so many bytes, and what the step does -/
structure TellsStep (board : Board σ) (text : String) (length : Nat) : Prop where
  /-- the step does not know the opcode that is shown as data, -/
  unknown : Text.firstWord? text = some Mnemonic.dataText →
    Opcode.ofCode? (board.machine.memory.read board.machine.registers.ip) = none →
      board.step.1 = .error ⟨board.machine.registers.ip,
        .invalidOpcode (board.machine.memory.read board.machine.registers.ip)⟩
  /-- or needs a byte after the last address -/
  cut : Text.firstWord? text = some Mnemonic.dataText →
    ∀ op, Opcode.ofCode? (board.machine.memory.read board.machine.registers.ip) = some op →
      Memory.size < board.machine.registers.ip.toNat + op.size ∧
        board.step.1 = .error ⟨board.machine.registers.ip, .outOfRange 0x10000⟩
  /-- it executes what is shown as an instruction, -/
  executes : Text.firstWord? text ≠ some Mnemonic.dataText →
    ∃ i, Text.firstWord? text = some i.opcode.mnemonic ∧ i.encode.length = length ∧
      board.machine.memory.Holds board.machine.registers.ip.toNat i.encode ∧
      board.step = conclude board.machine.registers.ip ((execute i).run (board.entered i)) ∧
      -- and goes on behind it
      (i.transfers board.machine.registers = false → ¬ i.MovesPointer →
        board.step.2.machine.registers.ip = UInt16.ofNat (board.machine.registers.ip.toNat + length) ∧
          (board.step.2.machine.registers.pastEnd = true ↔
            board.machine.registers.ip.toNat + length = Memory.size))

section Tells

variable {board : Board σ} {op : Opcode} (hgoing : board.machine.stopped = false)
  (hwithin : board.machine.registers.pastEnd = false)

omit [Device σ] in
include hgoing in
theorem resumeAddress_of_going : board.machine.resumeAddress = board.machine.registers.ip := by
  rw [Machine.resumeAddress, if_neg (by simp [hgoing])]

omit [Device σ] in
include hwithin in
theorem place_of_within : board.place = board.machine.registers.ip.toNat := by
  rw [place, if_neg (by simp [hwithin])]

include hwithin in
/-- the opcode byte is that in memory -/
theorem opcodeByte?_of_outside (houtside : ¬ InWindow board.machine.registers.ip) :
    board.opcodeByte? = some (board.machine.memory.read board.machine.registers.ip) := by
  have hplace : board.place < Memory.size := by
    rw [place_of_within hwithin]
    exact board.machine.registers.ip.toNat_lt
  rw [opcodeByte?, if_pos hplace, Memory.view, if_neg houtside]

include hgoing hwithin

/-- an unknown opcode is shown as data, and the step fails over it -/
theorem tells_of_unknown (houtside : ¬ InWindow board.machine.registers.ip)
    (hop : Opcode.ofCode? (board.machine.memory.read board.machine.registers.ip) = none) (length : Nat) :
    board.TellsStep (board.machine.chunkAt board.machine.registers.ip).text length := by
  have hstep : board.step.1 = .error ⟨board.machine.registers.ip,
      .invalidOpcode (board.machine.memory.read board.machine.registers.ip)⟩ := by
    rw [step_eq_invalidOpcode_iff, resumeAddress_of_going hgoing, awake_of_going hgoing]
    exact ⟨rfl, opcodeByte?_of_outside hwithin houtside, hop⟩
  rw [Machine.chunkAt_of_unknown hop]
  refine ⟨fun _ _ => hstep, fun _ op hknown => ?_, fun hno => absurd (Chunk.firstWord?_data _) hno⟩
  rw [hop] at hknown
  cases hknown

/-- so is an instruction that ends after the last address, and the step fails over its fetch -/
theorem tells_of_cut (houtside : ¬ InWindow board.machine.registers.ip)
    (hop : Opcode.ofCode? (board.machine.memory.read board.machine.registers.ip) = some op)
    (hroom : Memory.size < board.machine.registers.ip.toNat + op.size) (length : Nat) :
    board.TellsStep (board.machine.chunkAt board.machine.registers.ip).text length := by
  have hneeded : board.needed = op.size := by
    rw [needed, opcodeByte?_of_outside hwithin houtside, Option.map_some, Opcode.ofCode?_eq_some_iff.1 hop]
    exact lengthFrom_code op
  have hover : board.Overruns := by
    have hplace := place_of_within hwithin
    have hall := board.place_add_room
    rw [overruns_iff_room_lt, hneeded]
    omega
  have hstep : board.step.1 = .error ⟨board.machine.registers.ip, .outOfRange 0x10000⟩ := by
    rw [step_eq_outOfRange_iff, resumeAddress_of_going hgoing, awake_of_going hgoing]
    exact ⟨rfl, .inl ⟨hover, rfl⟩⟩
  obtain ⟨values, hchunk⟩ := Machine.chunkAt_of_cut hop hroom
  rw [hchunk]
  refine ⟨fun _ hunknown => ?_, fun _ op' hop' => ?_, fun hno => absurd (Chunk.firstWord?_data _) hno⟩
  · rw [hop] at hunknown
    cases hunknown
  · obtain rfl := Option.some.inj (hop.symm.trans hop')
    exact ⟨hroom, hstep⟩

/-- any other instruction is shown and executed -/
theorem tells_of_room
    (houtside : ∀ n < (board.machine.chunkAt board.machine.registers.ip).bytes.length,
      ¬ InWindow (UInt16.ofNat (board.machine.registers.ip.toNat + n)))
    (hop : Opcode.ofCode? (board.machine.memory.read board.machine.registers.ip) = some op)
    (hroom : board.machine.registers.ip.toNat + op.size ≤ Memory.size) :
    board.TellsStep (board.machine.chunkAt board.machine.registers.ip).text
      (board.machine.chunkAt board.machine.registers.ip).bytes.length := by
  obtain ⟨i, rfl, hchunk⟩ := Machine.chunkAt_of_room hop hroom
  have hbegins := board.machine.bytes_chunkAt_begins board.machine.registers.ip
  rw [hchunk] at hbegins houtside ⊢
  rw [← i.length_encode] at hroom
  have hheld : board.machine.memory.Holds board.machine.registers.ip.toNat i.encode :=
    Memory.holds_slice.of_begins hbegins
  have hready : board.Ready board.machine.registers.ip.toNat i.encode := ⟨hgoing, rfl, hwithin, hheld, houtside⟩
  obtain ⟨hip, hpast⟩ := ip_entered hready
  have hstep := hready.step_eq hroom
  have hword := Chunk.firstWord?_instruction i
  have hno : Text.firstWord? (Chunk.instruction i).text ≠ some Mnemonic.dataText := by
    rw [hword]
    exact fun h => Mnemonic.mnemonic_ne_dataText _ (Option.some.inj h)
  refine ⟨fun h => absurd h hno, fun h => absurd h hno, fun _ => ⟨i, hword, rfl, hheld, hstep, ?_⟩⟩
  intro htransfers hpointer
  have hflags : i.transfers (board.entered i).machine.registers = false := by
    rw [← htransfers]
    cases i <;> rfl
  obtain ⟨hgoesOn, hmark⟩ := Exec.execute_goes_on hflags hpointer
  rw [hstep, registers_conclude, hgoesOn, hmark]
  exact ⟨hip, hpast⟩

end Tells

/-- **A listing tells what a step does.** The machine is going and not past the last address, and the device hides none
of the bytes that are shown at the instruction pointer. Then data is shown there where the step fails over the opcode byte
or needs a byte after the last address, and nowhere else. What is shown as an instruction is what the step executes, and
unless this goes on elsewhere or moves the instruction pointer itself, that is behind its bytes afterwards. -/
theorem listing_tells_step (board : Board σ) (hgoing : board.machine.stopped = false)
    (hwithin : board.machine.registers.pastEnd = false)
    (houtside : ∀ n < (board.machine.chunkAt board.machine.registers.ip).bytes.length,
      ¬ InWindow (UInt16.ofNat (board.machine.registers.ip.toNat + n))) :
    (chunks (board.machine.memory.slice board.machine.registers.ip Memory.size)).head? =
        some (board.machine.chunkAt board.machine.registers.ip) ∧
      board.TellsStep (board.machine.chunkAt board.machine.registers.ip).text
        (board.machine.chunkAt board.machine.registers.ip).bytes.length := by
  refine ⟨board.machine.head?_chunks _, ?_⟩
  have hfirst := houtside 0 (List.length_pos_of_ne_nil (Chunk.bytes_first_ne_nil _ _))
  rw [Nat.add_zero, UInt16.ofNat_toNat] at hfirst
  cases hop : Opcode.ofCode? (board.machine.memory.read board.machine.registers.ip) with
  | none => exact tells_of_unknown hgoing hwithin hfirst hop _
  | some op =>
    rcases Nat.lt_or_ge Memory.size (board.machine.registers.ip.toNat + op.size) with hcut | hroom
    · exact tells_of_cut hgoing hwithin hfirst hop hcut _
    · exact tells_of_room hgoing hwithin houtside hop hroom

/-- a machine that comes to `inc a` at the last two addresses -/
def atLastIncrement : Board NoDevice :=
  ⟨{ Machine.initial with
      registers := Registers.initial.jump 0xfffe
      memory := Memory.zero.writeAll 0xfffe [0x15, 0x00]
      stopped := false }, ⟨⟩⟩

theorem atLastIncrement_is_told :
    atLastIncrement.step = conclude 0xfffe ((execute (.inc 0)).run (atLastIncrement.entered (.inc 0))) ∧
      atLastIncrement.step.2.machine.registers.ip = 0 ∧ atLastIncrement.step.2.machine.registers.pastEnd = true := by
  have hchunk : atLastIncrement.machine.chunkAt 0xfffe = .instruction (.inc 0) := by decide +kernel
  have houtside : ∀ n < (atLastIncrement.machine.chunkAt atLastIncrement.machine.registers.ip).bytes.length,
      ¬ InWindow (UInt16.ofNat (atLastIncrement.machine.registers.ip.toNat + n)) := by decide +kernel
  obtain ⟨-, htells⟩ := listing_tells_step atLastIncrement rfl rfl houtside
  have hip : atLastIncrement.machine.registers.ip = 0xfffe := rfl
  rw [hip, hchunk] at htells
  obtain ⟨i, hword, hlength, hheld, hstep, hgoesOn⟩ := htells.executes (by decide +kernel)
  have hbytes : atLastIncrement.machine.memory.Holds 0xfffe [0x15, 0x00] := Memory.holds_writeAll (by decide)
  have hencode : i.encode = (Instruction.inc 0).encode :=
    List.ext_getElem hlength fun n hn hn' => (hheld n hn).symm.trans (hbytes n hn')
  obtain rfl : i = .inc 0 := Instruction.encode_inj hencode
  obtain ⟨hnext, hpast⟩ := hgoesOn rfl (by decide)
  exact ⟨hstep, hnext, hpast.2 rfl⟩

end Board

end ByteMachine
