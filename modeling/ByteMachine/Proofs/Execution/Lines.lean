/-
The assembler and the machine agree on what the bytes of a line mean. The bytes that an instruction line emits are the
encoding of the instruction that its words spell, and a machine that comes to them executes that instruction.

`step_executes_line`: so it is for every instruction line of a source text, wherever the line stands.
-/
import Mathlib.Tactic
import ByteMachine.Proofs.Execution.Alike
import ByteMachine.Proofs.Execution.Fetch
import ByteMachine.Proofs.Layout.Room
import ByteMachine.Proofs.Listing.Chunks

namespace ByteMachine

open Layout

/-! ## What a line spells -/

/-- an opcode and as many bytes as it takes make an instruction -/
theorem Opcode.exists_instruction (op : Opcode) {bytes : List Byte} (h : bytes.length = op.operands.length) :
    ∃ i : Instruction, i.opcode = op ∧ i.operands = bytes := by
  have hform := op.form_makes
  cases hf : op.form with
  | nullary i =>
    rw [hf] at hform
    obtain ⟨rfl, hoperands⟩ := hform
    rw [← i.length_operands, hoperands] at h
    exact ⟨i, rfl, hoperands.trans (List.length_eq_zero_iff.1 h).symm⟩
  | unary f =>
    rw [hf] at hform
    obtain ⟨hop, hoperands⟩ := hform 0
    rw [← hop, ← (f 0).length_operands, hoperands] at h
    obtain ⟨x, rfl⟩ := List.length_eq_one_iff.1 h
    exact ⟨f x, hform x⟩
  | binary f =>
    rw [hf] at hform
    obtain ⟨hop, hoperands⟩ := hform 0 0
    rw [← hop, ← (f 0 0).length_operands, hoperands] at h
    obtain ⟨x, y, rfl⟩ := List.length_eq_two.1 h
    exact ⟨f x y, hform x y⟩

/-- an instruction is known by its encoding -/
theorem Instruction.encode_inj {i j : Instruction} (h : i.encode = j.encode) : i = j := by
  obtain ⟨hcode, hoperands⟩ := List.cons.inj h
  have hdecode := i.decode?_encode []
  rw [hcode, hoperands, decode?_encode] at hdecode
  exact (Prod.mk.inj (Option.some.inj hdecode)).1.symm

/-- the first word is the mnemonic of the instruction, and the other words stand for its operand bytes, one word after
the other, with names looked up in the table -/
def Layout.Space.Spells (space : Space) (table : List (Route × Meaning)) (words : List String) (i : Instruction) :
    Prop :=
  ∃ rest groups, words = i.opcode.mnemonic :: rest ∧ List.Forall₂ space.Reads rest groups ∧
    List.Forall₂ (Site.Holds table) groups.flatten i.operands

/-- an instruction line has the mnemonic of its opcode and as many operand bytes as the opcode takes -/
theorem Statement.words_of_instruction (space : Space) {text : String} {op : Opcode} {arguments : List Argument}
    (h : Statement.parse text = .ok (.instruction op arguments)) :
    arguments.length = op.operands.length ∧ ∃ words groups, (Token.ofLine text).map (·.text) = op.mnemonic :: words ∧
      List.Forall₂ space.Reads words groups ∧
      arguments.map (fun argument => space.site argument.operand) = groups.flatten := by
  obtain ⟨first, words, hwords, hemission⟩ := emission_of_ofTokens h trivial
  obtain ⟨read, hread, ⟨-, hdata⟩ | ⟨op', hfirst, harity, hinstruction⟩⟩ := emission_eq_ok hemission
  · exact absurd hdata (by simp)
  · obtain ⟨rfl, rfl⟩ := Statement.instruction.inj hinstruction
    obtain ⟨groups, hgroups, hsites⟩ := reads_of_readArguments space hread
    exact ⟨harity, words.map (·.text), groups, by rw [hwords, List.map_cons, hfirst], hgroups, hsites⟩

/-- the bytes of an instruction line are the encoding of the instruction that its words spell -/
theorem Statement.exists_spelled {space : Space} {table : List (Route × Meaning)} {text : String} {op : Opcode}
    {arguments : List Argument} {bytes : List Byte} (hparse : Statement.parse text = .ok (.instruction op arguments))
    (hbytes : List.Forall₂ (Site.Holds table) (space.sites (.instruction op arguments)) bytes) :
    ∃ i : Instruction, i.opcode = op ∧ i.encode = bytes ∧
      space.Spells table ((Token.ofLine text).map (·.text)) i := by
  obtain ⟨harity, words, groups, hwords, hgroups, hsites⟩ := Statement.words_of_instruction space hparse
  obtain ⟨code, operands, hcode, hoperands, rfl⟩ := List.forall₂_cons_left_iff.1 hbytes
  cases hcode
  have hlength : operands.length = op.operands.length := by
    rw [← hoperands.length_eq, List.length_map, harity]
  obtain ⟨i, rfl, rfl⟩ := op.exists_instruction hlength
  rw [hsites] at hoperands
  exact ⟨i, rfl, rfl, words, groups, hwords, hgroups, hoperands⟩

/-! ## Where a line stands -/

/-- the bytes of a line stand in the image as far behind its start as the line is behind the first one -/
theorem Layout.holds_line {table : List (Route × Meaning)} {space : Space} {start : Nat} {statements : List Statement}
    {bytes : List Byte} {line : Line}
    (h : List.Forall₂ (Site.Holds table) ((lay space start statements).flatMap Line.sites) bytes)
    (hline : line ∈ lay space start statements) :
    line.address + line.sites.length ≤ start + bytes.length ∧
      List.Forall₂ (Site.Holds table) line.sites ((bytes.drop (line.address - start)).take line.sites.length) := by
  obtain ⟨before, after, hlay⟩ := List.append_of_mem hline
  have haddress := address_of_lay space start statements before line after hlay
  have hlength := h.length_eq
  rw [hlay, List.flatMap_append, List.flatMap_cons] at h hlength
  rw [List.length_append, List.length_append] at hlength
  refine ⟨by omega, ?_⟩
  rw [haddress, Nat.add_sub_cancel_left]
  simpa using List.forall₂_take line.sites.length (List.forall₂_drop (before.flatMap Line.sites).length h)

/-! ## What the machine does with a line -/

namespace Board

variable {σ : Type}

/-- an instruction is entered with the instruction pointer past its bytes -/
theorem ip_entered {board : Board σ} {address : Nat} {i : Instruction} (h : board.Ready address i.encode) :
    (board.entered i).machine.registers.ip = UInt16.ofNat (address + i.encode.length) ∧
      ((board.entered i).machine.registers.pastEnd = true ↔ address + i.encode.length = Memory.size) := by
  obtain ⟨-, rfl, -, -⟩ := h
  exact ⟨(board.counted i.opcode.category).ip_past i.encode.length, pastEnd_past_eq_true_iff⟩

/-- a fault in an instruction that was fetched is an address that the instruction computed -/
theorem cause_of_conclude [Device σ] {start : Word} {board : Board σ} {i : Instruction} {fault : Fault}
    (h : (conclude start ((execute i).run board)).1 = .error fault) :
    fault.ip = start ∧ ∃ address, fault.cause = .outOfRange address := by
  cases hends : (execute i).run board with
  | ok _ after =>
    rw [hends, conclude] at h
    by_cases hhalting : after.machine.halting = true <;> simp [hhalting] at h
  | error cause after =>
    rw [hends, conclude] at h
    obtain rfl := Except.error.inj h
    exact ⟨rfl, Exec.cause_of_execute hends⟩

end Board

/-- the machine executes the instruction at the address: it enters it with the instruction pointer past its bytes, and a
fault in it is an address that it computed -/
def Instruction.ExecutedAt (i : Instruction) (address : Nat) : Prop :=
  ∀ {σ : Type} [Device σ] (board : Board σ), board.Ready address i.encode →
    (board.entered i).machine.registers.ip = UInt16.ofNat (address + i.encode.length) ∧
      ((board.entered i).machine.registers.pastEnd = true ↔ address + i.encode.length = Memory.size) ∧
      board.step = Board.conclude (UInt16.ofNat address) ((execute i).run (board.entered i)) ∧
      ∀ fault, board.step.1 = .error fault →
        fault.ip = UInt16.ofNat address ∧ ∃ computed, fault.cause = .outOfRange computed

theorem Instruction.executedAt_of_fits {i : Instruction} {address : Nat}
    (hroom : address + i.encode.length ≤ Memory.size) : i.ExecutedAt address := by
  intro σ _ board h
  obtain ⟨hip, hpast⟩ := Board.ip_entered h
  have hstep := h.step_eq hroom
  rw [← UInt16.ofNat_toNat (x := board.machine.registers.ip), h.arrived] at hstep
  refine ⟨hip, hpast, hstep, fun fault hfault => ?_⟩
  rw [hstep] at hfault
  exact Board.cause_of_conclude hfault

/-- **The machine executes what is written.** Every instruction line of a source text spells an instruction, and its
bytes in the image are the encoding of that instruction. A machine that comes to these bytes fetches them all and
executes the instruction with its operand bytes, from the state in which the instruction pointer is past them. -/
theorem step_executes_line (source : String) (mount : Word) (assembly : Assembly)
    (h : assemble source mount = .ok assembly) :
    ∃ statements, List.Forall₂ (fun text line => Statement.parse text = .ok line.statement ∧
      ∀ op arguments, line.statement = .instruction op arguments →
        ∃ i : Instruction, i.opcode = op ∧
          line.space.Spells (tableOf (lay Space.initial mount.toNat statements))
            ((Token.ofLine text).map (·.text)) i ∧
          (assembly.bytes.drop (line.address - mount.toNat)).take op.size = i.encode ∧
          line.address + op.size ≤ Memory.size ∧ i.ExecutedAt line.address)
      (Text.lines source) (lay Space.initial mount.toNat statements) := by
  obtain ⟨draft, statements, -, hlink, hparses, hfollows⟩ := exists_follows_of_assemble h
  have hholds := hfollows.holds_bytes hlink
  have hfits := Layout.bytes_fit h
  -- each line keeps its place among all of them, which its bytes in the image depend on
  have hlines : List.Forall₂ _ (lay Space.initial mount.toNat statements) (Text.lines source) :=
    (List.forall₂_and_left _ _).2 ⟨fun line hline => hline, (forall₂_lay hparses Space.initial mount.toNat).flip⟩
  refine ⟨statements, hlines.flip.imp ?_⟩
  rintro text line ⟨hline, hparse, -⟩
  refine ⟨hparse, fun op arguments hinstruction => ?_⟩
  obtain ⟨hroom, hbytes⟩ := Layout.holds_line hholds hline
  rw [hinstruction] at hparse
  rw [Line.sites, hinstruction] at hroom hbytes
  obtain ⟨i, rfl, hencode, hspells⟩ := Statement.exists_spelled hparse hbytes
  have hsize : (line.space.sites (.instruction i.opcode arguments)).length = i.opcode.size :=
    hbytes.length_eq.trans ((congrArg List.length hencode).symm.trans i.length_encode)
  rw [hsize] at hroom hencode
  have hends : line.address + i.opcode.size ≤ Memory.size := hroom.trans hfits
  refine ⟨i, rfl, hspells, hencode.symm, hends, Instruction.executedAt_of_fits ?_⟩
  rwa [i.length_encode]

/-- an instruction that ends at the last address -/
def lastInstruction : String := "num b 258"

def atLastInstruction : Board NoDevice :=
  ⟨{ Machine.initial with
      registers := Registers.initial.jump 0xfffd
      memory := Memory.zero.writeAll 0xfffd [0x00, 0x01, 0x02]
      stopped := false }, ⟨⟩⟩

theorem ready_atLastInstruction : atLastInstruction.Ready 0xfffd [0x00, 0x01, 0x02] where
  going := rfl
  arrived := rfl
  within := rfl
  shown := ⟨Memory.holds_writeAll (by decide), by decide⟩

theorem lastInstruction_is_executed :
    ∃ assembly, assemble lastInstruction 0xfffd = .ok assembly ∧ assembly.bytes = [0x00, 0x01, 0x02] ∧
      atLastInstruction.step =
        Board.conclude 0xfffd ((execute (.num 1 2)).run (atLastInstruction.entered (.num 1 2))) ∧
      (atLastInstruction.entered (.num 1 2)).machine.registers.pastEnd = true := by
  have hbytes : (assemble lastInstruction 0xfffd).map (·.bytes) = .ok [0x00, 0x01, 0x02] := by decide +kernel
  obtain ⟨assembly, h, hassembled⟩ := Attempt.map_eq_ok_iff.1 hbytes
  have htexts : Text.lines lastInstruction = [lastInstruction] := by decide +kernel
  have hparse : Statement.parse lastInstruction =
      .ok (.instruction .num [⟨.register .b, ⟨"b", 5⟩⟩, ⟨.literal 2, ⟨"258", 7⟩⟩]) := by decide +kernel
  obtain ⟨statements, hlines⟩ := step_executes_line _ _ _ h
  rw [htexts] at hlines
  obtain ⟨line, rest, ⟨hread, hexecutes⟩, -, hlay⟩ := List.forall₂_cons_left_iff.1 hlines
  cases statements with
  | nil => simp [lay] at hlay
  | cons statement statements =>
    obtain ⟨rfl, -⟩ := List.cons.inj hlay
    obtain rfl := Except.ok.inj (hread.symm.trans hparse)
    obtain ⟨i, -, -, hslice, -, hexecuted⟩ := hexecutes _ _ rfl
    rw [hassembled] at hslice
    obtain rfl : Instruction.num 1 2 = i := Instruction.encode_inj hslice
    obtain ⟨-, hpast, hstep, -⟩ := hexecuted atLastInstruction ready_atLastInstruction
    exact ⟨assembly, h, hassembled, hstep, hpast.2 rfl⟩

end ByteMachine
