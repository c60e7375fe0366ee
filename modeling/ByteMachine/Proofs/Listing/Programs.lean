/-
The listing of a program. The cut of an image into chunks knows nothing but the lengths of instructions; where the bytes
are those of instruction lines, one after the other, it falls between these lines again, whatever bytes the operands and
the addresses of labels have.

`disassemble_lists_program`: the listing of a program has its instruction lines.
-/
import Mathlib.Tactic
import ByteMachine.Proofs.Execution.Lines
import ByteMachine.Proofs.Listing.Reassembly
import ByteMachine.Proofs.Parallel.Words

namespace ByteMachine

open Layout

/-! ## Lines of a program and of a listing -/

def Statement.isInstruction : Statement → Bool
  | .instruction _ _ => true
  | _ => false

/-- whether the statement puts bytes into the image that are no instruction -/
def Statement.hasData : Statement → Bool
  | .data (_ :: _) => true
  | _ => false

/-- the line of the listing is the instruction line of the source text, with its operands as numbers and registers -/
structure ListingLine.Lists (listed : ListingLine) (table : List (Route × Meaning)) (text : String) (line : Line) :
    Prop where
  placed : listed.address.toNat = line.address
  mnemonic : (Token.words listed.chunk.text).head? = (Token.words text).head?
  /-- the words of the source line spell an instruction, and the listed text is read as this instruction, with operands
  that are its operand bytes -/
  instruction : ∃ i : Instruction, listed.chunk = .instruction i ∧
    (∃ arguments, line.statement = .instruction i.opcode arguments) ∧ line.space.Spells table (Token.words text) i ∧
    ∀ number, ∃ arguments, Statement.parseLine number listed.chunk.text = .ok (.instruction i.opcode arguments) ∧
      arguments.map (·.operand.byte?) = i.operands.map some

variable {table : List (Route × Meaning)} {space : Space} {text : String}

theorem sites_of_hasData (space : Space) {statement : Statement} (h : statement.hasData = false)
    (hother : statement.isInstruction = false) : space.sites statement = [] := by
  cases statement with
  | data arguments =>
    cases arguments with
    | nil => rfl
    | cons argument arguments => cases h
  | instruction op arguments => cases hother
  | _ => rfl

/-! ## The listing of instructions -/

/-- an instruction at the head of an image is its first chunk -/
theorem chunks_encode_append (i : Instruction) (rest : List Byte) :
    chunks (i.encode ++ rest) = .instruction i :: chunks rest := by
  have hcode : Opcode.ofCode? i.opcode.code = some i.opcode := Opcode.ofCode?_eq_some_iff.2 rfl
  have hfirst : Chunk.first i.opcode.code (i.operands ++ rest) = (.instruction i, rest) := by
    simp [Chunk.first, hcode]
  rw [Instruction.encode, List.cons_append, chunks, hfirst]

theorem lists_instruction {start : Nat} {i : Instruction} {arguments : List Argument} (hfits : start < Memory.size)
    (hspells : space.Spells table (Token.words text) i) :
    ListingLine.Lists ⟨UInt16.ofNat start, .instruction i⟩ table text
      ⟨space, start, .instruction i.opcode arguments⟩ := by
  refine ⟨?_, ?_, i, rfl, ⟨arguments, rfl⟩, hspells, ?_⟩
  · exact UInt16.toNat_ofNat_of_lt hfits
  · obtain ⟨rest, groups, hwords, -, -⟩ := hspells
    have hlisted : Token.words (Chunk.instruction i).text = (Chunk.instruction i).words := Chunk.ofLine_text _
    rw [hlisted, hwords]
    rfl
  · intro number
    obtain ⟨arguments, hparse, hbytes⟩ := Chunk.parse_instruction i
    refine ⟨arguments, ?_, hbytes⟩
    rw [Statement.parseLine, hparse]
    rfl

/-- the listing of the bytes of some lines, by induction on the lines: an instruction line is cut off as it stands, and
any other line has no bytes -/
theorem lists_lay {texts : List String} {statements : List Statement}
    (hparses : List.Forall₂ (fun text statement => Statement.parse text = .ok statement) texts statements)
    (hprogram : ∀ statement ∈ statements, statement.hasData = false) {start : Nat} {bytes : List Byte}
    (hholds : List.Forall₂ (Site.Holds table) ((lay space start statements).flatMap Line.sites) bytes)
    (hfits : start + bytes.length ≤ Memory.size) :
    List.Forall₂ (fun read listed => listed.Lists table read.1 read.2)
      ((texts.zip (lay space start statements)).filter fun read => read.2.statement.isInstruction)
      (placeChunks (UInt16.ofNat start) (chunks bytes)) := by
  induction hparses generalizing space start bytes with
  | nil =>
    rw [List.forall₂_nil_left_iff.1 hholds, chunks]
    exact .nil
  | @cons text statement texts statements hparse _ ih =>
    obtain ⟨hfirst, hprogram⟩ := List.forall_mem_cons.1 hprogram
    rw [lay, List.flatMap_cons] at hholds
    obtain ⟨encoding, rest, rfl, hencoding, hrest⟩ := InStep.exists_append hholds
    have hlength : (space.sites statement).length = encoding.length := hencoding.length_eq
    rw [List.length_append] at hfits
    rw [hlength] at hrest
    have hlisted := ih hprogram hrest (by omega)
    cases statement with
    | instruction op arguments =>
      obtain ⟨i, rfl, rfl, hspells⟩ := Statement.exists_spelled hparse hencoding
      have hstart : start < Memory.size := by
        have hpos : 0 < i.encode.length := by simp [Instruction.encode]
        omega
      rw [chunks_encode_append, placeChunks, Chunk.bytes, ← UInt16.ofNat_add, lay, List.zip_cons_cons,
        List.filter_cons_of_pos rfl, hlength]
      exact .cons (lists_instruction hstart hspells) hlisted
    | _ =>
      have hnone := sites_of_hasData space hfirst rfl
      rw [hnone] at hlength
      obtain rfl := List.length_eq_zero_iff.1 hlength.symm
      rw [lay, List.zip_cons_cons, List.filter_cons_of_neg (by simp [Statement.isInstruction]), hnone]
      exact hlisted

/-- **The listing of a program is the program.** Where no line puts data into the image, the listing has one line for each
instruction line of the source text, in the same order, at the address of that line. It has the same mnemonic, and its
text is read as the same instruction, with the bytes that the source line has for its numbers, registers and names. -/
theorem disassemble_lists_program (source : String) (mount : Word) (assembly : Assembly)
    (h : assemble source mount = .ok assembly)
    (hprogram : ∀ text ∈ Text.lines source, ∀ statement, Statement.parse text = .ok statement →
      statement.hasData = false) :
    ∃ statements,
      List.Forall₂ (fun text statement => Statement.parse text = .ok statement) (Text.lines source) statements ∧
      let lines := lay Space.initial mount.toNat statements
      List.Forall₂ (fun read listed => listed.Lists (tableOf lines) read.1 read.2)
        (((Text.lines source).zip lines).filter fun read => read.2.statement.isInstruction)
        (disassemble assembly.bytes mount) := by
  obtain ⟨draft, statements, -, hlink, hparses, hfollows⟩ := exists_follows_of_assemble h
  have hprograms : ∀ statement ∈ statements, statement.hasData = false := by
    intro statement hstatement
    obtain ⟨text, htext, hparse⟩ := InStep.exists_left hparses hstatement
    exact hprogram text htext statement hparse
  have hlisted := lists_lay hparses hprograms (hfollows.holds_bytes hlink) (Layout.bytes_fit h)
  rw [UInt16.ofNat_toNat] at hlisted
  exact ⟨statements, hparses, hlisted⟩

/-- a jump over an instruction to a label whose address has the bytes of opcodes, and a line of data without bytes -/
def listable : String := "jmp %end\ndat\ninc b\n.end\nhlt"

theorem listable_is_listed :
    ∃ assembly, assemble listable 0x1510 = .ok assembly ∧
      (disassemble assembly.bytes 0x1510).map (·.chunk.text) = ["jmp 0x15 0x15", "inc b", "hlt"] ∧
      ∃ statements lines, lines = lay Space.initial 0x1510 statements ∧
        List.Forall₂ (fun read listed => listed.Lists (tableOf lines) read.1 read.2)
          (((Text.lines listable).zip lines).filter fun read => read.2.statement.isInstruction)
          (disassemble assembly.bytes 0x1510) := by
  have hbytes : (assemble listable 0x1510).map (·.bytes) =
      .ok [Opcode.jmp.code, 0x15, 0x15, Opcode.inc.code, 0x01, Opcode.hlt.code] := by decide +kernel
  obtain ⟨assembly, h, hassembled⟩ := Attempt.map_eq_ok_iff.1 hbytes
  have hread : ∀ text ∈ Text.lines listable, (Statement.parse text).map Statement.hasData = .ok false := by
    decide +kernel
  have hprogram : ∀ text ∈ Text.lines listable, ∀ statement, Statement.parse text = .ok statement →
      statement.hasData = false := by
    intro text htext statement hparse
    have hkind := hread text htext
    rw [hparse] at hkind
    exact Except.ok.inj hkind
  have htexts : (disassemble assembly.bytes 0x1510).map (·.chunk.text) = ["jmp 0x15 0x15", "inc b", "hlt"] := by
    rw [hassembled]
    cbv
  obtain ⟨statements, -, hlisted⟩ := disassemble_lists_program listable 0x1510 assembly h hprogram
  exact ⟨assembly, h, htexts, statements, _, rfl, hlisted⟩

end ByteMachine
