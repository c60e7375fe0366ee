/-
A listing is source text for the image it lists. Every line of a listing, taken by itself or with the others, assembles
to the bytes it stands for and binds no name.

- `Chunk.emits`: the text of a chunk is read as a statement that emits the bytes of the chunk, from any draft.
- `disassemble_reassembles`: the lines of a listing partition the image, and the text of the listing assembles to it.
-/
import Mathlib.Tactic
import ByteMachine.Assembly.Image
import ByteMachine.Proofs.Drafting
import ByteMachine.Proofs.Listing.Chunks
import ByteMachine.Proofs.Reading.Productions

namespace ByteMachine

/-! ## Operands -/

/-- the byte that an operand stands for by itself; the byte of an address is not known before all names are bound -/
def Operand.byte? : Operand → Option Byte
  | .literal value => some value
  | .register r => some r.index
  | .address _ _ => none

namespace Chunk

/-- the operand that the text of an operand byte is read as -/
def operandOf (kind : OperandKind) (value : Byte) : Operand :=
  match kind, Register.ofIndex? value with
  | .register, some r => .register r
  | _, _ => .literal value

theorem byte?_operandOf (kind : OperandKind) (value : Byte) : (operandOf kind value).byte? = some value := by
  cases kind with
  | immediate => rfl
  | register =>
    unfold operandOf
    cases hr : Register.ofIndex? value with
    | none => rfl
    | some r => simp [Operand.byte?, (Register.ofIndex?_eq_some_iff.1 hr).symm]

theorem suits_operandOf (kind : OperandKind) (value : Byte) : (operandOf kind value).Suits kind := by
  cases kind with
  | immediate => exact .literal value .immediate
  | register =>
    unfold operandOf
    cases Register.ofIndex? value with
    | none => exact .literal value .register
    | some r => exact .register r

theorem parse_operandText (kind : OperandKind) (value : Byte) :
    Operand.parse (operandText kind value) = .ok [operandOf kind value] := by
  unfold operandText operandOf
  cases kind with
  | immediate => exact Operand.parse_byteText value
  | register =>
    cases Register.ofIndex? value with
    | none => exact Operand.parse_decimal value
    | some r => exact Operand.parse_registerName r

theorem isWord_operandText (kind : OperandKind) (value : Byte) : Token.IsWord (operandText kind value).toList := by
  unfold operandText
  cases kind with
  | immediate => exact Operand.isWord_byteText value
  | register =>
    cases Register.ofIndex? value with
    | none => exact Operand.isWord_decimal _
    | some r => exact Operand.isWord_registerName r

end Chunk

/-! ## Drafts of known bytes -/

namespace Draft

def appendBytes (draft : Draft) (values : List Byte) : Draft :=
  { draft with cells := draft.cells ++ (values.map Cell.byte).toArray }

@[simp] theorem appendBytes_nil (draft : Draft) : draft.appendBytes [] = draft := by
  simp [appendBytes]

theorem appendBytes_appendBytes (draft : Draft) (first second : List Byte) :
    (draft.appendBytes first).appendBytes second = draft.appendBytes (first ++ second) := by
  simp [appendBytes, Array.append_assoc]

theorem push_byte (draft : Draft) (value : Byte) : draft.push (.byte value) = draft.appendBytes [value] := by
  simp [push, appendBytes]

@[simp] theorem address_appendBytes (draft : Draft) (values : List Byte) :
    (draft.appendBytes values).address = draft.address + values.length := by
  simp [address, appendBytes, Nat.add_assoc]

theorem emit_byte {line : Nat} {draft : Draft} {argument : Argument} {value : Byte}
    (h : argument.operand.byte? = some value) : emit line draft argument = draft.appendBytes [value] := by
  rw [← push_byte]
  unfold emit
  cases hop : argument.operand with
  | literal v =>
    rw [hop, Operand.byte?, Option.some.injEq] at h
    rw [h]
  | register r =>
    rw [hop, Operand.byte?, Option.some.injEq] at h
    simp only [h]
  | address name half => simp [hop, Operand.byte?] at h

theorem foldl_emit_bytes (line : Nat) (draft : Draft) (arguments : List Argument) (values : List Byte)
    (h : arguments.map (·.operand.byte?) = values.map some) :
    arguments.foldl (emit line) draft = draft.appendBytes values := by
  induction arguments generalizing draft values with
  | nil =>
    have : values = [] := by simpa using h.symm
    simp [this]
  | cons argument arguments ih =>
    cases values with
    | nil => simp at h
    | cons value values =>
      simp only [List.map_cons, List.cons.injEq] at h
      rw [List.foldl_cons, emit_byte h.1, ih _ _ h.2, appendBytes_appendBytes, List.singleton_append]

end Draft

/-- the line is read as a statement that appends the bytes to every draft that has room for them -/
def Emits (text : String) (values : List Byte) : Prop :=
  ∃ statement, Statement.parse text = .ok statement ∧
    ∀ (draft : Draft) (line : Nat), draft.address + values.length ≤ Draft.addressSpace →
      draft.add line statement = .ok (draft.appendBytes values)

namespace Draft

theorem addLine_of_emits {text : String} {values : List Byte} (h : Emits text values) (draft : Draft) (number : Nat)
    (hroom : draft.address + values.length ≤ addressSpace) :
    draft.addLine number text = .ok (draft.appendBytes values) := by
  obtain ⟨statement, hparse, hadd⟩ := h
  exact addLine_eq_ok_iff.2 ⟨statement, hparse, hadd draft number hroom⟩

theorem addLines_of_emits (draft : Draft) (number : Nat) (lines : List (String × List Byte))
    (h : ∀ p ∈ lines, Emits p.1 p.2)
    (hroom : draft.address + (lines.flatMap (·.2)).length ≤ addressSpace) :
    draft.addLines number (lines.map (·.1)) = .ok (draft.appendBytes (lines.flatMap (·.2))) := by
  induction lines generalizing draft number with
  | nil => simp [addLines]
  | cons p lines ih =>
    rw [List.flatMap_cons, List.length_append] at hroom
    have hline := addLine_of_emits (h p List.mem_cons_self) draft number (by omega)
    have hrest := ih (draft.appendBytes p.2) (number + 1) (fun q hq => h q (List.mem_cons_of_mem _ hq))
      (by rw [address_appendBytes]; omega)
    rw [List.flatMap_cons, ← appendBytes_appendBytes]
    exact addLines_cons_eq_ok_iff.2 ⟨_, hline, hrest⟩

/-- a draft of known bytes without names is an image as it stands -/
theorem link_appendBytes_start (mount : Word) (values : List Byte) (texts : List String) :
    ((start mount).appendBytes values).link texts = .ok ⟨values, mount, []⟩ := by
  have hbytes : (values.map Cell.byte).mapM (((start mount).appendBytes values).resolveCell texts) = .ok values := by
    generalize (start mount).appendBytes values = draft
    induction values with
    | nil => rfl
    | cons value values ih =>
      rw [List.map_cons, List.mapM_cons, ih]
      rfl
  have hcells : ((start mount).appendBytes values).cells.toList = values.map Cell.byte := by
    simp [appendBytes, start]
  have hnone : ((start mount).appendBytes values).labels.entries.toList = [] := rfl
  simp only [link, hcells, hbytes, symbolList, hnone, Attempt.ok_bind]
  simp
  rfl

end Draft

/-- lines that emit known bytes assemble to these bytes -/
theorem assemble_of_emits (lines : List (String × List Byte)) (mount : Word)
    (hlines : ∀ p ∈ lines, Text.IsLine p.1.toList) (hemits : ∀ p ∈ lines, Emits p.1 p.2)
    (hroom : mount.toNat + (lines.flatMap (·.2)).length ≤ 0x10000) :
    assemble ("\n".intercalate (lines.map (·.1))) mount = .ok ⟨lines.flatMap (·.2), mount, []⟩ := by
  have htexts : Text.lines ("\n".intercalate (lines.map (·.1))) = lines.map (·.1) := by
    apply Text.lines_intercalate
    intro text htext
    obtain ⟨p, hp, rfl⟩ := List.mem_map.1 htext
    exact hlines p hp
  have hroom : (Draft.start mount).address + (lines.flatMap (·.2)).length ≤ Draft.addressSpace := hroom
  have hdraft := Draft.addLines_of_emits (Draft.start mount) 1 lines hemits hroom
  simp only [assemble, htexts, Draft.ofLines, hdraft, Attempt.ok_bind]
  exact Draft.link_appendBytes_start mount _ _

/-! ## Chunks as lines -/

namespace Chunk

def words : Chunk → List String
  | instruction i => i.opcode.mnemonic :: List.zipWith operandText i.opcode.operands i.operands
  | data values => Mnemonic.dataText :: values.map byteText

theorem text_eq (chunk : Chunk) : chunk.text = " ".intercalate chunk.words := by
  cases chunk <;> rfl

theorem isWord_mnemonic (op : Opcode) : Token.IsWord op.mnemonic.toList := by
  cases op <;> exact Token.isWord_of_all rfl rfl

theorem isWord_of_mem_words {chunk : Chunk} {word : String} (h : word ∈ chunk.words) : Token.IsWord word.toList := by
  cases chunk with
  | instruction i =>
    rcases List.mem_cons.1 h with rfl | h
    · exact isWord_mnemonic _
    · rw [← List.map_uncurry_zip_eq_zipWith] at h
      obtain ⟨⟨kind, value⟩, -, rfl⟩ := List.mem_map.1 h
      exact isWord_operandText kind value
  | data values =>
    rcases List.mem_cons.1 h with rfl | h
    · exact Token.isWord_of_all rfl rfl
    · obtain ⟨value, -, rfl⟩ := List.mem_map.1 h
      exact Operand.isWord_byteText value

theorem isLine_text (chunk : Chunk) : Text.IsLine chunk.text.toList := by
  rw [text_eq]
  refine Token.isLine_intercalate _ ?_ fun word hword => isWord_of_mem_words hword
  cases chunk <;> simp [words]

/-- the tokens of the text of a chunk are its words -/
theorem ofLine_text (chunk : Chunk) : (Token.ofLine chunk.text).map (·.text) = chunk.words := by
  rw [text_eq]
  exact Token.map_text_ofLine _ fun word hword => isWord_of_mem_words hword

/-- the tokens behind the first word of the text of a chunk -/
theorem ofLine_text_cons {chunk : Chunk} {word : String} {rest : List String} (h : chunk.words = word :: rest) :
    ∃ column ts, Token.ofLine chunk.text = ⟨word, column⟩ :: ts ∧ ts.map (·.text) = rest := by
  have htext := chunk.ofLine_text
  rw [h] at htext
  obtain ⟨t, ts, hcons, rfl, hts⟩ := List.map_eq_cons_iff.1 htext
  exact ⟨t.column, ts, hcons, hts⟩

/-- the texts of operand bytes are read as operands that suit their places and stand for these bytes -/
theorem reads_operandTexts {ts : List Token} {kinds : List OperandKind} {values : List Byte}
    (h : ts.map (·.text) = List.zipWith operandText kinds values) (hlength : kinds.length = values.length) :
    ∃ arguments, Statement.ReadsOperands ts arguments ∧
      List.Forall₂ (fun argument kind => argument.operand.Suits kind) arguments kinds ∧
      arguments.map (·.operand.byte?) = values.map some := by
  induction kinds generalizing ts values with
  | nil =>
    obtain rfl := List.length_eq_zero_iff.1 hlength.symm
    obtain rfl := List.map_eq_nil_iff.1 h
    exact ⟨[], .nil, .nil, rfl⟩
  | cons kind kinds ih =>
    cases values with
    | nil => simp at hlength
    | cons value values =>
      obtain ⟨t, ts, rfl, ht, hts⟩ := List.map_eq_cons_iff.1 h
      obtain ⟨arguments, hread, hsuit, hbytes⟩ := ih hts (Nat.succ.inj hlength)
      have hspells : Operand.Spells t.text [operandOf kind value] :=
        Operand.parse_eq_ok_iff.1 (ht ▸ parse_operandText kind value)
      refine ⟨⟨operandOf kind value, t⟩ :: arguments, .cons hspells hread, .cons (suits_operandOf kind value) hsuit, ?_⟩
      rw [List.map_cons, List.map_cons, byte?_operandOf, hbytes]

/-- the text of an instruction is read as its opcode with operands that stand for its operand bytes -/
theorem parse_instruction (i : Instruction) :
    ∃ arguments, Statement.parse (instruction i).text = .ok (.instruction i.opcode arguments) ∧
      arguments.map (·.operand.byte?) = i.operands.map some := by
  obtain ⟨column, ts, hline, hts⟩ := (instruction i).ofLine_text_cons (by rfl)
  obtain ⟨arguments, hread, hsuit, hbytes⟩ := reads_operandTexts hts i.length_operands.symm
  refine ⟨arguments, ?_, hbytes⟩
  rw [Statement.parse, hline]
  exact Statement.ofTokens_of_produces (.instruction rfl hread hsuit)

/-- the text of data is read as operands that stand for its bytes -/
theorem parse_data (values : List Byte) :
    ∃ arguments, Statement.parse (data values).text = .ok (.data arguments) ∧
      arguments.map (·.operand.byte?) = values.map some := by
  obtain ⟨column, ts, hline, hts⟩ := (data values).ofLine_text_cons (by rfl)
  have htexts : List.zipWith operandText (values.map fun _ => .immediate) values = values.map byteText := by
    rw [List.zipWith_map_left, List.zipWith_self]
    rfl
  obtain ⟨arguments, hread, hsuit, hbytes⟩ := reads_operandTexts (hts.trans htexts.symm) (List.length_map _)
  have himmediate : ∀ argument ∈ arguments, argument.operand.Suits .immediate := by
    intro argument hargument
    obtain ⟨kind, hkind, hsuits⟩ := InStep.exists_right hsuit hargument
    obtain ⟨value, -, rfl⟩ := List.mem_map.1 hkind
    exact hsuits
  refine ⟨arguments, ?_, hbytes⟩
  rw [Statement.parse, hline]
  exact Statement.ofTokens_of_produces (.data rfl hread himmediate)

theorem emits_instruction (i : Instruction) : Emits (instruction i).text i.encode := by
  obtain ⟨arguments, hparse, hbytes⟩ := parse_instruction i
  refine ⟨.instruction i.opcode arguments, hparse, fun draft line hroom => ?_⟩
  have hencode : i.encode = [i.opcode.code] ++ i.operands := rfl
  simp only [Draft.add]
  rw [Draft.push_byte, Draft.foldl_emit_bytes _ _ _ _ hbytes, Draft.appendBytes_appendBytes, ← hencode]
  exact Draft.checkSize_eq_ok_iff.2 ⟨by simpa using hroom, rfl⟩

theorem emits_data (values : List Byte) : Emits (data values).text values := by
  obtain ⟨arguments, hparse, hbytes⟩ := parse_data values
  refine ⟨.data arguments, hparse, fun draft line hroom => ?_⟩
  simp only [Draft.add]
  rw [Draft.foldl_emit_bytes _ _ _ _ hbytes]
  exact Draft.checkSize_eq_ok_iff.2 ⟨by simpa using hroom, rfl⟩

/-- **A chunk is a line for its bytes.** -/
theorem emits (chunk : Chunk) : Emits chunk.text chunk.bytes := by
  cases chunk with
  | instruction i => exact emits_instruction i
  | data values => exact emits_data values

end Chunk

/-- **A listing is source text for its image.** The lines of a listing partition the image in order, each at the address
of its first byte; the text of a line assembles to the bytes of the line wherever they fit, and the text of all lines
assembles to the image wherever it fits. No name is bound by it. -/
theorem disassemble_reassembles (image : List Byte) (origin : Word) :
    (∀ line ∈ disassemble image origin, line.chunk.bytes ≠ []) ∧
    (disassemble image origin).flatMap (·.chunk.bytes) = image ∧
    (∀ before line after, disassemble image origin = before ++ line :: after →
      line.address.toNat = (origin.toNat + (before.flatMap (·.chunk.bytes)).length) % 0x10000) ∧
    (∀ line ∈ disassemble image origin, ∀ mount : Word, mount.toNat + line.chunk.bytes.length ≤ 0x10000 →
      assemble line.chunk.text mount = .ok ⟨line.chunk.bytes, mount, []⟩) ∧
    ∀ mount : Word, mount.toNat + image.length ≤ 0x10000 →
      assemble ("\n".intercalate ((disassemble image origin).map (·.chunk.text))) mount = .ok ⟨image, mount, []⟩ := by
  have hbytes : (disassemble image origin).flatMap (·.chunk.bytes) = image := by
    have h := flatMap_bytes_chunks image
    rwa [← map_chunk_disassemble image origin, List.flatMap_map] at h
  refine ⟨?_, hbytes, ?_, ?_, ?_⟩
  · intro line hline
    apply @bytes_ne_nil_of_mem_chunks image
    rw [← map_chunk_disassemble image origin]
    exact List.mem_map_of_mem hline
  · intro before line after h
    exact address_of_placeChunks origin _ before after line h
  · intro line _ mount hroom
    have h := assemble_of_emits [(line.chunk.text, line.chunk.bytes)] mount
      (by simpa using line.chunk.isLine_text) (by simpa using line.chunk.emits) (by simpa using hroom)
    simpa using h
  · intro mount hroom
    have hflat : ((disassemble image origin).map fun line => (line.chunk.text, line.chunk.bytes)).flatMap (·.2) = image := by
      rw [List.flatMap_map, hbytes]
    have h := assemble_of_emits ((disassemble image origin).map fun line => (line.chunk.text, line.chunk.bytes)) mount
      (by
        intro p hp
        obtain ⟨line, -, rfl⟩ := List.mem_map.1 hp
        exact line.chunk.isLine_text)
      (by
        intro p hp
        obtain ⟨line, -, rfl⟩ := List.mem_map.1 hp
        exact line.chunk.emits)
      (by rw [hflat]; exact hroom)
    rw [hflat, List.map_map] at h
    exact h

/-- an operand that names no register, a byte that is no opcode, and a jump that is cut off -/
def mixedImage : List Byte := [0x18, 9, 0, 0x42, 0x02, 0x10]

/-- the listing of such an image, whose addresses wrap, as source text for the last bytes of the address space -/
theorem mixedImage_reassembles :
    disassemble mixedImage 0xfffe = [⟨0xfffe, .instruction (.sub 9 0)⟩] ++ ⟨1, .data [0x42]⟩ :: [⟨2, .data [0x02, 0x10]⟩] ∧
    (1 : Word).toNat = (0xfffe + 3) % 0x10000 ∧
    assemble "dat 0x42" 0xffff = .ok ⟨[0x42], 0xffff, []⟩ ∧
    (0xfffa : Word).toNat + mixedImage.length ≤ 0x10000 ∧
    assemble "sub 9 a\ndat 0x42\ndat 0x02 0x10" 0xfffa = .ok ⟨mixedImage, 0xfffa, []⟩ := by
  have hlines : disassemble mixedImage 0xfffe =
      [⟨0xfffe, .instruction (.sub 9 0)⟩] ++ ⟨1, .data [0x42]⟩ :: [⟨2, .data [0x02, 0x10]⟩] := by cbv
  have htext : "\n".intercalate ((disassemble mixedImage 0xfffe).map (·.chunk.text)) =
      "sub 9 a\ndat 0x42\ndat 0x02 0x10" := by cbv
  have hdata : (Chunk.data [0x42]).text = "dat 0x42" := by cbv
  obtain ⟨-, -, haddress, hline, hall⟩ := disassemble_reassembles mixedImage 0xfffe
  refine ⟨hlines, haddress _ _ _ hlines, ?_, by decide, ?_⟩
  · rw [← hdata]
    exact hline ⟨1, .data [0x42]⟩ (by rw [hlines]; simp) 0xffff (by decide)
  · rw [← htext]
    exact hall 0xfffa (by decide)

end ByteMachine
