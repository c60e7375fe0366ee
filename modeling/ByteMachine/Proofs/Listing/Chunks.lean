/-
The chunks of an image partition it: no chunk is empty, and their bytes, one chunk after the other, are the image. The
lines of a listing stand at the addresses of their first bytes.
-/
import Mathlib.Tactic
import ByteMachine.Listing

namespace ByteMachine

/-- what the form of an opcode makes of operand bytes is an instruction with this opcode and these operands -/
theorem Opcode.form_makes (op : Opcode) :
    match op.form with
    | .nullary i => i.opcode = op ∧ i.operands = []
    | .unary f => ∀ x, (f x).opcode = op ∧ (f x).operands = [x]
    | .binary f => ∀ x y, (f x y).opcode = op ∧ (f x y).operands = [x, y] := by
  cases op <;> simp [Opcode.form, Instruction.opcode, Instruction.operands]

/-- what is decoded at the head of some bytes is encoded by them -/
theorem Instruction.encode_append_of_decode? {code : Byte} {rest : List Byte} {i : Instruction} {left : List Byte}
    (h : Instruction.decode? code rest = some (i, left)) : i.encode ++ left = code :: rest := by
  unfold Instruction.decode? at h
  cases hop : Opcode.ofCode? code with
  | none => simp [hop] at h
  | some op =>
    have hcode := Opcode.ofCode?_eq_some_iff.1 hop
    have hform := op.form_makes
    rw [hop, Option.map_some] at h
    cases hf : op.form with
    | nullary j =>
      rw [hf] at h hform
      simp only [Option.some.injEq, Prod.mk.injEq] at h
      obtain ⟨rfl, rfl⟩ := h
      simp [Instruction.encode, hform, hcode]
    | unary f =>
      rw [hf] at h hform
      cases rest with
      | nil => simp at h
      | cons x rest =>
        simp only [Option.some.injEq, Prod.mk.injEq] at h
        obtain ⟨rfl, rfl⟩ := h
        simp [Instruction.encode, hform, hcode]
    | binary f =>
      rw [hf] at h hform
      rcases rest with _ | ⟨x, _ | ⟨y, rest⟩⟩
      · simp at h
      · simp at h
      · simp only [Option.some.injEq, Prod.mk.injEq] at h
        obtain ⟨rfl, rfl⟩ := h
        simp [Instruction.encode, hform, hcode]

namespace Chunk

/-- the first chunk and what is left of the image are the image -/
theorem bytes_first_append (code : Byte) (rest : List Byte) :
    (first code rest).1.bytes ++ (first code rest).2 = code :: rest := by
  unfold first
  split
  · rfl
  · rename_i hdecode
    exact Instruction.encode_append_of_decode? hdecode
  · simp [bytes]

theorem bytes_first_ne_nil (code : Byte) (rest : List Byte) : (first code rest).1.bytes ≠ [] := by
  unfold first
  split <;> simp [bytes, Instruction.encode]

end Chunk

/-- **Nothing is lost.** The bytes of the chunks are the image. -/
theorem flatMap_bytes_chunks (image : List Byte) : (chunks image).flatMap Chunk.bytes = image := by
  induction image using chunks.induct with
  | case1 => simp [chunks]
  | case2 code rest ih =>
    rw [chunks, List.flatMap_cons, ih, Chunk.bytes_first_append]

theorem bytes_ne_nil_of_mem_chunks {image : List Byte} {chunk : Chunk} (h : chunk ∈ chunks image) :
    chunk.bytes ≠ [] := by
  induction image using chunks.induct with
  | case1 => simp [chunks] at h
  | case2 code rest ih =>
    rw [chunks, List.mem_cons] at h
    rcases h with rfl | h
    · exact Chunk.bytes_first_ne_nil code rest
    · exact ih h

@[simp] theorem map_chunk_placeChunks (address : Word) (chunks : List Chunk) :
    (placeChunks address chunks).map (·.chunk) = chunks := by
  induction chunks generalizing address with
  | nil => rfl
  | cons chunk chunks ih => simp [placeChunks, ih]

@[simp] theorem map_chunk_disassemble (image : List Byte) (origin : Word) :
    (disassemble image origin).map (·.chunk) = chunks image :=
  map_chunk_placeChunks _ _

/-- a line stands as far behind the first address as there are bytes on the lines before it, modulo the address space -/
theorem address_of_placeChunks (address : Word) (chunks : List Chunk) (before after : List ListingLine)
    (line : ListingLine) (h : placeChunks address chunks = before ++ line :: after) :
    line.address.toNat = (address.toNat + (before.flatMap (·.chunk.bytes)).length) % 0x10000 := by
  induction before generalizing address chunks with
  | nil =>
    cases chunks with
    | nil => simp [placeChunks] at h
    | cons chunk chunks =>
      simp only [placeChunks, List.nil_append, List.cons.injEq] at h
      obtain ⟨rfl, -⟩ := h
      have := address.toNat_lt
      simp only [List.flatMap_nil, List.length_nil]
      omega
  | cons head before ih =>
    cases chunks with
    | nil => simp [placeChunks] at h
    | cons chunk chunks =>
      simp only [placeChunks, List.cons_append, List.cons.injEq] at h
      obtain ⟨rfl, h⟩ := h
      rw [ih _ _ h]
      simp only [UInt16.toNat_add, UInt16.toNat_ofNat', List.flatMap_cons, List.length_append]
      omega

end ByteMachine
