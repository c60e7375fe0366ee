/-
Plain text, read by its bytes. Where every byte of a line is a printable character of ASCII, the characters are the bytes,
so the line can be read without decoding it. A long text can then be assembled in a proof.

- `Text.toList_of_isPlain`: the characters of a plain text.
- `Draft.addLines_of_addPlain?`: the effect of plain lines.
- `assemble_of_plain`: plain lines are assembled to what their bytes are assembled to.
-/
import Mathlib.Tactic
import ByteMachine.Assembly.Image
import ByteMachine.Proofs.Parallel.Continued
import ByteMachine.Proofs.Reading.Lines

namespace ByteMachine

/-! ## Characters -/

namespace Text

def bytes (text : String) : List Byte := text.toByteArray.data.toList

/-- every byte is a printable character -/
def IsPlain (text : String) : Prop := ∀ byte ∈ bytes text, 0x20 ≤ byte ∧ byte < 0x80

instance (text : String) : Decidable (IsPlain text) := List.decidableBAll _ _

def plainChars (text : String) : List Char := (bytes text).map fun byte => Char.ofNat byte.toNat

/-- every character is encoded on its own -/
theorem bytes_eq (text : String) : bytes text = text.toList.flatMap String.utf8EncodeChar := by
  rw [bytes, ← @String.ofList_toList text, String.toByteArray_ofList, List.utf8Encode, List.data_toByteArray,
    String.toList_ofList]

/-- a character with a byte below 0x80 last is that byte -/
theorem utf8EncodeChar_of_plain {c : Char} (h : ∀ byte ∈ String.utf8EncodeChar c, byte < 0x80) :
    (String.utf8EncodeChar c).map (fun byte => Char.ofNat byte.toNat) = [c] := by
  have hlast : ∀ n : Nat, ¬ UInt8.ofNat (n % 64 + 128) < 0x80 := by
    intro n
    rw [UInt8.lt_iff_toNat_lt, UInt8.toNat_ofNat', show (0x80 : Byte).toNat = 128 from rfl]
    omega
  by_cases hone : c.val.toNat ≤ 127
  · have hsmall : c.val.toNat < UInt8.size := by
      rw [UInt8.size]
      omega
    simp only [String.utf8EncodeChar, if_pos hone, List.map_cons, List.map_nil, UInt8.toNat_ofNat_of_lt' hsmall]
    rw [← Char.toNat, Char.ofNat_toNat]
  · refine absurd (h _ ?_) (hlast c.val.toNat)
    simp only [String.utf8EncodeChar, if_neg hone]
    split_ifs <;> simp

/-- **A plain text has its bytes as characters.** -/
theorem toList_of_isPlain {text : String} (h : IsPlain text) : text.toList = plainChars text := by
  have hplain : ∀ c ∈ text.toList, ∀ byte ∈ String.utf8EncodeChar c, byte < 0x80 := by
    intro c hc byte hbyte
    exact (h byte (by rw [bytes_eq]; exact List.mem_flatMap.2 ⟨c, hc, hbyte⟩)).2
  rw [plainChars, bytes_eq, List.map_flatMap]
  generalize text.toList = cs at hplain
  induction cs with
  | nil => rfl
  | cons c cs ih =>
    obtain ⟨hfirst, hrest⟩ := List.forall_mem_cons.1 hplain
    rw [List.flatMap_cons, utf8EncodeChar_of_plain hfirst, ← ih hrest]
    rfl

/-- a plain text has no control characters -/
theorem notMem_of_isPlain {text : String} (h : IsPlain text) {c : Char} (hc : c.toNat < 0x20) : c ∉ text.toList := by
  rw [toList_of_isPlain h, plainChars, List.mem_map]
  rintro ⟨byte, hbyte, rfl⟩
  obtain ⟨hlow, hhigh⟩ := h byte hbyte
  rw [UInt8.le_iff_toNat_le, show (0x20 : Byte).toNat = 0x20 from rfl] at hlow
  have hvalid : byte.toNat.isValidChar := .inl (by have := byte.toNat_lt; omega)
  rw [Char.ofNat, dif_pos hvalid] at hc
  exact absurd hlow (Nat.not_le.2 hc)

end Text

/-! ## Lines -/

def Token.ofPlain? (line : String) : Option (List Token) :=
  if Text.IsPlain line then some (scan 1 [] ((Text.plainChars line).takeWhile (· ≠ commentMark))) else none

theorem Token.ofPlain?_eq_some {line : String} {ts : List Token} :
    ofPlain? line = some ts ↔ Text.IsPlain line ∧ ofLine line = ts := by
  rw [ofPlain?, Option.ite_none_right_eq_some, Option.some.injEq, ofLine]
  refine and_congr_right fun hplain => ?_
  rw [Text.toList_of_isPlain hplain]

namespace Draft

/-- the effect of plain lines, the first of which has the given number, if there is one; the bytes of a line are laid
out for themselves, and put in front of those of the lines after it -/
def addPlain? (draft : Draft) (number : Nat) : List String → Option Draft
  | [] => some draft
  | line :: lines => do
    let ts ← Token.ofPlain? line
    let statement ← (Statement.ofTokens ts).toOption
    let next ← (draft.add number statement).toOption
    if next.address < addressSpace then
      let last ← next.ended.addPlain? (number + 1) lines
      return last.continued next.mount next.cells.toList
    else none

theorem addLines_of_addPlain? {draft last : Draft} {number : Nat} {lines : List String}
    (h : draft.addPlain? number lines = some last) :
    (∀ line ∈ lines, Text.IsPlain line) ∧ draft.addLines number lines = .ok last := by
  induction lines generalizing draft number last with
  | nil => exact ⟨by simp, congrArg Except.ok (Option.some.inj h)⟩
  | cons line lines ih =>
    simp only [addPlain?, Option.bind_eq_bind, Option.bind_eq_some_iff, Attempt.toOption_eq_some_iff,
      Option.ite_none_right_eq_some] at h
    obtain ⟨ts, htokens, statement, hstatement, next, hnext, hroom, rest, hrest, hlast⟩ := h
    obtain rfl := Option.some.inj hlast
    obtain ⟨hplain, rfl⟩ := Token.ofPlain?_eq_some.1 htokens
    obtain ⟨hplains, hlines⟩ := ih hrest
    have hplace : next.mount.toNat + next.cells.toList.length = next.ended.mount.toNat := by
      rw [mount_ended hroom, address, Array.length_toList]
    have hcontinued := continued_addLines hplace hlines
    rw [continued_ended] at hcontinued
    have hline : draft.addLine number line = .ok next := addLine_eq_ok_iff.2 ⟨statement, hstatement, hnext⟩
    exact ⟨List.forall_mem_cons.2 ⟨hplain, hplains⟩, addLines_cons_eq_ok_iff.2 ⟨next, hline, hcontinued⟩⟩

end Draft

def assemblePlain? (lines : List String) (mount : Word) : Option Assembly := do
  let draft ← (Draft.start mount).addPlain? 1 lines
  (draft.link lines).toOption

/-- **Plain lines are assembled to what their bytes are assembled to.** -/
theorem assemble_of_plain {lines : List String} {mount : Word} {assembly : Assembly}
    (h : assemblePlain? lines mount = some assembly) :
    assemble (String.join (lines.map (· ++ "\n"))) mount = .ok assembly := by
  simp only [assemblePlain?, Option.bind_eq_bind, Option.bind_eq_some_iff, Attempt.toOption_eq_some_iff] at h
  obtain ⟨draft, hdraft, hlink⟩ := h
  obtain ⟨hplain, hlines⟩ := Draft.addLines_of_addPlain? hdraft
  have hfound : Text.lines (String.join (lines.map (· ++ "\n"))) = lines :=
    Text.lines_join fun line hline =>
      ⟨Text.notMem_of_isPlain (hplain line hline) (by decide), Text.notMem_of_isPlain (hplain line hline) (by decide)⟩
  simp only [assemble, hfound]
  exact Attempt.bind_eq_ok_iff.2 ⟨draft, hlines, hlink⟩

end ByteMachine
