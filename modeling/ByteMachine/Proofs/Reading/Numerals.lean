/-
Operand words of a listing read back: a byte written in hexadecimal or decimal is read as that byte, and a register's
name as that register.

- `Operand.residue?_toDigits`: a run of digits has its value, modulo 256.
- `Operand.parse_byteText`, `Operand.parse_decimal`, `Operand.parse_registerName`: the three forms of an operand.
-/
import Mathlib.Tactic
import ByteMachine.Listing
import ByteMachine.Proofs.Reading.Words
import ByteMachine.Operand

namespace ByteMachine

namespace Text

theorem digitValue?_digitChar {radix d : Nat} (hd : d < radix) (hradix : radix ≤ 16) :
    digitValue? radix d.digitChar = some d := by
  have hd16 : d < 16 := by omega
  unfold digitValue?
  interval_cases d <;> simp [Nat.digitChar, hd]

/-- two hexadecimal digits, the more significant one first -/
theorem toList_hex_byte (n : Nat) (h : n < 256) : (hex 2 n).toList = [(n / 16).digitChar, (n % 16).digitChar] := by
  unfold hex alignRight
  by_cases hn : n < 16
  · have hdiv : n / 16 = 0 := by omega
    have hmod : n % 16 = n := by omega
    simp [Nat.toDigits_of_lt_base hn, hdiv, hmod]
  · have hdiv : n / 16 < 16 := by omega
    simp [Nat.toDigits_of_base_le (by decide : 1 < 16) (by omega : 16 ≤ n), Nat.toDigits_of_lt_base hdiv]

end Text

namespace Operand

open Text

/-! ## Digits -/

theorem residue?_append (radix : Nat) (ds es : List Char) :
    residue? radix (ds ++ es) =
      (residue? radix ds).bind fun value =>
        es.foldlM (fun value c => (digitValue? radix c).map fun digit => (value * radix + digit) % 256) value := by
  simp only [residue?, List.foldlM_append]
  rfl

/-- **A run of digits has its value.** The digits of a number in the radix are read as the number modulo 256. -/
theorem residue?_toDigits {radix : Nat} (hlo : 1 < radix) (hhi : radix ≤ 16) (n : Nat) :
    residue? radix (Nat.toDigits radix n) = some (n % 256) := by
  induction n using Nat.base_induction radix hlo with
  | single m hm =>
    rw [Nat.toDigits_of_lt_base hm]
    simp [residue?, digitValue?_digitChar hm hhi]
  | digit m k hk hm ih =>
    rw [← Nat.toDigits_append_toDigits hlo hm hk, residue?_append, ih, Nat.toDigits_of_lt_base hk]
    have hmod : (m % 256 * radix + k) % 256 = (radix * m + k) % 256 := by
      rw [Nat.mul_comm radix m]
      exact ((Nat.mod_modEq m 256).mul_right radix).add_right k
    simp [digitValue?_digitChar hk hhi, hmod]

/-! ## Words -/

/-- a word without a mark of a name is a number or a register -/
theorem parse_unmarked {word : String} (h : ∀ c ∈ word.toList, c ≠ '%' ∧ c ≠ ':') :
    parse word =
      match parseNumber? word, Register.ofName? word with
      | some value, _ => .ok [literal value]
      | none, some r => .ok [register r]
      | none, none => .error (unreadable word) := by
  have hlast : word.toList.getLast? ≠ some ':' := fun hl => (h ':' (List.mem_of_getLast? hl)).2 rfl
  unfold parse
  split
  · rename_i name hname
    exact absurd rfl (h '%' (hname ▸ List.mem_cons_self)).1
  · rename_i name hname
    exact absurd rfl (h ':' (hname ▸ List.mem_cons_self)).2
  · exact if_neg hlast

theorem parse_number {word : String} {value : Byte} (h : ∀ c ∈ word.toList, c ≠ '%' ∧ c ≠ ':')
    (hvalue : parseNumber? word = some value) : parse word = .ok [literal value] := by
  rw [parse_unmarked h, hvalue]

theorem toList_byteText (value : Byte) :
    (Chunk.byteText value).toList = ['0', 'x', (value.toNat / 16).digitChar, (value.toNat % 16).digitChar] := by
  rw [Chunk.byteText, markedHex, String.toList_append, toList_hex_byte _ value.toNat_lt]
  rfl

theorem parseNumber?_byteText (value : Byte) : parseNumber? (Chunk.byteText value) = some value := by
  have hvalue := value.toNat_lt
  have hdiv : value.toNat / 16 < 16 := by omega
  have hmod : value.toNat % 16 < 16 := by omega
  have hsum : value.toNat / 16 * 16 + value.toNat % 16 = value.toNat := by omega
  have hsmall : value.toNat / 16 % 256 = value.toNat / 16 := by omega
  simp [parseNumber?, toList_byteText, parseMagnitude?, splitRadix, residue?, digitValue?_digitChar hdiv le_rfl,
    digitValue?_digitChar hmod le_rfl, hsmall, hsum]

theorem digitChar_isWordChar {d : Nat} (hd : d < 16) :
    isBlank d.digitChar = false ∧ d.digitChar ≠ Token.commentMark ∧ d.digitChar ≠ '%' ∧ d.digitChar ≠ ':' := by
  interval_cases d <;> decide

theorem isWord_byteText (value : Byte) : Token.IsWord (Chunk.byteText value).toList := by
  have hhigh := digitChar_isWordChar (show value.toNat / 16 < 16 by have := value.toNat_lt; omega)
  have hlow := digitChar_isWordChar (show value.toNat % 16 < 16 by omega)
  rw [toList_byteText]
  refine ⟨by simp, ?_, ?_⟩
  · simp [hhigh.1, hlow.1, show isBlank '0' = false by decide, show isBlank 'x' = false by decide]
  · simp [Token.commentMark]

theorem parse_byteText (value : Byte) : parse (Chunk.byteText value) = .ok [literal value] := by
  apply parse_number _ (parseNumber?_byteText value)
  have hhigh := digitChar_isWordChar (show value.toNat / 16 < 16 by have := value.toNat_lt; omega)
  have hlow := digitChar_isWordChar (show value.toNat % 16 < 16 by omega)
  rw [toList_byteText]
  simp [hhigh.2.2, hlow.2.2]

/-! ## Decimal numbers -/

theorem isWordChar_of_isDigit {c : Char} (h : c.isDigit) :
    isBlank c = false ∧ c ≠ Token.commentMark ∧ c ≠ '%' ∧ c ≠ ':' ∧ c ≠ '-' ∧ c ≠ 'x' ∧ c ≠ 'b' := by
  have h : 48 ≤ c.toNat ∧ c.toNat ≤ 57 := by
    simp only [Char.isDigit, Bool.and_eq_true, decide_eq_true_eq] at h
    exact h
  have hne : ∀ d : Char, (d.toNat < 48 ∨ 57 < d.toNat) → c ≠ d := by
    rintro d hd rfl
    omega
  refine ⟨?_, hne _ (by decide), hne _ (by decide), hne _ (by decide), hne _ (by decide), hne _ (by decide),
    hne _ (by decide)⟩
  simp only [isBlank, blankRanges, List.any_cons, List.any_nil, Bool.or_eq_false_iff, Bool.and_eq_false_iff,
    decide_eq_false_iff_not, and_true]
  omega

theorem isDigit_of_mem_toString {n : Nat} {c : Char} (h : c ∈ (toString n).toList) : c.isDigit := by
  rw [Nat.toString_eq_repr, Nat.toList_repr] at h
  exact Nat.isDigit_of_mem_toDigits (by decide) (by decide) h

theorem splitRadix_of_isDigit {cs : List Char} (h : ∀ c ∈ cs, c.isDigit) : splitRadix cs = (10, cs) := by
  unfold splitRadix
  split
  · exact absurd (h 'x' (by simp)) (by decide)
  · exact absurd (h 'b' (by simp)) (by decide)
  · rfl

theorem parseNumber?_toString (value : Byte) : parseNumber? (toString value.toNat) = some value := by
  have hdigits : ∀ c ∈ (toString value.toNat).toList, c.isDigit := fun c hc => isDigit_of_mem_toString hc
  have hlist : (toString value.toNat).toList = Nat.toDigits 10 value.toNat := by simp
  have hmagnitude : parseMagnitude? (toString value.toNat).toList = some value := by
    rw [parseMagnitude?, splitRadix_of_isDigit hdigits, hlist]
    have hmod : value.toNat % 256 = value.toNat := Nat.mod_eq_of_lt value.toNat_lt
    simp [residue?_toDigits (by decide : 1 < 10) (by decide) value.toNat, hmod]
  unfold parseNumber?
  split
  · rename_i cs hcs
    exact absurd (hdigits '-' (hcs ▸ List.mem_cons_self)) (by decide)
  · exact hmagnitude

theorem parse_decimal (value : Byte) : parse (toString value.toNat) = .ok [literal value] := by
  apply parse_number _ (parseNumber?_toString value)
  intro c hc
  have h := isWordChar_of_isDigit (isDigit_of_mem_toString hc)
  exact ⟨h.2.2.1, h.2.2.2.1⟩

theorem isWord_decimal (n : Nat) : Token.IsWord (toString n).toList := by
  refine ⟨by simp, fun c hc => (isWordChar_of_isDigit (isDigit_of_mem_toString hc)).1, fun hc => ?_⟩
  exact (isWordChar_of_isDigit (isDigit_of_mem_toString hc)).2.1 rfl

/-! ## Registers -/

theorem parse_registerName (r : Register) : parse r.name = .ok [register r] := by
  cases r <;> rfl

theorem isWord_registerName (r : Register) : Token.IsWord r.name.toList := by
  cases r <;> exact Token.isWord_of_all rfl rfl

end Operand

end ByteMachine
