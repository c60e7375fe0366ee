/-
Operand words and what they stand for. A number is spelled in one of three radices, with a minus sign in front or without
one, and stands for its value modulo 256; a register is spelled by its name, and a byte of an address by a name and a mark.

- `Operand.parseNumber?_eq_some_iff`: the texts that are read as numbers.
- `Operand.parse_eq_ok_iff`: the texts that are read as operands, and which operands these are.
-/
import Mathlib.Tactic
import ByteMachine.Proofs.InStep
import ByteMachine.Proofs.Layout.Operands
import ByteMachine.Proofs.Reading.Names
import ByteMachine.Proofs.Reading.Numerals

namespace ByteMachine

/-! ## Numbers -/

/-- the digits, of which there is one at least, spell the value in the radix, the most significant one first -/
def Text.SpellsDigits (radix : Nat) (digits : List Char) (value : Nat) : Prop :=
  digits ≠ [] ∧ ∃ values, List.Forall₂ (fun c digit => digitValue? radix c = some digit) digits values ∧
    value = Nat.ofDigits radix values.reverse

namespace Operand

/-- the text spells the value, with the mark of its radix in front of the digits -/
inductive SpellsMagnitude : List Char → Nat → Prop
  | decimal {digits : List Char} {value : Nat} : Text.SpellsDigits 10 digits value → SpellsMagnitude digits value
  | hexadecimal {digits : List Char} {value : Nat} :
      Text.SpellsDigits 16 digits value → SpellsMagnitude ('0' :: 'x' :: digits) value
  | binary {digits : List Char} {value : Nat} :
      Text.SpellsDigits 2 digits value → SpellsMagnitude ('0' :: 'b' :: digits) value

/-- the text spells the number, which is negative after a minus sign -/
inductive SpellsNumber : String → Int → Prop
  | plain {text : String} {value : Nat} : SpellsMagnitude text.toList value → SpellsNumber text value
  | minus {text : String} {value : Nat} : SpellsMagnitude text.toList value → SpellsNumber ("-" ++ text) (-value)

/-- the operands that a word stands for; no word is spelled in two of these ways, so their order does not matter -/
inductive Spells : String → List Operand → Prop
  | both {text : String} {name : Name} : name.Spells text → Spells ("%" ++ text) [address name .low, address name .high]
  | low {text : String} {name : Name} : name.Spells text → Spells (":" ++ text) [address name .low]
  | high {text : String} {name : Name} : name.Spells text → Spells (text ++ ":") [address name .high]
  | number {word : String} {number : Int} {value : Byte} :
      SpellsNumber word number → (value.toNat : Int) = number % 256 → Spells word [literal value]
  | register (r : Register) : Spells r.name [register r]

end Operand

namespace Text

theorem foldlM_digits_eq_some_iff {radix value : Nat} {digits : List Char} (start : Nat) :
    digits.foldlM (fun value c => (digitValue? radix c).map (value * radix + ·)) start = some value ↔
      ∃ values, List.Forall₂ (fun c digit => digitValue? radix c = some digit) digits values ∧
        value = start * radix ^ values.length + Nat.ofDigits radix values.reverse := by
  induction digits generalizing start with
  | nil => simp [eq_comm]
  | cons c digits ih =>
    rw [List.foldlM_cons]
    cases hdigit : digitValue? radix c with
    | none =>
      refine iff_of_false nofun ?_
      rintro ⟨values, hvalues, -⟩
      obtain ⟨digit, _, hc, -, -⟩ := List.forall₂_cons_left_iff.1 hvalues
      rw [hdigit] at hc
      cases hc
    | some digit =>
      have hshift : ∀ values : List Nat,
          (start * radix + digit) * radix ^ values.length + Nat.ofDigits radix values.reverse =
          start * radix ^ (digit :: values).length + Nat.ofDigits radix (digit :: values).reverse := by
        intro values
        rw [List.reverse_cons, Nat.ofDigits_append, Nat.ofDigits_singleton, List.length_reverse, List.length_cons]
        ring
      refine (ih (start * radix + digit)).trans ?_
      constructor
      · rintro ⟨values, hvalues, rfl⟩
        exact ⟨digit :: values, .cons hdigit hvalues, hshift values⟩
      · rintro ⟨_, hvalues, rfl⟩
        obtain ⟨digit', values, hdigit', hrest, rfl⟩ := List.forall₂_cons_left_iff.1 hvalues
        obtain rfl := Option.some.inj (hdigit.symm.trans hdigit')
        exact ⟨values, hrest, (hshift values).symm⟩

theorem digitsValue?_eq_some_iff {radix : Nat} {digits : List Char} {value : Nat} :
    digitsValue? radix digits = some value ↔
      ∃ values, List.Forall₂ (fun c digit => digitValue? radix c = some digit) digits values ∧
        value = Nat.ofDigits radix values.reverse := by
  rw [digitsValue?, foldlM_digits_eq_some_iff]
  simp

theorem isIdentifierChar_of_digitValue? {radix digit : Nat} {c : Char} (h : digitValue? radix c = some digit) :
    isIdentifierChar c = true := by
  simp only [digitValue?, Option.filter_eq_some_iff] at h
  obtain ⟨h, -⟩ := h
  split_ifs at h with hdigit hlower hupper
  · simp [isIdentifierChar, hdigit]
  · simp [isIdentifierChar, hlower]
  · simp [isIdentifierChar, hupper]

theorem SpellsDigits.digit_of_mem {radix value : Nat} {digits : List Char} (h : SpellsDigits radix digits value) {c : Char}
    (hc : c ∈ digits) : ∃ digit, digitValue? radix c = some digit := by
  obtain ⟨-, values, hvalues, -⟩ := h
  obtain ⟨digit, -, hdigit⟩ := InStep.exists_right hvalues hc
  exact ⟨digit, hdigit⟩

end Text

namespace Operand

open Layout

theorem magnitude?_of_splitRadix {cs digits : List Char} {radix : Nat} (h : splitRadix cs = (radix, digits)) (value : Nat) :
    magnitude? cs = some value ↔ Text.SpellsDigits radix digits value := by
  rw [Text.SpellsDigits, ← Text.digitsValue?_eq_some_iff, magnitude?, h]
  cases digits <;> simp

/-- digits of radix ten are not taken for the mark of another radix -/
theorem splitRadix_of_spellsDigits {digits : List Char} {value : Nat} (h : Text.SpellsDigits 10 digits value) :
    splitRadix digits = (10, digits) := by
  unfold splitRadix
  split
  · obtain ⟨digit, hx⟩ := h.digit_of_mem (c := 'x') (by simp)
    cases hx
  · obtain ⟨digit, hb⟩ := h.digit_of_mem (c := 'b') (by simp)
    cases hb
  · rfl

theorem magnitude?_eq_some_iff {cs : List Char} {value : Nat} :
    magnitude? cs = some value ↔ SpellsMagnitude cs value := by
  constructor
  · intro h
    have hsplit : ∀ radix digits, splitRadix cs = (radix, digits) → Text.SpellsDigits radix digits value :=
      fun radix digits hradix => (magnitude?_of_splitRadix hradix value).1 h
    unfold splitRadix at hsplit
    split at hsplit
    · exact .hexadecimal (hsplit _ _ rfl)
    · exact .binary (hsplit _ _ rfl)
    · exact .decimal (hsplit _ _ rfl)
  · intro h
    cases h with
    | decimal hdigits => exact (magnitude?_of_splitRadix (splitRadix_of_spellsDigits hdigits) value).2 hdigits
    | hexadecimal hdigits => exact (magnitude?_of_splitRadix rfl value).2 hdigits
    | binary hdigits => exact (magnitude?_of_splitRadix rfl value).2 hdigits

/-- a number without a sign is made of digits and letters -/
theorem SpellsMagnitude.isIdentifierChar_of_mem {cs : List Char} {value : Nat} (h : SpellsMagnitude cs value) {c : Char}
    (hc : c ∈ cs) : isIdentifierChar c = true := by
  have hdigits : ∀ {radix : Nat} {digits : List Char}, Text.SpellsDigits radix digits value → c ∈ digits →
      isIdentifierChar c = true := by
    intro radix digits hspells hmem
    obtain ⟨digit, hdigit⟩ := hspells.digit_of_mem hmem
    exact Text.isIdentifierChar_of_digitValue? hdigit
  cases h with
  | decimal h => exact hdigits h hc
  | hexadecimal h =>
    rcases List.mem_cons.1 hc with rfl | hc
    · decide
    · rcases List.mem_cons.1 hc with rfl | hc
      · decide
      · exact hdigits h hc
  | binary h =>
    rcases List.mem_cons.1 hc with rfl | hc
    · decide
    · rcases List.mem_cons.1 hc with rfl | hc
      · decide
      · exact hdigits h hc

theorem integer?_of_magnitude {text : String} {value : Nat} (h : SpellsMagnitude text.toList value) :
    integer? text = some (value : Int) ∧ integer? ("-" ++ text) = some (-(value : Int)) := by
  have hmagnitude := magnitude?_eq_some_iff.2 h
  constructor
  · have hsign : ∀ cs, text.toList ≠ '-' :: cs := by
      intro cs hcs
      have hminus := h.isIdentifierChar_of_mem (c := '-') (hcs ▸ List.mem_cons_self)
      exact absurd hminus (by decide)
    rw [(parseNumber?_of_no_minus hsign).2, hmagnitude]
    rfl
  · have hsign : ("-" ++ text).toList = '-' :: text.toList := by simp
    rw [(parseNumber?_of_minus hsign).2, hmagnitude]
    rfl

theorem integer?_eq_some_iff {word : String} {number : Int} : integer? word = some number ↔ SpellsNumber word number := by
  constructor
  · intro h
    by_cases hminus : ∃ cs, word.toList = '-' :: cs
    · obtain ⟨cs, hcs⟩ := hminus
      rw [(parseNumber?_of_minus hcs).2] at h
      obtain ⟨value, hvalue, rfl⟩ := Option.map_eq_some_iff.1 h
      have hword : word = "-" ++ String.ofList cs := by
        rw [← String.toList_inj, hcs]
        simp
      rw [hword]
      refine .minus ?_
      rw [String.toList_ofList]
      exact magnitude?_eq_some_iff.1 hvalue
    · rw [(parseNumber?_of_no_minus (not_exists.1 hminus)).2] at h
      obtain ⟨value, hvalue, rfl⟩ := Option.map_eq_some_iff.1 h
      exact .plain (magnitude?_eq_some_iff.1 hvalue)
  · intro h
    cases h with
    | plain h => exact (integer?_of_magnitude h).1
    | minus h => exact (integer?_of_magnitude h).2

/-- whatever is an integer is read as a byte -/
theorem isSome_parseNumber? (word : String) : (parseNumber? word).isSome = (integer? word).isSome := by
  have hmagnitude : ∀ cs, (parseMagnitude? cs).isSome = (magnitude? cs).isSome := by
    intro cs
    simp only [parseMagnitude?, magnitude?]
    split
    · rfl
    · rw [residue?_eq, Option.isSome_map, Option.isSome_map]
  by_cases hminus : ∃ cs, word.toList = '-' :: cs
  · obtain ⟨cs, hcs⟩ := hminus
    obtain ⟨hparse, hinteger⟩ := parseNumber?_of_minus hcs
    rw [hparse, hinteger, Option.isSome_map, Option.isSome_map, hmagnitude]
  · obtain ⟨hparse, hinteger⟩ := parseNumber?_of_no_minus (not_exists.1 hminus)
    rw [hparse, hinteger, Option.isSome_map, hmagnitude]

/-- **A text is read as the number that it spells,** modulo 256. -/
theorem parseNumber?_eq_some_iff {word : String} {value : Byte} :
    parseNumber? word = some value ↔ ∃ number, SpellsNumber word number ∧ (value.toNat : Int) = number % 256 := by
  constructor
  · intro h
    obtain ⟨number, hnumber, hvalue⟩ := parseNumber?_eq_some h
    exact ⟨number, integer?_eq_some_iff.1 hnumber, hvalue⟩
  · rintro ⟨number, hspells, hvalue⟩
    have hnumber := integer?_eq_some_iff.2 hspells
    have hsome : (parseNumber? word).isSome := by rw [isSome_parseNumber?, hnumber]; rfl
    obtain ⟨found, hfound⟩ := Option.isSome_iff_exists.1 hsome
    obtain ⟨number', hnumber', hvalue'⟩ := parseNumber?_eq_some hfound
    obtain rfl := Option.some.inj (hnumber.symm.trans hnumber')
    rw [hfound, ← UInt8.toNat_inj.1 (Int.ofNat.inj (hvalue.trans hvalue'.symm))]

theorem SpellsNumber.ne_mark_of_mem {word : String} {number : Int} (h : SpellsNumber word number) {c : Char}
    (hc : c ∈ word.toList) : c ≠ '%' ∧ c ≠ ':' := by
  have hchar : c = '-' ∨ isIdentifierChar c = true := by
    cases h with
    | plain h => exact .inr (h.isIdentifierChar_of_mem hc)
    | minus h =>
      rw [String.toList_append, List.mem_append] at hc
      rcases hc with hsign | hc
      · exact .inl (by simpa using hsign)
      · exact .inr (h.isIdentifierChar_of_mem hc)
  constructor
  · rintro rfl
    exact absurd hchar (by decide)
  · rintro rfl
    exact absurd hchar (by decide)

/-! ## Operand words -/

theorem addressOf_eq_ok_iff {text : String} {halves : List Half} {operands : List Operand} :
    addressOf text halves = .ok operands ↔ ∃ name : Name, name.Spells text ∧ operands = halves.map (address name) := by
  constructor
  · intro h
    obtain ⟨name, hname, hoperands⟩ := addressOf_eq_ok h
    exact ⟨name, Name.parse?_false_eq_some_iff.1 hname, hoperands⟩
  · rintro ⟨name, hname, rfl⟩
    rw [addressOf, Name.parse?_of_spells hname]

theorem parse_both (text : String) : parse ("%" ++ text) = addressOf text [.low, .high] := by
  simp [parse]

theorem parse_low (text : String) : parse (":" ++ text) = addressOf text [.low] := by
  simp [parse]

theorem parse_high_of_spells {text : String} {name : Name} (h : name.Spells text) :
    parse (text ++ ":") = addressOf text [.high] := by
  have hpercent := h.notMem (c := '%') (by decide) (by decide) (by decide)
  have hcolon := h.notMem (c := ':') (by decide) (by decide) (by decide)
  have hword : (text ++ ":").toList = text.toList ++ [':'] := by simp
  cases htext : text.toList with
  | nil =>
    obtain rfl : text = "" := by rw [← String.toList_inj, htext]; rfl
    have hnone : Name.parse? false "" = none := by decide
    rw [Name.parse?_of_spells h] at hnone
    cases hnone
  | cons c cs =>
    rw [htext] at hpercent hcolon hword
    have hlast : (c :: cs ++ [':']).getLast? = some ':' := List.getLast?_concat
    unfold parse
    rw [hword]
    split
    · rename_i heq
      exact absurd (List.cons.inj heq).1 (List.ne_of_not_mem_cons hpercent).symm
    · rename_i heq
      exact absurd (List.cons.inj heq).1 (List.ne_of_not_mem_cons hcolon).symm
    · rw [if_pos hlast, List.dropLast_concat, ← htext, String.ofList_toList]

theorem spells_of_parse {word : String} {operands : List Operand} (h : parse word = .ok operands) :
    Spells word operands := by
  unfold parse at h
  split at h
  · rename_i cs hcs
    obtain ⟨name, hname, rfl⟩ := addressOf_eq_ok_iff.1 h
    obtain rfl : word = "%" ++ String.ofList cs := by
      rw [← String.toList_inj, hcs]
      simp
    exact .both hname
  · rename_i cs hcs
    obtain ⟨name, hname, rfl⟩ := addressOf_eq_ok_iff.1 h
    obtain rfl : word = ":" ++ String.ofList cs := by
      rw [← String.toList_inj, hcs]
      simp
    exact .low hname
  · split at h
    · rename_i hlast
      obtain ⟨name, hname, rfl⟩ := addressOf_eq_ok_iff.1 h
      have hword : word.toList.dropLast ++ [':'] = word.toList := List.dropLast_append_getLast? _ hlast
      have htext : String.ofList word.toList.dropLast ++ ":" = word := by
        rw [← String.toList_inj, String.toList_append, String.toList_ofList]
        exact hword
      rw [← htext]
      exact .high hname
    · split at h
      · rename_i value hvalue
        obtain rfl := Except.ok.inj h
        obtain ⟨number, hspells, hvalue⟩ := parseNumber?_eq_some_iff.1 hvalue
        exact .number hspells hvalue
      · rename_i r _ hr
        obtain rfl := Except.ok.inj h
        have hname := List.find?_some hr
        obtain rfl : r.name = word := of_decide_eq_true hname
        exact .register r
      · cases h

/-- **A word is read as the operands that it stands for.** -/
theorem parse_eq_ok_iff {word : String} {operands : List Operand} : parse word = .ok operands ↔ Spells word operands := by
  refine ⟨spells_of_parse, fun h => ?_⟩
  cases h with
  | both hname => exact (parse_both _).trans (addressOf_eq_ok_iff.2 ⟨_, hname, rfl⟩)
  | low hname => exact (parse_low _).trans (addressOf_eq_ok_iff.2 ⟨_, hname, rfl⟩)
  | high hname => exact (parse_high_of_spells hname).trans (addressOf_eq_ok_iff.2 ⟨_, hname, rfl⟩)
  | number hspells hvalue =>
    exact parse_number (fun c hc => hspells.ne_mark_of_mem hc) (parseNumber?_eq_some_iff.2 ⟨_, hspells, hvalue⟩)
  | register r => exact parse_registerName r

end Operand

end ByteMachine
