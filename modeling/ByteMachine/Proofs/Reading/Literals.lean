/-
Number literals. A literal is a minus sign or none, the mark of a radix, and at least one digit, and its number is the
integer that the digits spell, negative after the sign. The reading never has that integer: it takes the value modulo
256 after every digit, so that what it computes stays small however long the text is.

- `Operand.Literal.number_unique`: a text is the literal of one number at most.
- `Operand.Computes.lt`: what is computed while digits are read fits in thirty-two bits.
- `Operand.parseNumber?_reads_literals`: the texts that are read as numbers, and as which bytes.
-/
import Mathlib.Tactic
import ByteMachine.Proofs.Reading.Operands

namespace ByteMachine

/-- the character is the digit of the value in the base; from ten on the digits are letters of either case -/
def Text.IsDigit (base : Nat) (c : Char) (value : Nat) : Prop :=
  value < base ∧ (c = value.digitChar ∨ c = value.digitChar.toUpper)

instance (base : Nat) (c : Char) (value : Nat) : Decidable (Text.IsDigit base c value) :=
  inferInstanceAs (Decidable (_ ∧ _))

namespace Operand

inductive Radix where
  | decimal
  | hexadecimal
  | binary
  deriving DecidableEq, Repr

def Radix.base : Radix → Nat
  | decimal => 10
  | hexadecimal => 16
  | binary => 2

/-- what stands in front of the digits -/
def Radix.mark : Radix → String
  | decimal => ""
  | hexadecimal => "0x"
  | binary => "0b"

/-- a number as it is written: its sign, its radix, and its digits with the values that they have -/
structure Literal where
  negative : Bool
  radix : Radix
  digits : List Char
  values : List Nat
  ne_nil : digits ≠ []
  spelled : List.Forall₂ (Text.IsDigit radix.base) digits values

namespace Literal

def text (literal : Literal) : String :=
  (if literal.negative then "-" else "") ++ (literal.radix.mark ++ String.ofList literal.digits)

/-- the value of the digits, the most significant one first -/
def magnitude (literal : Literal) : Nat := Nat.ofDigits literal.radix.base literal.values.reverse

def number (literal : Literal) : Int := if literal.negative then -literal.magnitude else literal.magnitude

end Literal

/-- what is computed while digits are read: the value of those that were read, and for the next digit its own value, the
product that makes room for it, and the sum, of which the remainder is the next value -/
inductive Computes (base : Nat) (digits : List Char) : Nat → Prop
  | value {read : List Char} {value : Nat} :
      read <+: digits → residue? base read = some value → Computes base digits value
  | digit {read : List Char} {c : Char} {value digit : Nat} :
      read ++ [c] <+: digits → residue? base read = some value → Text.digitValue? base c = some digit →
        Computes base digits digit
  | product {read : List Char} {c : Char} {value digit : Nat} :
      read ++ [c] <+: digits → residue? base read = some value → Text.digitValue? base c = some digit →
        Computes base digits (value * base)
  | sum {read : List Char} {c : Char} {value digit : Nat} :
      read ++ [c] <+: digits → residue? base read = some value → Text.digitValue? base c = some digit →
        Computes base digits (value * base + digit)

end Operand

/-! ## Digits -/

namespace Text

theorem digitValue?_lt {base digit : Nat} {c : Char} (h : digitValue? base c = some digit) : digit < base := by
  simp only [digitValue?, Option.filter_eq_some_iff, decide_eq_true_eq] at h
  exact h.2

theorem digitValue?_toUpper_digitChar {base digit : Nat} (hdigit : digit < base) (hbase : base ≤ 16) :
    digitValue? base digit.digitChar.toUpper = some digit := by
  have hdigit16 : digit < 16 := by omega
  unfold digitValue?
  interval_cases digit <;> simp +decide [hdigit]

/-- a character that has a value below sixteen is the digit of that value -/
theorem eq_digitChar_of_digitValue? {base digit : Nat} {c : Char} (hdigit : digit < 16)
    (h : digitValue? base c = some digit) : c = digit.digitChar ∨ c = digit.digitChar.toUpper := by
  simp only [digitValue?, Option.filter_eq_some_iff] at h
  obtain ⟨h, -⟩ := h
  split_ifs at h with hdecimal hlower hupper
  · have hfirst : 48 ≤ c.toNat := hdecimal.1
    have hlast : c.toNat ≤ 57 := hdecimal.2
    have hvalue : c.toNat - 48 = digit := Option.some.inj h
    refine .inl (Char.toNat_inj.1 ?_)
    rw [Nat.toNat_digitChar_of_lt_ten (by omega)]
    omega
  · have hfirst : 97 ≤ c.toNat := hlower.1
    have hvalue : c.toNat - 97 + 10 = digit := Option.some.inj h
    have hchar : c.toNat = digit + 87 := by omega
    have hten : 10 ≤ digit := by omega
    refine .inl (Char.toNat_inj.1 (hchar.trans ?_))
    interval_cases digit <;> rfl
  · have hfirst : 65 ≤ c.toNat := hupper.1
    have hvalue : c.toNat - 65 + 10 = digit := Option.some.inj h
    have hchar : c.toNat = digit + 55 := by omega
    have hten : 10 ≤ digit := by omega
    refine .inr (Char.toNat_inj.1 (hchar.trans ?_))
    interval_cases digit <;> rfl

/-- a character is given the value of the digit that it is -/
theorem digitValue?_eq_some_iff {base digit : Nat} {c : Char} (hbase : base ≤ 16) :
    digitValue? base c = some digit ↔ IsDigit base c digit := by
  constructor
  · intro h
    have hlt := digitValue?_lt h
    exact ⟨hlt, eq_digitChar_of_digitValue? (hlt.trans_le hbase) h⟩
  · rintro ⟨hlt, rfl | rfl⟩
    · exact digitValue?_digitChar hlt hbase
    · exact digitValue?_toUpper_digitChar hlt hbase

theorem spellsDigits_iff {base value : Nat} {digits : List Char} (hbase : base ≤ 16) :
    SpellsDigits base digits value ↔
      digits ≠ [] ∧ ∃ values, List.Forall₂ (IsDigit base) digits values ∧ value = Nat.ofDigits base values.reverse := by
  have hdigit : (fun c digit => digitValue? base c = some digit) = IsDigit base := by
    funext c digit
    exact propext (digitValue?_eq_some_iff hbase)
  rw [SpellsDigits, hdigit]

end Text

namespace Operand

/-! ## Literals -/

theorem Radix.base_le (radix : Radix) : radix.base ≤ 16 := by
  cases radix <;> decide

/-- the magnitude of a number is a mark and digits in the radix of the mark -/
theorem spellsMagnitude_iff {cs : List Char} {value : Nat} :
    SpellsMagnitude cs value ↔
      ∃ (radix : Radix) (digits : List Char), cs = radix.mark.toList ++ digits ∧
        Text.SpellsDigits radix.base digits value := by
  constructor
  · intro h
    cases h with
    | decimal hdigits => exact ⟨.decimal, cs, rfl, hdigits⟩
    | @hexadecimal digits _ hdigits => exact ⟨.hexadecimal, digits, rfl, hdigits⟩
    | @binary digits _ hdigits => exact ⟨.binary, digits, rfl, hdigits⟩
  · rintro ⟨radix, digits, rfl, hdigits⟩
    cases radix with
    | decimal => exact .decimal hdigits
    | hexadecimal => exact .hexadecimal hdigits
    | binary => exact .binary hdigits

namespace Literal

theorem spellsMagnitude (literal : Literal) :
    SpellsMagnitude (literal.radix.mark ++ String.ofList literal.digits).toList literal.magnitude := by
  refine spellsMagnitude_iff.2 ⟨literal.radix, literal.digits, by simp, ?_⟩
  exact (Text.spellsDigits_iff literal.radix.base_le).2 ⟨literal.ne_nil, literal.values, literal.spelled, rfl⟩

/-- the text of a literal spells its number -/
theorem spellsNumber (literal : Literal) : SpellsNumber literal.text literal.number := by
  have hmagnitude := literal.spellsMagnitude
  rw [text, number]
  cases literal.negative with
  | false => simpa using SpellsNumber.plain hmagnitude
  | true => exact .minus hmagnitude

/-- a text is the literal of one number at most -/
theorem number_unique {literal other : Literal} (h : literal.text = other.text) : literal.number = other.number := by
  have hnumber := integer?_eq_some_iff.2 literal.spellsNumber
  rw [h, integer?_eq_some_iff.2 other.spellsNumber] at hnumber
  exact (Option.some.inj hnumber).symm

end Literal

theorem SpellsMagnitude.exists_literal {text : String} {value : Nat} (h : SpellsMagnitude text.toList value)
    (negative : Bool) :
    ∃ literal : Literal, literal.negative = negative ∧ literal.radix.mark ++ String.ofList literal.digits = text ∧
      literal.magnitude = value := by
  obtain ⟨radix, digits, htext, hdigits⟩ := spellsMagnitude_iff.1 h
  obtain ⟨hne, values, hvalues, hvalue⟩ := (Text.spellsDigits_iff radix.base_le).1 hdigits
  refine ⟨⟨negative, radix, digits, values, hne, hvalues⟩, rfl, ?_, hvalue.symm⟩
  rw [← String.toList_inj, htext, String.toList_append, String.toList_ofList]

/-- the texts that spell a number are those of its literals -/
theorem spellsNumber_iff {text : String} {number : Int} :
    SpellsNumber text number ↔ ∃ literal : Literal, literal.text = text ∧ literal.number = number := by
  constructor
  · intro h
    cases h with
    | plain hmagnitude =>
      obtain ⟨literal, hsign, htext, hvalue⟩ := hmagnitude.exists_literal false
      exact ⟨literal, by simp [Literal.text, hsign, htext], by simp [Literal.number, hsign, hvalue]⟩
    | minus hmagnitude =>
      obtain ⟨literal, hsign, htext, hvalue⟩ := hmagnitude.exists_literal true
      exact ⟨literal, by simp [Literal.text, hsign, htext], by simp [Literal.number, hsign, hvalue]⟩
  · rintro ⟨literal, rfl, rfl⟩
    exact literal.spellsNumber

/-! ## What is computed -/

/-- one digit more -/
theorem residue?_concat (base : Nat) (read : List Char) (c : Char) :
    residue? base (read ++ [c]) =
      (residue? base read).bind fun value =>
        (Text.digitValue? base c).map fun digit => (value * base + digit) % 256 := by
  rw [residue?_append]
  congr 1
  funext value
  exact List.foldlM_cons.trans (bind_pure _)

theorem residue?_lt {base value : Nat} {digits : List Char} (h : residue? base digits = some value) : value < 256 := by
  rcases List.eq_nil_or_concat digits with rfl | ⟨read, c, rfl⟩
  · obtain rfl : 0 = value := Option.some.inj h
    decide
  · rw [List.concat_eq_append, residue?_concat] at h
    obtain ⟨before, -, h⟩ := Option.bind_eq_some_iff.1 h
    obtain ⟨digit, -, rfl⟩ := Option.map_eq_some_iff.1 h
    exact Nat.mod_lt _ (by decide)

/-- **Nothing grows.** Every number that is computed on the way fits in thirty-two bits. -/
theorem Computes.lt {base n : Nat} {digits : List Char} (hbase : base ≤ 16) (h : Computes base digits n) :
    n < 2 ^ 32 := by
  have hproduct : ∀ {read : List Char} {value : Nat}, residue? base read = some value → value * base ≤ 255 * 16 := by
    intro read value hvalue
    have hlt := residue?_lt hvalue
    exact Nat.mul_le_mul (by omega) hbase
  cases h with
  | value _ hvalue =>
    have hlt := residue?_lt hvalue
    omega
  | digit _ _ hdigit =>
    have hlt := Text.digitValue?_lt hdigit
    omega
  | product _ hvalue _ =>
    have hle := hproduct hvalue
    omega
  | sum _ hvalue hdigit =>
    have hle := hproduct hvalue
    have hlt := Text.digitValue?_lt hdigit
    omega

theorem splitRadix_le (cs : List Char) : (splitRadix cs).1 ≤ 16 := by
  unfold splitRadix
  split <;> simp

/-- **A text is read as a number iff it is a literal.** The byte that it is read as is the number of the literal modulo
256, whatever the length of the literal, and a text is the literal of one number only. Nothing that is computed while
the digits behind a sign and a mark are read, up to the first character that is none, takes more than thirty-two bits. -/
theorem parseNumber?_reads_literals (text : String) :
    (∀ value, parseNumber? text = some value ↔
      ∃ literal : Literal, literal.text = text ∧ (value.toNat : Int) = literal.number % 256) ∧
    (∀ literal other : Literal, literal.text = text → other.text = text → literal.number = other.number) ∧
    ∀ cs, text.toList = cs ∨ text.toList = '-' :: cs →
      ∀ n, Computes (splitRadix cs).1 (splitRadix cs).2 n → n < 2 ^ 32 := by
  refine ⟨fun value => ?_, fun literal other h h' => Literal.number_unique (h.trans h'.symm),
    fun cs _ n hn => hn.lt (splitRadix_le cs)⟩
  rw [parseNumber?_eq_some_iff]
  constructor
  · rintro ⟨number, hspells, hvalue⟩
    obtain ⟨literal, htext, rfl⟩ := spellsNumber_iff.1 hspells
    exact ⟨literal, htext, hvalue⟩
  · rintro ⟨literal, htext, hvalue⟩
    exact ⟨literal.number, spellsNumber_iff.2 ⟨literal, htext, rfl⟩, hvalue⟩

/-- a number of seventy-six bits, negative, with letters of both cases -/
def longLiteral : Literal where
  negative := true
  radix := .hexadecimal
  digits := "123456789aBcDeF0123".toList
  values := [1, 2, 3, 4, 5, 6, 7, 8, 9, 10, 11, 12, 13, 14, 15, 0, 1, 2, 3]
  ne_nil := by decide
  spelled := by decide

theorem longLiteral_is_read :
    parseNumber? "-0x123456789aBcDeF0123" = some 221 ∧ longLiteral.number = -0x123456789abcdef0123 ∧
      Computes 16 "123456789aBcDeF0123".toList (0x23 * 16 + 4) ∧ 0x23 * 16 + 4 < 2 ^ 32 := by
  have htext : longLiteral.text = "-0x123456789aBcDeF0123" := by decide
  have hnumber : longLiteral.number = -0x123456789abcdef0123 := by decide
  obtain ⟨hread, hunique, hsmall⟩ := parseNumber?_reads_literals "-0x123456789aBcDeF0123"
  have hcomputes : Computes 16 "123456789aBcDeF0123".toList (0x23 * 16 + 4) :=
    @Computes.sum _ _ "123".toList '4' 0x23 4 (by decide) (by decide) (by decide)
  refine ⟨(hread 221).2 ⟨longLiteral, htext, ?_⟩, ?_, hcomputes, ?_⟩
  · rw [hnumber]
    decide
  · exact (hunique longLiteral longLiteral htext htext).trans hnumber
  · exact hsmall "0x123456789aBcDeF0123".toList (.inr rfl) _ hcomputes

end Operand

end ByteMachine
