/-
Mount addresses. Both commands take a mount as digits of a radix, with `0x` in front of hexadecimal ones and with or
without a plus sign, and refuse a number that is no address. The runner reads a number of sixty-four bits first and the
assembler one of sixteen; no text tells them apart.

- `Text.Numeral`: the texts of numbers, with leading zeros as one likes.
- `Text.number?_eq_some_iff`: the numbers below a limit that are read from texts.
- `mounts_are_read_alike`: the mounts of both commands.
-/
import Mathlib.Tactic
import ByteMachine.Command.Assembler
import ByteMachine.Command.Runner
import ByteMachine.Proofs.Reading.Literals

namespace ByteMachine

namespace Text

/-! ## Numbers of settings -/

/-- how many digits there are in the radix of a number -/
def Numeral.base (hexadecimal : Bool) : Nat := if hexadecimal then 16 else 10

/-- a number as it is written: its radix, its plus sign, and its digits with the values that they have -/
structure Numeral where
  hexadecimal : Bool
  plus : Bool
  digits : List Char
  values : List Nat
  ne_nil : digits ≠ []
  spelled : List.Forall₂ (IsDigit (Numeral.base hexadecimal)) digits values

namespace Numeral

def text (numeral : Numeral) : String :=
  (if numeral.hexadecimal then "0x" else "") ++ (if numeral.plus then "+" else "") ++ String.ofList numeral.digits

def value (numeral : Numeral) : Nat := Nat.ofDigits (base numeral.hexadecimal) numeral.values.reverse

theorem base_le (hexadecimal : Bool) : base hexadecimal ≤ 16 := by
  cases hexadecimal <;> decide

/-- what stands after the mark of the radix -/
theorem exists_numeral_iff {text : String} {value : Nat} :
    (∃ numeral : Numeral, numeral.text = text ∧ numeral.value = value) ↔
      ∃ (hexadecimal plus : Bool) (digits : List Char),
        text.toList = (if hexadecimal then ['0', 'x'] else []) ++ ((if plus then ['+'] else []) ++ digits) ∧
          SpellsDigits (base hexadecimal) digits value := by
  constructor
  · rintro ⟨numeral, rfl, rfl⟩
    refine ⟨numeral.hexadecimal, numeral.plus, numeral.digits, ?_,
      (spellsDigits_iff (base_le _)).2 ⟨numeral.ne_nil, numeral.values, numeral.spelled, rfl⟩⟩
    cases hmark : numeral.hexadecimal <;> cases hplus : numeral.plus <;> simp [text, hmark, hplus]
  · rintro ⟨hexadecimal, plus, digits, htext, hdigits⟩
    obtain ⟨hne, values, hvalues, rfl⟩ := (spellsDigits_iff (base_le _)).1 hdigits
    refine ⟨⟨hexadecimal, plus, digits, values, hne, hvalues⟩, ?_, rfl⟩
    rw [← String.toList_inj, htext]
    cases hexadecimal <;> cases plus <;> simp [Numeral.text]

end Numeral

/-- a plus sign is no digit -/
theorem SpellsDigits.ne_plus {radix value : Nat} {digits : List Char} (h : SpellsDigits radix digits value)
    (cs : List Char) : digits ≠ '+' :: cs := by
  rintro rfl
  obtain ⟨digit, hplus⟩ := h.digit_of_mem List.mem_cons_self
  exact absurd (isIdentifierChar_of_digitValue? hplus) (by decide)

/-- the number below a limit that digits spell, with or without a plus sign before them -/
def unsigned? (limit radix : Nat) (cs : List Char) : Option Nat :=
  let digits := match cs with
    | '+' :: cs => cs
    | cs => cs
  if digits.isEmpty then none else (digitsValue? radix digits).filter (· < limit)

theorem number?_eq (limit : Nat) (text : String) :
    number? limit text = match text.toList with
      | '0' :: 'x' :: cs => unsigned? limit 16 cs
      | cs => unsigned? limit 10 cs := by
  let marked := match text.toList with
    | '0' :: 'x' :: cs => (16, cs)
    | cs => (10, cs)
  have hmark : number? limit text = unsigned? limit marked.1 marked.2 := rfl
  rw [hmark]
  simp only [marked]
  split <;> rfl

variable {limit radix value : Nat} {cs : List Char}

theorem filter_digitsValue?_eq_some_iff :
    (if cs.isEmpty then none else (digitsValue? radix cs).filter (· < limit)) = some value ↔
      value < limit ∧ SpellsDigits radix cs value := by
  rw [SpellsDigits, ← digitsValue?_eq_some_iff]
  cases cs with
  | nil => simp
  | cons c cs =>
    simp only [List.isEmpty_cons, Bool.false_eq_true, if_false, Option.filter_eq_some_iff, decide_eq_true_eq, ne_eq,
      reduceCtorEq, not_false_eq_true, true_and]
    exact and_comm

theorem unsigned?_eq_some_iff :
    unsigned? limit radix cs = some value ↔
      value < limit ∧ ∃ (plus : Bool) (digits : List Char), cs = (if plus then ['+'] else []) ++ digits ∧
        SpellsDigits radix digits value := by
  unfold unsigned?
  constructor
  · intro h
    obtain ⟨hlimit, hdigits⟩ := filter_digitsValue?_eq_some_iff.1 h
    refine ⟨hlimit, ?_⟩
    split at hdigits
    · exact ⟨true, _, rfl, hdigits⟩
    · exact ⟨false, _, rfl, hdigits⟩
  · rintro ⟨hlimit, plus, digits, rfl, hdigits⟩
    refine filter_digitsValue?_eq_some_iff.2 ⟨hlimit, ?_⟩
    cases plus with
    | true => exact hdigits
    | false =>
      split
      · rename_i hsign
        exact absurd hsign (hdigits.ne_plus _)
      · exact hdigits

/-- decimal digits with a sign or without one are not taken for the mark of the other radix -/
theorem SpellsDigits.ne_mark {plus : Bool} {digits : List Char} (h : SpellsDigits 10 digits value) (cs : List Char) :
    (if plus then ['+'] else []) ++ digits ≠ '0' :: 'x' :: cs := by
  intro hmark
  cases plus with
  | true => cases hmark
  | false =>
    obtain rfl : digits = '0' :: 'x' :: cs := hmark
    obtain ⟨digit, hx⟩ := h.digit_of_mem (c := 'x') (by simp)
    cases hx

/-- **The numbers below a limit that are read** are those of the numerals. -/
theorem number?_eq_some_iff {text : String} :
    number? limit text = some value ↔
      value < limit ∧ ∃ numeral : Numeral, numeral.text = text ∧ numeral.value = value := by
  rw [number?_eq, Numeral.exists_numeral_iff]
  constructor
  · intro h
    split at h
    · rename_i cs htext
      obtain ⟨hlimit, plus, digits, rfl, hdigits⟩ := unsigned?_eq_some_iff.1 h
      exact ⟨hlimit, true, plus, digits, htext, hdigits⟩
    · obtain ⟨hlimit, plus, digits, htext, hdigits⟩ := unsigned?_eq_some_iff.1 h
      exact ⟨hlimit, false, plus, digits, htext, hdigits⟩
  · rintro ⟨hlimit, hexadecimal, plus, digits, htext, hdigits⟩
    cases hexadecimal with
    | true =>
      rw [htext]
      exact unsigned?_eq_some_iff.2 ⟨hlimit, plus, digits, rfl, hdigits⟩
    | false =>
      split
      · rename_i cs hmark
        exact absurd (htext.symm.trans hmark) (hdigits.ne_mark cs)
      · exact unsigned?_eq_some_iff.2 ⟨hlimit, plus, digits, htext, hdigits⟩

end Text

namespace Command

open Text (Numeral)

/-! ## Mounts -/

/-- the mount that the runner takes from the value of its option -/
def Runner.givenMount? (value : String) : Option Word :=
  (Runner.optionTable.read Runner.Options.default ["--mount", value]).toOption.map (·.mount)

/-- the mount that the assembler takes from the value of its option -/
def Assembler.givenMount? (value : String) : Option Word :=
  (Assembler.optionTable.read Assembler.Options.default ["--mount", value]).toOption.map (·.mount)

/-- an option and its value alone are read as the option takes its value -/
theorem OptionTable.read_pair {ω : Type} {table : OptionTable ω} {options : ω} {option : String}
    {take : String → Except UsageError ω} (hflag : table.flag? options option = none)
    (htake : table.value? options option = some take) (value : String) :
    table.read options [option, value] = take value := by
  unfold OptionTable.read
  rw [hflag, htake]
  -- nothing is left to read after the value
  change (take value >>= fun options => table.read options []) = take value
  cases take value <;> rfl

theorem Runner.givenMount?_eq (value : String) : Runner.givenMount? value = Runner.mountOf? value := by
  rw [givenMount?, @OptionTable.read_pair _ optionTable Options.default "--mount" _ rfl rfl value]
  cases Runner.mountOf? value <;> rfl

theorem Assembler.givenMount?_eq (value : String) : Assembler.givenMount? value = Assembler.mountOf? value := by
  rw [givenMount?, @OptionTable.read_pair _ optionTable Options.default "--mount" _ rfl rfl value]
  cases Assembler.mountOf? value <;> rfl

theorem Assembler.mountOf?_eq_some_iff {value : String} {address : Word} :
    Assembler.mountOf? value = some address ↔
      ∃ numeral : Numeral, numeral.text = value ∧ numeral.value ≤ 0xffff ∧ address.toNat = numeral.value := by
  unfold mountOf?
  simp only [Option.map_eq_some_iff, Text.number?_eq_some_iff]
  constructor
  · rintro ⟨_, ⟨hlimit, numeral, htext, rfl⟩, rfl⟩
    exact ⟨numeral, htext, Nat.le_of_lt_succ hlimit, UInt16.toNat_ofNat_of_lt' hlimit⟩
  · rintro ⟨numeral, htext, hlimit, haddress⟩
    refine ⟨numeral.value, ⟨Nat.lt_succ_of_le hlimit, numeral, htext, rfl⟩, ?_⟩
    rw [← haddress, UInt16.ofNat_toNat]

/-- a number of sixteen bits is one of sixty-four, so reading the longer one first refuses nothing more -/
theorem Runner.mountOf?_eq (value : String) : Runner.mountOf? value = Assembler.mountOf? value := by
  have hnarrow : (countOf? value).filter (· < 0x10000) = Text.number? 0x10000 value := by
    apply Option.ext
    intro number
    simp only [countOf?, Option.filter_eq_some_iff, Text.number?_eq_some_iff, decide_eq_true_eq]
    constructor
    · rintro ⟨⟨-, hnumeral⟩, hlimit⟩
      exact ⟨hlimit, hnumeral⟩
    · rintro ⟨hlimit, hnumeral⟩
      exact ⟨⟨by omega, hnumeral⟩, hlimit⟩
  rw [mountOf?, hnarrow, Assembler.mountOf?]

/-- **Both commands read mounts alike.** A text gives both the same mount or none, and it gives an address iff it is a
numeral of that number: `0x` or nothing, a plus sign or none, and at least one digit of the radix. -/
theorem mounts_are_read_alike (value : String) :
    Runner.givenMount? value = Assembler.givenMount? value ∧
      ∀ address : Word, Assembler.givenMount? value = some address ↔
        ∃ numeral : Numeral, numeral.text = value ∧ numeral.value ≤ 0xffff ∧ address.toNat = numeral.value := by
  rw [Runner.givenMount?_eq, Assembler.givenMount?_eq]
  exact ⟨Runner.mountOf?_eq value, fun address => Assembler.mountOf?_eq_some_iff⟩

example : Runner.givenMount? "0x+000000000000000000fF" = some 0xff ∧ Assembler.givenMount? "65536" = none := by
  decide +kernel

end Command

end ByteMachine
