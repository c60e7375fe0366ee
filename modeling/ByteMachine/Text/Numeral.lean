/-
Numerals: the value of a digit in a radix, natural numbers written in hexadecimal with a fixed least number of digits,
and text set to the left or right of a column.
-/

namespace ByteMachine.Text

/-- the value of `c` as a digit of the radix (at most 36); letters of both cases count from ten -/
def digitValue? (radix : Nat) (c : Char) : Option Nat :=
  let value? : Option Nat :=
    if '0' ≤ c ∧ c ≤ '9' then some (c.toNat - '0'.toNat)
    else if 'a' ≤ c ∧ c ≤ 'z' then some (c.toNat - 'a'.toNat + 10)
    else if 'A' ≤ c ∧ c ≤ 'Z' then some (c.toNat - 'A'.toNat + 10)
    else none
  value?.filter (· < radix)

/-- the value of a run of digits, or nothing if some character is no digit of the radix -/
def digitsValue? (radix : Nat) (cs : List Char) : Option Nat :=
  cs.foldlM (fun value c => (digitValue? radix c).map (value * radix + ·)) 0

/-- the number that a setting spells, if it is below the limit: digits, in hexadecimal after `0x`, with an optional plus
sign before the digits -/
def number? (limit : Nat) (text : String) : Option Nat :=
  let (radix, signed) := match text.toList with
    | '0' :: 'x' :: cs => (16, cs)
    | cs => (10, cs)
  let digits := match signed with
    | '+' :: cs => cs
    | cs => cs
  if digits.isEmpty then none else (digitsValue? radix digits).filter (· < limit)

/-- `text` preceded by as many `fill` as it takes to reach the width, counted in characters -/
def alignRight (fill : Char) (width : Nat) (text : String) : String :=
  String.ofList (List.replicate (width - text.length) fill ++ text.toList)

/-- `text` followed by as many spaces as it takes to reach the width, counted in characters -/
def alignLeft (width : Nat) (text : String) : String :=
  String.ofList (text.toList ++ List.replicate (width - text.length) ' ')

def decimal (width n : Nat) : String :=
  alignRight '0' width (toString n)

def hex (width n : Nat) : String :=
  alignRight '0' width (String.ofList (Nat.toDigits 16 n))

def markedHex (width n : Nat) : String :=
  "0x" ++ hex width n

def copies (c : Char) (n : Nat) : String :=
  String.ofList (List.replicate n c)

end ByteMachine.Text
