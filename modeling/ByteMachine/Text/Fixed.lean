/-
Floating-point numbers written with a fixed number of decimal places. The exact binary value is rounded once to the
wanted place, and a value halfway between two neighbours goes to the even one.
-/
import ByteMachine.Text.Numeral

namespace ByteMachine.Text

/-- the natural number nearest to `n / d`, the even one of two that are equally near -/
def nearest (n d : Nat) : Nat :=
  let q := n / d
  let r := n % d
  if 2 * r < d then q else if d < 2 * r then q + 1 else if q % 2 = 0 then q else q + 1

/-- a natural number of units of the last place, written with that many decimal places -/
def withPlaces (places units : Nat) : String :=
  if places = 0 then toString units
  else toString (units / Nat.pow 10 places) ++ "." ++ decimal places (units % Nat.pow 10 places)

/-- the double with these sixty-four bits, written with a fixed number of decimal places -/
def fixedOfBits (places bits : Nat) : String :=
  let sign := if bits / 0x8000000000000000 % 2 = 1 then "-" else ""
  let exponent := bits / 0x10000000000000 % 0x800
  let fraction := bits % 0x10000000000000
  if exponent = 0x7ff then
    if fraction = 0 then sign ++ "inf" else "NaN"
  else
    let significand := if exponent = 0 then fraction else 0x10000000000000 + fraction
    let shift := if exponent = 0 then 1 else exponent
    -- the value is `significand * 2 ^ shift / 2 ^ 1075`
    sign ++ withPlaces places (nearest (significand * Nat.pow 10 places * Nat.pow 2 shift) (Nat.pow 2 1075))

/-- `x` written with a fixed number of decimal places -/
def fixed (places : Nat) (x : Float) : String :=
  fixedOfBits places x.toBits.toNat

end ByteMachine.Text
