/-
Bytes, sixteen-bit words, and the two halves of a word. The machine stores a word low byte first, so every address in
a program is written as its low byte followed by its high byte.

`Word.ofBytes_low_high`, `Word.low_ofBytes` and `Word.high_ofBytes`: a word is exactly its two halves.
-/

namespace ByteMachine

/-- the unit of memory, of registers and of instruction encodings -/
abbrev Byte := UInt8

/-- an address, or the value of a pointer register -/
abbrev Word := UInt16

namespace Word

def low (w : Word) : Byte := w.toUInt8

def high (w : Word) : Byte := (w / 256).toUInt8

def ofBytes (low high : Byte) : Word := high.toUInt16 * 256 + low.toUInt16

theorem toNat_low (w : Word) : (low w).toNat = w.toNat % 256 := by
  simp [low]

theorem toNat_high (w : Word) : (high w).toNat = w.toNat / 256 := by
  have := UInt16.toNat_lt w
  simp [high]
  omega

theorem toNat_ofBytes (l h : Byte) : (ofBytes l h).toNat = h.toNat * 256 + l.toNat := by
  have := UInt8.toNat_lt l
  have := UInt8.toNat_lt h
  simp [ofBytes, UInt16.toNat_add, UInt16.toNat_mul]
  omega

@[simp] theorem ofBytes_low_high (w : Word) : ofBytes (low w) (high w) = w := by
  apply UInt16.toNat_inj.1
  rw [toNat_ofBytes, toNat_low, toNat_high]
  omega

@[simp] theorem low_ofBytes (l h : Byte) : low (ofBytes l h) = l := by
  have := UInt8.toNat_lt l
  apply UInt8.toNat_inj.1
  rw [toNat_low, toNat_ofBytes]
  omega

@[simp] theorem high_ofBytes (l h : Byte) : high (ofBytes l h) = h := by
  have := UInt8.toNat_lt l
  apply UInt8.toNat_inj.1
  rw [toNat_high, toNat_ofBytes]
  omega

end Word

inductive Half where
  | low
  | high
  deriving DecidableEq, Repr

def Half.select : Half → Word → Byte
  | .low, w => Word.low w
  | .high, w => Word.high w

end ByteMachine
