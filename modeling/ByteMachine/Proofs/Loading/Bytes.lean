/-
Bytes in memory, one after the other. `Memory.Holds` says which they are; it speaks of memory as such, also where the
device hides it from programs.

`Memory.holds_writeAll`: bytes that were put into memory are there, if they end within the address space, and
`Memory.read_writeAll_of_outside`: all other bytes are what they were. `Memory.read_writeAll` says both of any address.
-/
import Mathlib.Tactic
import ByteMachine.Memory

namespace ByteMachine.Memory

variable {memory : Memory}

/-- the bytes lie at the address and the addresses after it -/
def Holds (memory : Memory) (address : Nat) (bytes : List Byte) : Prop :=
  ∀ i (h : i < bytes.length), memory.read (UInt16.ofNat (address + i)) = bytes[i]

theorem holds_nil (address : Nat) : memory.Holds address [] := fun i hi => absurd hi (Nat.not_lt_zero i)

theorem holds_cons_iff {address : Nat} {value : Byte} {values : List Byte} :
    memory.Holds address (value :: values) ↔
      memory.read (UInt16.ofNat address) = value ∧ memory.Holds (address + 1) values := by
  constructor
  · intro h
    refine ⟨h 0 (Nat.zero_lt_succ _), fun i hi => ?_⟩
    rw [Nat.add_assoc, Nat.add_comm 1 i]
    exact h (i + 1) (Nat.succ_lt_succ hi)
  · rintro ⟨hfirst, hrest⟩ (_ | i) hi
    · exact hfirst
    · have hnext := hrest i (Nat.lt_of_succ_lt_succ hi)
      rwa [Nat.add_assoc, Nat.add_comm 1 i] at hnext

/-- the next address, while there is one -/
theorem toNat_add_one {address : Word} (h : address.toNat + 1 < size) : (address + 1).toNat = address.toNat + 1 := by
  rw [UInt16.toNat_add]
  exact Nat.mod_eq_of_lt h

theorem read_writeAll_of_outside {address other : Word} {values : List Byte}
    (hfits : address.toNat + values.length ≤ size)
    (houtside : other.toNat < address.toNat ∨ address.toNat + values.length ≤ other.toNat) :
    (memory.writeAll address values).read other = memory.read other := by
  induction values generalizing memory address with
  | nil => rfl
  | cons value values ih =>
    rw [List.length_cons] at hfits houtside
    have hother : other ≠ address := by
      rintro rfl
      omega
    rw [writeAll]
    cases values with
    | nil => rw [writeAll, read_write, if_neg hother]
    | cons second values =>
      have hnext := @toNat_add_one address (by rw [List.length_cons] at hfits; omega)
      rw [ih (by omega) (by omega), read_write, if_neg hother]

theorem holds_writeAll {address : Word} {values : List Byte} (hfits : address.toNat + values.length ≤ size) :
    (memory.writeAll address values).Holds address.toNat values := by
  induction values generalizing memory address with
  | nil => exact holds_nil _
  | cons value values ih =>
    rw [List.length_cons] at hfits
    rw [writeAll, holds_cons_iff, UInt16.ofNat_toNat]
    cases values with
    | nil => exact ⟨by rw [writeAll, read_write, if_pos rfl], holds_nil _⟩
    | cons second values =>
      have hnext := @toNat_add_one address (by rw [List.length_cons] at hfits; omega)
      constructor
      · rw [read_writeAll_of_outside (by omega) (.inl (by omega)), read_write, if_pos rfl]
      · rw [← hnext]
        exact ih (by omega)

/-- the byte that an image has for an address, if it reaches there -/
def imageByte? (start : Word) (image : List Byte) (address : Word) : Option Byte :=
  if start ≤ address then image[address.toNat - start.toNat]? else none

theorem imageByte?_of_outside {start address : Word} {image : List Byte}
    (h : address.toNat < start.toNat ∨ start.toNat + image.length ≤ address.toNat) :
    imageByte? start image address = none := by
  rw [imageByte?, ite_eq_right_iff, UInt16.le_iff_toNat_le]
  intro hle
  exact List.getElem?_eq_none (by omega)

/-- an image in memory hides what lay under it and nothing else -/
theorem read_writeAll {start : Word} {image : List Byte} (hfits : start.toNat + image.length ≤ size)
    (address : Word) :
    (memory.writeAll start image).read address = (imageByte? start image address).getD (memory.read address) := by
  by_cases hinside : start.toNat ≤ address.toNat ∧ address.toNat < start.toNat + image.length
  · obtain ⟨hle, hlt⟩ := hinside
    have hheld := @holds_writeAll memory _ _ hfits (address.toNat - start.toNat) (by omega)
    rw [Nat.add_sub_cancel' hle, UInt16.ofNat_toNat] at hheld
    rw [imageByte?, if_pos (UInt16.le_iff_toNat_le.2 hle), List.getElem?_eq_getElem, Option.getD_some, hheld]
  · have houtside : address.toNat < start.toNat ∨ start.toNat + image.length ≤ address.toNat := by omega
    rw [read_writeAll_of_outside hfits houtside, imageByte?_of_outside houtside, Option.getD_none]

end ByteMachine.Memory
