/-
An image ends within the address space. The reading checks this after every line that emits bytes, and the other lines
emit none.

`Layout.bytes_fit`: the bytes of an assembled image, from its mount address on, have addresses.
-/
import Mathlib.Tactic
import ByteMachine.Memory
import ByteMachine.Proofs.Layout.Image

namespace ByteMachine

open Layout

namespace Draft

variable {draft next : Draft} {mount : Word} {space : Space} {table : List (Route × Meaning)} {sites : List Site}

/-- after a line the bytes so far fit, if they did before it -/
theorem Follows.fits_add (h : draft.Follows mount space table sites) (hfits : draft.address ≤ addressSpace) {line : Nat}
    {statement : Statement} (ha : draft.add line statement = .ok next) : next.address ≤ addressSpace := by
  have hsame : space.sites statement = [] → next.address ≤ addressSpace := by
    intro hsites
    have hnext := h.add ha
    rw [hsites, List.append_nil] at hnext
    rwa [hnext.address_eq, ← h.address_eq]
  cases statement with
  | data arguments =>
    obtain ⟨hchecked, rfl⟩ := checkSize_eq_ok_iff.1 ha
    exact hchecked
  | instruction op arguments =>
    obtain ⟨hchecked, rfl⟩ := checkSize_eq_ok_iff.1 ha
    exact hchecked
  | _ => exact hsame rfl

theorem Follows.fits_addLines (h : draft.Follows mount space table sites) (hfits : draft.address ≤ addressSpace)
    {number : Nat} {texts : List String} (ha : draft.addLines number texts = .ok next) :
    next.address ≤ addressSpace := by
  induction texts generalizing draft number space table sites with
  | nil =>
    obtain rfl := Except.ok.inj ha
    exact hfits
  | cons text texts ih =>
    obtain ⟨added, hadded, ha⟩ := addLines_cons_eq_ok_iff.1 ha
    obtain ⟨statement, -, hadd⟩ := addLine_eq_ok_iff.1 hadded
    exact ih (h.add hadd) (h.fits_add hfits hadd) ha

theorem fits_start (mount : Word) : (start mount).address ≤ addressSpace := by
  have := mount.toNat_lt
  rw [(start_follows mount).address_eq, List.length_nil, addressSpace]
  omega

end Draft

/-- **An image fits where it is mounted.** -/
theorem Layout.bytes_fit {source : String} {mount : Word} {assembly : Assembly}
    (h : assemble source mount = .ok assembly) : mount.toNat + assembly.bytes.length ≤ Memory.size := by
  obtain ⟨draft, statements, hdraft, hlink, -, hfollows⟩ := exists_follows_of_assemble h
  have hfits : draft.address ≤ Draft.addressSpace :=
    (Draft.start_follows mount).fits_addLines (Draft.fits_start mount) hdraft
  rwa [hfollows.address_eq, (hfollows.holds_bytes hlink).length_eq] at hfits

end ByteMachine
