/-
Numbers and texts tell apart what they stand for. An interner gives two names the same number only if they are one name,
and leads back from the number to the name however many names it has been shown since; and two qualified names are written
out alike only if they are one, as long as their segments are identifiers or nameless namespaces.

- `Path.render_eq_iff`: the text of a qualified name.
- `Interner.texts_identify_scopes`: numbers and texts, for every interner that is made by showing it names.
-/
import Mathlib.Tactic
import ByteMachine.Proofs.Symbols.Interning
import ByteMachine.Proofs.Symbols.Texts

namespace ByteMachine

open Layout

/-- the segments of the path have symbols in the table, for identifiers or for nameless namespaces; their tags are free -/
def Path.IsReadable (table : SymbolTable) (path : Path) : Prop :=
  ∀ segment ∈ path.segments, ∃ name, table.Names segment.name name ∧
    (isIdentifier name = true ∨ name = Draft.anonymousName)

namespace Path

variable {table : SymbolTable} {path other : Path}

theorem isSegmentName_of_or {name : String} (h : isIdentifier name = true ∨ name = Draft.anonymousName) :
    IsSegmentName name := by
  rcases h with hidentifier | rfl
  · exact isSegmentName_of_isIdentifier hidentifier
  · exact isSegmentName_anonymousName

/-- a readable path is a qualified name that can be read back -/
theorem IsReadable.exists_route (h : path.IsReadable table) :
    ∃ route : Route, table.Spells path route ∧ route.IsReadable := by
  refine ⟨path.segments.map fun segment => ⟨table.nameOf segment.name, segment.tag⟩, ?_, ?_⟩
  · rw [SymbolTable.Spells, List.forall₂_map_right_iff, List.forall₂_same]
    intro segment hsegment
    obtain ⟨name, hname, -⟩ := h segment hsegment
    rw [hname.nameOf]
    exact ⟨hname, rfl⟩
  · intro leg hleg
    obtain ⟨segment, hsegment, rfl⟩ := List.mem_map.1 hleg
    obtain ⟨name, hname, hreadable⟩ := h segment hsegment
    rw [hname.nameOf]
    exact isSegmentName_of_or hreadable

/-- **The text of a qualified name is that of no other.** -/
theorem render_eq_iff (hdistinct : table.Distinct) (h : path.IsReadable table) (hother : other.IsReadable table) :
    path.render table = other.render table ↔ path = other := by
  obtain ⟨route, hroute, hreadable⟩ := h.exists_route
  obtain ⟨route', hroute', hreadable'⟩ := hother.exists_route
  rw [hroute.render, hroute'.render]
  constructor
  · intro htext
    obtain rfl := Route.text_inj hreadable hreadable' htext
    exact hroute.inj hdistinct hroute'
  · rintro rfl
    rw [hroute.unique hroute']

end Path

/-- what holds of an interner that was shown these names one after the other, and nothing else -/
structure Interner.Identifies (interner : Interner) (shown : List String) : Prop where
  /-- the map finds the number of a name iff the array has the name at that number -/
  inverse : interner.Inverse
  /-- its names are those of the symbol table that was shown the same -/
  table_eq : interner.table = SymbolTable.ofNames shown
  /-- the next name gets the number of the symbol that the symbol table gives it, and enters both alike -/
  intern_eq : ∀ name, (interner.intern name).1 = (interner.table.intern name).1.number ∧
    (interner.intern name).2.table = (interner.table.intern name).2
  /-- qualified names of identifiers and nameless namespaces, with any tags, are one iff they are written out alike -/
  render_eq_iff : ∀ path other : Path, path.IsReadable interner.table → other.IsReadable interner.table →
    (path.render interner.table = other.render interner.table ↔ path = other)

/-- **Numbers and texts identify.** Of names that are shown one after the other, two get the same number iff they are one
name, whatever was shown between them, as long as fewer than 2 ^ 32 were shown before the second; and from then on the
number leads back to the name. The map and the array of the interner are inverse to each other, its names are those of the
symbol table that was shown the same, and two qualified names that are made of identifiers and nameless namespaces are
written out alike iff they are one. -/
theorem Interner.texts_identify_scopes (shown : List String) :
    (∀ later x y, (shown ++ x :: later).length < 2 ^ 32 →
      (idAfter shown x = idAfter (shown ++ x :: later) y ↔ x = y) ∧
        (ofNames (shown ++ x :: later)).resolve? (idAfter shown x) = some x) ∧
      (shown.length < 2 ^ 32 → (ofNames shown).Identifies shown) := by
  refine ⟨fun later x y hfew => ⟨idAfter_eq_iff hfew, resolve?_idAfter ?_ x later⟩, fun hfew => ?_⟩
  · rw [List.length_append] at hfew
    omega
  · have hinverse := inverse_ofNames hfew.le
    exact {
      inverse := hinverse
      table_eq := table_ofNames hfew.le
      intern_eq := hinverse.intern_eq
      render_eq_iff := fun _ _ => Path.render_eq_iff hinverse.distinct }

/-- a nameless namespace in a named one, with the tag -/
def Path.nameless (tag : Nat) : Path := ⟨[⟨⟨1⟩, none⟩, ⟨⟨0⟩, some tag⟩]⟩

theorem Interner.tags_are_told_apart :
    (Path.nameless 1).render (ofNames ["<anonymous>", "a"]).table ≠
        (Path.nameless 11).render (ofNames ["<anonymous>", "a"]).table ∧
      idAfter ["<anonymous>", "a"] "b" ≠ idAfter ["<anonymous>", "a", "b", "c", "b"] "a" ∧
      (ofNames ["<anonymous>", "a", "b", "c", "b"]).resolve? (idAfter ["<anonymous>", "a"] "b") = some "b" := by
  obtain ⟨hshown, hidentifies⟩ := texts_identify_scopes ["<anonymous>", "a"]
  obtain ⟨hnumber, hback⟩ := hshown ["c", "b"] "b" "a" (by decide)
  have hheld := hidentifies (by decide)
  have hnamed : (SymbolTable.ofNames ["<anonymous>", "a"]).Names ⟨1⟩ "a" ∧
      (SymbolTable.ofNames ["<anonymous>", "a"]).Names ⟨0⟩ "<anonymous>" := by
    unfold SymbolTable.Names
    decide +kernel
  have hreadable : ∀ tag, (Path.nameless tag).IsReadable (ofNames ["<anonymous>", "a"]).table := by
    intro tag segment hsegment
    rw [hheld.table_eq]
    rcases List.mem_pair.1 hsegment with rfl | rfl
    · exact ⟨"a", hnamed.1, .inl (by decide)⟩
    · exact ⟨"<anonymous>", hnamed.2, .inr rfl⟩
  refine ⟨fun htext => ?_, fun hsame => absurd (hnumber.1 hsame) (by decide), hback⟩
  have hpaths := (hheld.render_eq_iff _ _ (hreadable 1) (hreadable 11)).1 htext
  exact absurd hpaths (by decide)

end ByteMachine
