/-
Qualified names can be told apart in writing. Segments are identifiers or the mark of a nameless namespace; a point never
stands in one, a `#` only before a tag, and none is empty. So the text of a qualified name, cut at its points and then at
the `#` of each segment, gives the name back (`Route.text_inj`).

`Draft.Follows.nodup_texts`: two names that are bound in a source text are written out to two texts.
-/
import Mathlib.Tactic
import ByteMachine.Proofs.Layout.Image
import ByteMachine.Proofs.Renaming.Symbols

namespace ByteMachine

/-- a name that can be a segment and told from the characters around it -/
structure IsSegmentName (name : String) : Prop extends IsClear name where
  ne_empty : name ≠ ""

theorem isSegmentName_of_isIdentifier {name : String} (h : isIdentifier name = true) : IsSegmentName name := by
  refine ⟨isClear_of_isIdentifier h, ?_⟩
  intro hempty
  subst hempty
  exact absurd h (by decide)

theorem isSegmentName_anonymousName : IsSegmentName Draft.anonymousName := ⟨isClear_anonymousName, by decide⟩

namespace Layout

/-! ## One segment -/

namespace Leg

variable {leg other : Leg}

theorem mark_notMem_digits (n : Nat) : '#' ∉ (toString n).toList := by
  intro hmem
  exact absurd (Operand.isDigit_of_mem_toString hmem) (by decide)

/-- a segment cut at its mark: the name, and the tag if there is one -/
theorem cut_text (h : IsClear leg.name) :
    Text.cut '#' leg.text.toList = (leg.name.toList, (leg.opening.map fun n => (toString n).toList).toList) := by
  obtain ⟨name, opening⟩ := leg
  cases opening with
  | none => exact Text.cut_of_notMem h.no_mark
  | some n =>
    have htag := Text.cut_of_notMem (mark_notMem_digits n)
    have htext : (Leg.text ⟨name, some n⟩).toList = name.toList ++ '#' :: (toString n).toList := by simp [Leg.text]
    rw [htext, Text.cut_append_cons h.no_mark, htag]
    rfl

theorem digits_injective : Function.Injective fun n : Nat => (toString n).toList := by
  intro m n h
  simp only [Nat.toString_eq_repr, Nat.toList_repr] at h
  calc m = Nat.ofDigitChars 10 (Nat.toDigits 10 m) 0 := Nat.ofDigitChars_ten_toDigits.symm
    _ = Nat.ofDigitChars 10 (Nat.toDigits 10 n) 0 := by rw [h]
    _ = n := Nat.ofDigitChars_ten_toDigits

theorem text_inj (h : IsClear leg.name) (hother : IsClear other.name) (htext : leg.text = other.text) :
    leg = other := by
  have hcut := cut_text h
  rw [htext, cut_text hother] at hcut
  obtain ⟨hname, hopening⟩ := Prod.mk.inj hcut
  have htag := congrArg List.head? hopening
  rw [Option.head?_toList, Option.head?_toList] at htag
  cases leg
  cases other
  exact congrArg₂ Leg.mk (String.toList_inj.1 hname.symm) (Option.map_injective digits_injective htag).symm

theorem point_notMem_text (h : IsClear leg.name) : '.' ∉ leg.text.toList := by
  obtain ⟨name, opening⟩ := leg
  cases opening with
  | none => exact h.no_point
  | some n =>
    have hdigits : '.' ∉ (toString n).toList := by
      intro hmem
      exact absurd (Operand.isDigit_of_mem_toString hmem) (by decide)
    simp only [Leg.text, String.toList_append, List.mem_append, not_or]
    exact ⟨⟨h.no_point, by decide⟩, hdigits⟩

theorem text_ne_empty (h : leg.name ≠ "") : leg.text ≠ "" := by
  obtain ⟨name, opening⟩ := leg
  cases opening with
  | none => exact h
  | some n => simp [Leg.text]

end Leg

/-! ## All segments -/

/-- every segment has a name that can be told from the characters around it -/
def Route.IsReadable (route : Route) : Prop := ∀ leg ∈ route, IsSegmentName leg.name

namespace Route

variable {route other : Route}

theorem pieces_text (h : route.IsReadable) (hne : route ≠ []) :
    Text.pieces '.' (Route.text route).toList = route.map fun leg => leg.text.toList := by
  have hpoint : ".".toList = ['.'] := rfl
  rw [Route.text, String.toList_intercalate, List.map_map, hpoint]
  refine Text.pieces_intercalate (by simpa using hne) ?_
  intro cs hcs
  obtain ⟨leg, hleg, rfl⟩ := List.mem_map.1 hcs
  exact Leg.point_notMem_text (h leg hleg).toIsClear

theorem text_ne_empty (h : route.IsReadable) (hne : route ≠ []) : Route.text route ≠ "" := by
  intro hempty
  have hpieces := pieces_text h hne
  rw [hempty] at hpieces
  -- the empty text has one piece, which is empty
  obtain ⟨leg, rest, rfl, hfirst, -⟩ := List.map_eq_cons_iff.1 hpieces.symm
  have htext : leg.text.toList = [] := hfirst
  exact Leg.text_ne_empty (h leg List.mem_cons_self).ne_empty (String.toList_eq_nil_iff.1 htext)

theorem eq_of_texts (h : route.IsReadable) (hother : other.IsReadable)
    (htexts : route.map (fun leg => leg.text.toList) = other.map fun leg => leg.text.toList) : route = other := by
  induction route generalizing other with
  | nil => exact (List.map_eq_nil_iff.1 htexts.symm).symm
  | cons leg route ih =>
    obtain ⟨leg', rest, rfl, hfirst, hrest⟩ := List.map_eq_cons_iff.1 htexts.symm
    obtain ⟨hleg, hroute⟩ := List.forall_mem_cons.1 h
    obtain ⟨hleg', hrest'⟩ := List.forall_mem_cons.1 hother
    have hsame := Leg.text_inj hleg.toIsClear hleg'.toIsClear (String.toList_inj.1 hfirst.symm)
    rw [hsame, ih hroute hrest' hrest.symm]

/-- **A qualified name can be read back from its text.** -/
theorem text_inj (h : route.IsReadable) (hother : other.IsReadable) (htext : Route.text route = Route.text other) :
    route = other := by
  by_cases hroot : route = []
  · subst hroot
    by_contra hne
    exact text_ne_empty hother (Ne.symm hne) htext.symm
  · have hroot' : other ≠ [] := by
      intro hnil
      subst hnil
      exact text_ne_empty h hroot htext
    have hpieces := pieces_text h hroot
    rw [htext, pieces_text hother hroot'] at hpieces
    exact eq_of_texts h hother hpieces.symm

end Route

end Layout

/-! ## The names of a draft -/

open Layout

namespace SymbolTable

variable {table : SymbolTable}

/-- what a path spells has readable segments if all symbols stand for such names -/
theorem Spells.isReadable {path : Path} {route : Route} (h : table.Spells path route)
    (hall : table.All IsSegmentName) : route.IsReadable := by
  intro leg hleg
  obtain ⟨segment, -, hname, -⟩ := InStep.exists_left h hleg
  exact hall leg.name (List.mem_of_getElem? hname)

end SymbolTable

namespace Draft

variable {draft next : Draft} {mount : Word} {space : Space} {table : List (Route × Meaning)} {sites : List Site}

/-- lines show identifiers only -/
theorem all_addLines {P : String → Prop} (h : draft.symbols.All P) (hanonymous : P anonymousName)
    (hidentifier : ∀ name, isIdentifier name = true → P name) {number : Nat} {texts : List String}
    (ha : draft.addLines number texts = .ok next) : next.symbols.All P := by
  induction texts generalizing draft number with
  | nil =>
    obtain rfl := Except.ok.inj ha
    exact h
  | cons text texts ih =>
    obtain ⟨added, hadded, ha⟩ := addLines_cons_eq_ok_iff.1 ha
    obtain ⟨statement, hparse, hadd⟩ := addLine_eq_ok_iff.1 hadded
    have hnames : ∀ name ∈ statement.names, P name := by
      intro name hname
      exact hidentifier name (Statement.identifiers_of_ofTokens hparse name hname)
    exact ih (all_add h hanonymous hnames hadd) ha

theorem isSegmentName_of_ofLines {texts : List String} (h : ofLines texts mount = .ok draft) :
    draft.symbols.All IsSegmentName := by
  refine all_addLines ?_ isSegmentName_anonymousName (fun _ => isSegmentName_of_isIdentifier) h
  exact SymbolTable.all_intern (fun _ hname => absurd hname List.not_mem_nil) isSegmentName_anonymousName

/-- **Two bound names have two texts.** -/
theorem Follows.nodup_texts (h : draft.Follows mount space table sites) (hnames : draft.symbols.All IsSegmentName) :
    (table.map fun binding => Route.text binding.1).Nodup := by
  have hreadable : ∀ route ∈ table.map (·.1), route.IsReadable := by
    intro route hroute
    obtain ⟨binding, hbinding, rfl⟩ := List.mem_map.1 hroute
    obtain ⟨entry, -, hspells, -⟩ := InStep.exists_left h.bound hbinding
    exact hspells.isReadable hnames
  have htexts : (table.map fun binding => Route.text binding.1) = (table.map (·.1)).map Route.text := by
    rw [List.map_map]
    rfl
  rw [htexts]
  refine List.Nodup.map_on ?_ (LabelTable.nodup_of_once h.distinct h.once h.bound)
  intro route hroute other hother htext
  exact Route.text_inj (hreadable route hroute) (hreadable other hother) htext

end Draft

end ByteMachine
