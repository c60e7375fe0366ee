/-
Names and their texts, one for one. What a name is spelled with can be counted: whether it begins at the root, how many
levels it climbs, and its parts. Reading finds exactly the counts whose marks and parts, with points between them, are
the text, so it loses nothing, and each text that is a name is the text of that name only.

`Name.parse?_finds_spellings`: the texts that are read as names, and what is found in them.
-/
import Mathlib.Tactic
import ByteMachine.Proofs.Reading.Names

namespace ByteMachine

/-- the characters of identifiers are letters, digits and the underscore -/
theorem isIdentifierChar_iff {c : Char} : isIdentifierChar c = true ↔ c.isAlphanum = true ∨ c = '_' := by
  unfold isIdentifierChar Char.isAlphanum Char.isAlpha Char.isUpper Char.isLower Char.isDigit
  simp only [Bool.or_eq_true, Bool.and_eq_true, decide_eq_true_eq, beq_iff_eq]
  rw [or_comm (a := 'a' ≤ c ∧ c ≤ 'z')]
  rfl

theorem isIdentifier_iff {text : String} :
    isIdentifier text = true ↔ text ≠ "" ∧ ∀ c ∈ text.toList, c.isAlphanum = true ∨ c = '_' := by
  rw [isIdentifier, Bool.and_eq_true, List.all_eq_true]
  refine and_congr ?_ (forall₂_congr fun c _ => isIdentifierChar_iff)
  simp

namespace Name

/-- a name as it is written: whether it begins at the root, how many levels it climbs, and its parts -/
structure Spelling where
  absolute : Bool
  climbs : Nat
  parts : List String
  deriving DecidableEq, Repr

def spelling (name : Name) : Spelling :=
  match name.origin with
  | .root => ⟨true, 0, name.parts⟩
  | .above levels => ⟨false, levels, name.parts⟩

namespace Spelling

/-- the mark of the root or the marks that climb, the parts, and points between them -/
def text (spelling : Spelling) : String :=
  ".".intercalate
    ((if spelling.absolute then ["global"] else []) ++ List.replicate spelling.climbs "$" ++ spelling.parts)

/-- the spelling is that of a name; the root without any part is a name only where `allowRoot` says so -/
structure IsValid (spelling : Spelling) (allowRoot : Bool) : Prop where
  /-- what begins at the root does not climb -/
  climbs_eq : spelling.absolute = true → spelling.climbs = 0
  parts : ∀ part ∈ spelling.parts, part ≠ "" ∧ ∀ c ∈ part.toList, c.isAlphanum = true ∨ c = '_'
  ne_nil : spelling.parts ≠ [] ∨ allowRoot = true ∧ spelling.absolute = true
  /-- without a mark the first part is not taken for the mark of the root -/
  head_ne : spelling.absolute = false → spelling.climbs = 0 → spelling.parts.head? ≠ some "global"

end Spelling

theorem text_spelling (name : Name) : name.spelling.text = ".".intercalate name.segments := by
  obtain ⟨origin, parts⟩ := name
  cases origin with
  | root => rfl
  | above levels => rfl

theorem Spells.isValid_spelling {name : Name} {text : String} (h : name.Spells text) (allowRoot : Bool) :
    name.spelling.IsValid allowRoot := by
  obtain ⟨-, hparts, hne, hhead⟩ := h
  obtain ⟨origin, parts⟩ := name
  have hidentifiers : ∀ part ∈ parts, part ≠ "" ∧ ∀ c ∈ part.toList, c.isAlphanum = true ∨ c = '_' :=
    fun part hpart => isIdentifier_iff.1 (hparts part hpart)
  cases origin with
  | root => exact ⟨fun _ => rfl, hidentifiers, .inl hne, nofun⟩
  | above levels => exact ⟨nofun, hidentifiers, .inl hne, fun _ hlevels => hhead (congrArg Origin.above hlevels)⟩

theorem isValid_spelling_root : root.spelling.IsValid true :=
  ⟨fun _ => rfl, fun _ hpart => absurd hpart List.not_mem_nil, .inr ⟨rfl, rfl⟩, nofun⟩

/-- a valid spelling is that of a name, and its text is read as that name -/
theorem Spelling.IsValid.exists_name {spelling : Spelling} {allowRoot : Bool} (h : spelling.IsValid allowRoot) :
    ∃ name : Name, name.spelling = spelling ∧ parse? allowRoot spelling.text = some name := by
  obtain ⟨absolute, climbs, parts⟩ := spelling
  obtain ⟨hclimbs, hparts, hne, hhead⟩ := h
  have hidentifiers : ∀ part ∈ parts, isIdentifier part = true :=
    fun part hpart => isIdentifier_iff.2 (hparts part hpart)
  cases absolute with
  | false =>
    let name : Name := ⟨.above climbs, parts⟩
    have hspells : name.Spells name.spelling.text :=
      ⟨text_spelling name, hidentifiers, hne.resolve_right nofun, fun horigin => hhead rfl (Origin.above.inj horigin)⟩
    exact ⟨name, rfl, parse?_of_spells hspells allowRoot⟩
  | true =>
    obtain rfl : climbs = 0 := hclimbs rfl
    let name : Name := ⟨.root, parts⟩
    refine ⟨name, rfl, parse?_eq_some_iff.2 ?_⟩
    by_cases hempty : parts = []
    · subst hempty
      exact .inr ⟨(hne.resolve_left (absurd rfl)).1, rfl, rfl⟩
    · exact .inl ⟨text_spelling name, hidentifiers, hempty, nofun⟩

/-- **Reading a name loses nothing.** A text is read as a name iff it is the text of a valid spelling, and then that
spelling is found in it; so the same is never found in two texts, wherever the root by itself may stand. -/
theorem parse?_finds_spellings (allowRoot : Bool) (text : String) :
    (∀ spelling, (parse? allowRoot text).map Name.spelling = some spelling ↔
      text = spelling.text ∧ spelling.IsValid allowRoot) ∧
    ∀ allowOther other spelling, (parse? allowRoot text).map Name.spelling = some spelling →
      (parse? allowOther other).map Name.spelling = some spelling → text = other := by
  have hfound : ∀ {allowed : Bool} {shown : String} {spelling : Spelling},
      (parse? allowed shown).map Name.spelling = some spelling → shown = spelling.text ∧ spelling.IsValid allowed := by
    intro allowed shown spelling h
    obtain ⟨name, hname, rfl⟩ := Option.map_eq_some_iff.1 h
    rcases parse?_eq_some_iff.1 hname with hspells | ⟨rfl, rfl, rfl⟩
    · exact ⟨hspells.text_eq.trans (text_spelling name).symm, hspells.isValid_spelling allowed⟩
    · exact ⟨rfl, isValid_spelling_root⟩
  refine ⟨fun spelling => ⟨hfound, ?_⟩, fun allowOther other spelling h hother => ?_⟩
  · rintro ⟨rfl, hvalid⟩
    obtain ⟨name, rfl, hname⟩ := hvalid.exists_name
    rw [hname, Option.map_some]
  · exact (hfound h).1.trans (hfound hother).1.symm

theorem rootMark_below_climb_is_found :
    (parse? false "$.global.x").map Name.spelling = some ⟨false, 1, ["global", "x"]⟩ ∧
      (parse? false "$.x").map Name.spelling ≠ some ⟨false, 1, ["global", "x"]⟩ := by
  obtain ⟨hfound, hunique⟩ := parse?_finds_spellings false "$.global.x"
  have hparts : ∀ part ∈ ["global", "x"], isIdentifier part = true := by decide
  have hspelling : (parse? false "$.global.x").map Name.spelling = some ⟨false, 1, ["global", "x"]⟩ :=
    (hfound _).2 ⟨by decide, nofun, fun part hpart => isIdentifier_iff.1 (hparts part hpart), .inl nofun, nofun⟩
  exact ⟨hspelling, fun hother => absurd (hunique false "$.x" _ hspelling hother) (by decide)⟩

end Name

end ByteMachine
