/-
Names as they are written. A name is spelled by its segments with points between them: `global` or the marks that climb,
and then its identifiers. No other text is read as that name.

`Name.parse?_eq_some_iff`: the texts that are read as a name, and the root by itself where it may stand.
-/
import Mathlib.Tactic
import ByteMachine.Name
import ByteMachine.Proofs.Reading.Words

namespace ByteMachine.Name

def segments (name : Name) : List String :=
  match name.origin with
  | .root => rootMark :: name.parts
  | .above levels => List.replicate levels climbMark ++ name.parts

structure Spells (name : Name) (text : String) : Prop where
  text_eq : text = ".".intercalate name.segments
  identifiers : ∀ part ∈ name.parts, isIdentifier part = true
  /-- there is a part at least -/
  ne_nil : name.parts ≠ []
  /-- a name from the namespace at hand does not begin like one from the root -/
  head_ne : name.origin = .above 0 → name.parts.head? ≠ some rootMark

/-- the text spells the path of a namespace, which may be the root itself -/
def SpellsPath (name : Name) (text : String) : Prop := name.Spells text ∨ (name = root ∧ text = rootMark)

/-! ## Segments -/

theorem notMem_of_isIdentifier {text : String} (h : isIdentifier text = true) {c : Char} (hc : isIdentifierChar c = false) :
    c ∉ text.toList := by
  intro hmem
  have hidentifier := List.all_eq_true.1 (Bool.and_eq_true_iff.1 h).2 c hmem
  rw [hc] at hidentifier
  cases hidentifier

theorem ne_climbMark_of_isIdentifier {text : String} (h : isIdentifier text = true) : text ≠ climbMark := by
  rintro rfl
  exact absurd h (by decide)

/-- the climb marks and what follows them are all segments -/
theorem climb_eq (texts : List String) : List.replicate (climb texts).1 climbMark ++ (climb texts).2 = texts := by
  induction texts with
  | nil => rfl
  | cons text texts ih =>
    rw [climb]
    split_ifs with hmark
    · rw [List.replicate_succ, List.cons_append, ih, hmark]
    · rfl

theorem climb_replicate_append {parts : List String} (h : ∀ part ∈ parts, isIdentifier part = true) (levels : Nat) :
    climb (List.replicate levels climbMark ++ parts) = (levels, parts) := by
  induction levels with
  | zero =>
    cases parts with
    | nil => rfl
    | cons part parts =>
      have hne := ne_climbMark_of_isIdentifier (h part List.mem_cons_self)
      rw [List.replicate_zero, List.nil_append, climb, if_neg hne]
  | succ levels ih => rw [List.replicate_succ, List.cons_append, climb, if_pos rfl, ih]

theorem segments_ofSegments {texts : List String} (hne : texts ≠ []) : (ofSegments texts).segments = texts := by
  cases texts with
  | nil => exact absurd rfl hne
  | cons text texts =>
    rw [ofSegments]
    split_ifs with hmark
    · rw [segments, hmark]
    · exact climb_eq (text :: texts)

theorem segments_above (levels : Nat) (parts : List String) :
    segments ⟨.above levels, parts⟩ = List.replicate levels climbMark ++ parts := rfl

/-- the first segment of a name that is not read from the root is no mark of the root -/
theorem ne_rootMark_of_segments_eq {levels : Nat} {parts texts : List String} {text : String}
    (hhead : levels = 0 → parts.head? ≠ some rootMark)
    (h : List.replicate levels climbMark ++ parts = text :: texts) : text ≠ rootMark := by
  cases levels with
  | zero =>
    rintro rfl
    rw [List.replicate_zero, List.nil_append] at h
    exact hhead rfl (by rw [h, List.head?_cons])
  | succ levels =>
    rw [List.replicate_succ, List.cons_append] at h
    rw [← (List.cons.inj h).1]
    decide

theorem ofSegments_segments {name : Name} (hparts : ∀ part ∈ name.parts, isIdentifier part = true)
    (hhead : name.origin = .above 0 → name.parts.head? ≠ some rootMark) : ofSegments name.segments = name := by
  obtain ⟨origin, parts⟩ := name
  cases origin with
  | root => simp [segments, ofSegments]
  | above levels =>
    have hclimb := climb_replicate_append hparts levels
    rw [segments_above]
    cases htexts : List.replicate levels climbMark ++ parts with
    | nil =>
      obtain ⟨hmarks, rfl⟩ := List.append_eq_nil_iff.1 htexts
      rw [(List.replicate_eq_nil_iff _).1 hmarks]
      rfl
    | cons text texts =>
      have hne := ne_rootMark_of_segments_eq (fun hlevels => hhead (congrArg Origin.above hlevels)) htexts
      rw [htexts] at hclimb
      rw [ofSegments, if_neg hne, hclimb]

theorem segments_ne_nil {name : Name} (h : name.origin = .root ∨ name.parts ≠ []) : name.segments ≠ [] := by
  obtain ⟨origin, parts⟩ := name
  cases origin with
  | root => exact List.cons_ne_nil _ _
  | above levels => exact List.append_ne_nil_of_right_ne_nil _ (h.resolve_left nofun)

/-- no segment holds a character that is neither a mark nor stands in identifiers -/
theorem notMem_of_mem_segments {name : Name} (hparts : ∀ part ∈ name.parts, isIdentifier part = true) {text : String}
    (h : text ∈ name.segments) {c : Char} (hc : isIdentifierChar c = false) (hclimb : c ≠ '$') : c ∉ text.toList := by
  have hroot : c ∉ rootMark.toList := notMem_of_isIdentifier (by decide) hc
  obtain ⟨origin, parts⟩ := name
  cases origin with
  | root =>
    rcases List.mem_cons.1 h with rfl | hpart
    · exact hroot
    · exact notMem_of_isIdentifier (hparts _ hpart) hc
  | above levels =>
    rcases List.mem_append.1 h with hmark | hpart
    · rw [List.eq_of_mem_replicate hmark]
      simpa [climbMark] using hclimb
    · exact notMem_of_isIdentifier (hparts _ hpart) hc

/-! ## Reading -/

theorem map_pieces_intercalate {texts : List String} (hne : texts ≠ []) (h : ∀ text ∈ texts, separator ∉ text.toList) :
    (Text.pieces separator (".".intercalate texts).toList).map String.ofList = texts :=
  Text.map_pieces_intercalate rfl hne h

theorem intercalate_map_pieces (text : String) :
    ".".intercalate ((Text.pieces separator text.toList).map String.ofList) = text :=
  Text.intercalate_map_pieces rfl text

/-- what begins with the mark of the root is read from the root -/
theorem head_ne_of_ofSegments {texts : List String} (h : (ofSegments texts).origin = .above 0) :
    (ofSegments texts).parts.head? ≠ some rootMark := by
  cases texts with
  | nil => exact nofun
  | cons text texts =>
    rw [ofSegments] at h ⊢
    split_ifs at h ⊢ with hmark
    have hclimb := climb_eq (text :: texts)
    have hlevels : (climb (text :: texts)).1 = 0 := Origin.above.inj h
    rw [hlevels, List.replicate_zero, List.nil_append] at hclimb
    simp only [hclimb, List.head?_cons]
    exact fun heq => hmark (Option.some.inj heq)

theorem Spells.map_pieces {name : Name} {text : String} (h : name.Spells text) :
    (Text.pieces separator text.toList).map String.ofList = name.segments := by
  rw [h.text_eq]
  exact map_pieces_intercalate (segments_ne_nil (.inr h.ne_nil)) fun _ hsegment =>
    notMem_of_mem_segments h.identifiers hsegment (by decide) (by decide)

theorem parse?_of_spells {name : Name} {text : String} (h : name.Spells text) (allowRoot : Bool) :
    parse? allowRoot text = some name := by
  have hvalid : (name.parts.all isIdentifier && (!name.parts.isEmpty || (allowRoot && name.origin = .root))) = true := by
    have hparts : name.parts.all isIdentifier = true := List.all_eq_true.2 h.identifiers
    have hne : name.parts.isEmpty = false := by simpa using h.ne_nil
    simp [hparts, hne]
  simp only [parse?, h.map_pieces, ofSegments_segments h.identifiers h.head_ne, hvalid, if_true]

/-- **A text is read as the name that it spells,** and as no other. -/
theorem parse?_eq_some_iff {allowRoot : Bool} {text : String} {name : Name} :
    parse? allowRoot text = some name ↔ name.Spells text ∨ (allowRoot = true ∧ name = root ∧ text = rootMark) := by
  constructor
  · intro h
    have htext := intercalate_map_pieces text
    have hne : (Text.pieces separator text.toList).map String.ofList ≠ [] := by simp [Text.pieces]
    simp only [parse?] at h
    generalize (Text.pieces separator text.toList).map String.ofList = texts at h htext hne
    split_ifs at h with hvalid
    obtain rfl := Option.some.inj h
    have hsegments := segments_ofSegments hne
    obtain ⟨hparts, hsome⟩ := Bool.and_eq_true_iff.1 hvalid
    by_cases hempty : (ofSegments texts).parts = []
    · -- only the root has no parts
      obtain ⟨hallowed, hroot⟩ : allowRoot = true ∧ (ofSegments texts).origin = .root := by simpa [hempty] using hsome
      have hname : ofSegments texts = root := by
        rw [root, ← hroot, ← hempty]
      rw [hname] at hsegments
      refine .inr ⟨hallowed, hname, ?_⟩
      rw [← htext, ← hsegments]
      rfl
    · exact .inl ⟨by rw [hsegments, htext], List.all_eq_true.1 hparts, hempty, head_ne_of_ofSegments⟩
  · rintro (hspells | ⟨rfl, rfl, rfl⟩)
    · exact parse?_of_spells hspells allowRoot
    · decide

theorem parse?_false_eq_some_iff {text : String} {name : Name} : parse? false text = some name ↔ name.Spells text := by
  simp [parse?_eq_some_iff]

theorem parse?_true_eq_some_iff {text : String} {name : Name} : parse? true text = some name ↔ name.SpellsPath text := by
  simp [parse?_eq_some_iff, SpellsPath]

theorem Spells.notMem_of_segments {name : Name} {text : String} (h : name.Spells text) {c : Char} (hpoint : c ≠ separator)
    (hsegments : ∀ segment ∈ name.segments, c ∉ segment.toList) : c ∉ text.toList := by
  intro hmem
  obtain ⟨piece, hpiece, hmem⟩ := (Text.mem_pieces separator hmem).resolve_left hpoint
  have hsegment : String.ofList piece ∈ name.segments := h.map_pieces ▸ List.mem_map_of_mem hpiece
  refine hsegments _ hsegment ?_
  rwa [String.toList_ofList]

/-- the text of a name has no characters but points, the mark that climbs and those of identifiers -/
theorem Spells.notMem {name : Name} {text : String} (h : name.Spells text) {c : Char} (hc : isIdentifierChar c = false)
    (hclimb : c ≠ '$') (hpoint : c ≠ separator) : c ∉ text.toList :=
  h.notMem_of_segments hpoint fun _ hsegment => notMem_of_mem_segments h.identifiers hsegment hc hclimb

/-- the name climbs no level iff its text is without the mark that climbs -/
theorem SpellsPath.notMem_climb_iff {name : Name} {text : String} (h : name.SpellsPath text) :
    '$' ∉ text.toList ↔ name.origin = .root ∨ name.isPlain = true := by
  rcases h with hspells | ⟨rfl, rfl⟩
  · constructor
    · intro hmem
      obtain ⟨origin, parts⟩ := name
      match origin with
      | .root => exact .inl rfl
      | .above 0 => exact .inr rfl
      | .above (levels + 1) =>
        refine absurd ?_ hmem
        rw [hspells.text_eq, segments_above, List.replicate_succ, List.cons_append, String.toList_intercalate]
        cases List.replicate levels climbMark ++ parts <;> simp [climbMark, List.intercalate]
    · intro horigin
      have hmarks : ∀ part ∈ name.parts, '$' ∉ part.toList := fun part hpart =>
        notMem_of_isIdentifier (hspells.identifiers part hpart) (by decide)
      refine hspells.notMem_of_segments (by decide) fun segment hsegment => ?_
      obtain ⟨origin, parts⟩ := name
      rcases horigin with rfl | hplain
      · rcases List.mem_cons.1 hsegment with rfl | hpart
        · decide
        · exact hmarks segment hpart
      · obtain rfl : origin = .above 0 := of_decide_eq_true hplain
        exact hmarks segment hsegment
  · exact iff_of_true (by decide) (.inl rfl)

end ByteMachine.Name
