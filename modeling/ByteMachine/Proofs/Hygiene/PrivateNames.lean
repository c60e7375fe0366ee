/-
What a source text can reach of its private namespaces. The first reading arrives at a line with the namespaces that are
open there; a tag tells for each private one by which line it was opened, and a name with that tag can be formed only as
long as that namespace is open.
-/
import Mathlib.Tactic
import ByteMachine.Proofs.Hygiene.Names

namespace ByteMachine

open Layout

/-- the first reading arrives at a line: those before it give the draft, and it says the statement -/
structure Arrives (texts : List String) (mount : Word) (line : Nat) (draft : Draft) (statement : Statement) : Prop where
  before : Draft.ofLines (texts.take line) mount = .ok draft
  said : ∃ text, texts[line]? = some text ∧ Statement.parse text = .ok statement

/-- the line opens a private namespace, with the tag -/
def Opens (texts : List String) (mount : Word) (line tag : Nat) : Prop :=
  ∃ draft statement next symbol, Arrives texts mount line draft statement ∧ statement.opensPrivate ∧
    draft.add (line + 1) statement = .ok next ∧
    next.scope.segments = draft.scope.segments ++ [⟨symbol, some tag⟩]

/-! ## Tags and lines -/

theorem SymbolTable.Spells.tags_eq {table : SymbolTable} {path : Path} {route : Route} (h : table.Spells path route) :
    path.tags = tags route := by
  obtain ⟨segments⟩ := path
  simp only [SymbolTable.Spells] at h
  simp only [Path.tags, tags]
  induction h with
  | nil => rfl
  | cons hleg _ ih => simp only [List.filterMap_cons, hleg.2, ih]

theorem Path.tags_join (path : Path) (symbols : List Symbol) : (path.join symbols).tags = path.tags := by
  simp [Path.tags, Path.join, List.filterMap_map]

theorem statementsOf_of_forall₂ {texts : List String} {statements : List Statement}
    (h : List.Forall₂ (fun text statement => Statement.parse text = .ok statement) texts statements) :
    statementsOf texts = statements := by
  induction h with
  | nil => rfl
  | cons hparse _ ih =>
    rw [← ih]
    simp [statementsOf, hparse, Except.toOption]

variable {texts : List String} {mount : Word} {line : Nat} {draft : Draft} {statement : Statement}

theorem follows_of_ofLines (h : Draft.ofLines texts mount = .ok draft) :
    draft.scope.Follows draft.symbols (spaceOf texts) := by
  obtain ⟨statements, hparses, hfollows⟩ := (Draft.start_follows mount).addLines h
  rw [spaceOf, statementsOf_of_forall₂ hparses]
  exact hfollows.scope

theorem tags_of_ofLines (h : Draft.ofLines (texts.take line) mount = .ok draft) :
    draft.scope.current.tags =
      ((openFrames (texts.take line)).reverse.filterMap id).map fun opening => privateCount (texts.take opening) := by
  rw [(follows_of_ofLines h).current.tags_eq, tags_path_spaceOf]

theorem nextTag_of_ofLines (h : Draft.ofLines texts mount = .ok draft) : draft.scope.nextTag = privateCount texts := by
  rw [(follows_of_ofLines h).nextTag, openings_spaceOf]

theorem depth_of_ofLines (h : Draft.ofLines (texts.take line) mount = .ok draft) :
    draft.scope.depth = (openFrames (texts.take line)).length := by
  rw [Scope.depth, (follows_of_ofLines h).sizes, List.length_map, (tagged_spaceOf texts line).length_eq]

theorem segments_of_add {number : Nat} {next : Draft} (hopens : statement.opensPrivate)
    (h : draft.add number statement = .ok next) :
    ∃ symbol, next.scope.segments = draft.scope.segments ++ [⟨symbol, some draft.scope.nextTag⟩] := by
  cases statement with
  | subroutine name visibility =>
    obtain ⟨symbol, declared, hdeclare, rfl⟩ := Draft.add_subroutine_eq_ok_iff.1 h
    refine ⟨symbol, ?_⟩
    rw [Draft.scope_of_declare hdeclare]
    rfl
  | scope change =>
    cases change with
    | enterPrivate name =>
      obtain rfl := Except.ok.inj h
      exact ⟨_, rfl⟩
    | _ => simp [Statement.opensPrivate] at hopens
  | _ => simp [Statement.opensPrivate] at hopens

theorem Opens.tag_eq {tag : Nat} (h : Opens texts mount line tag) :
    tag = privateCount (texts.take line) ∧
      ∃ text statement, texts[line]? = some text ∧ Statement.parse text = .ok statement ∧ statement.opensPrivate := by
  obtain ⟨draft, statement, next, symbol, harrives, hopens, hadd, hsegments⟩ := h
  obtain ⟨text, htext, hparse⟩ := harrives.said
  refine ⟨?_, text, statement, htext, hparse, hopens⟩
  obtain ⟨symbol', hsegments'⟩ := segments_of_add hopens hadd
  rw [hsegments', nextTag_of_ofLines harrives.before] at hsegments
  have hlast := List.append_cancel_left hsegments
  simp only [List.cons.injEq, Segment.mk.injEq, Option.some.injEq] at hlast
  exact hlast.1.2.symm

theorem Opens.unique {line' tag : Nat} (h : Opens texts mount line tag) (h' : Opens texts mount line' tag) :
    line = line' := by
  obtain ⟨rfl, text, statement, htext, hparse, hopens⟩ := h.tag_eq
  obtain ⟨heq, text', statement', htext', hparse', hopens'⟩ := h'.tag_eq
  exact eq_of_privateCount_eq htext hparse hopens htext' hparse' hopens' heq

/-- a line that was read before the first reading arrived at another -/
theorem exists_add_of_lt {earlier : Nat} (hlt : earlier < line) {text : String} (htext : texts[earlier]? = some text)
    (hparse : Statement.parse text = .ok statement) (h : Draft.ofLines (texts.take line) mount = .ok draft) :
    ∃ before next, Arrives texts mount earlier before statement ∧ before.add (earlier + 1) statement = .ok next := by
  obtain ⟨hearlier, rfl⟩ := List.getElem?_eq_some_iff.1 htext
  have hsplit : texts.take line = texts.take earlier ++ texts[earlier] :: (texts.take line).drop (earlier + 1) := by
    have htake : (texts.take line).take (earlier + 1) = texts.take earlier ++ [texts[earlier]] := by
      rw [List.take_take, Nat.min_eq_left hlt, List.take_concat_get' texts earlier hearlier]
    rw [List.append_cons, ← htake, List.take_append_drop]
  rw [hsplit, Draft.ofLines] at h
  obtain ⟨before, hbefore, h⟩ := Draft.addLines_append_eq_ok_iff.1 h
  obtain ⟨next, hnext, -⟩ := Draft.addLines_cons_eq_ok_iff.1 h
  obtain ⟨statement', hparse', hadd⟩ := Draft.addLine_eq_ok_iff.1 hnext
  obtain rfl := Except.ok.inj (hparse.symm.trans hparse')
  rw [List.length_take, Nat.min_eq_left hearlier.le, Nat.add_comm] at hadd
  exact ⟨before, next, ⟨hbefore, _, List.getElem?_eq_getElem hearlier, hparse⟩, hadd⟩

theorem opens_of_mem {opening : Nat} (h : Draft.ofLines (texts.take line) mount = .ok draft)
    (hmem : some opening ∈ openFrames (texts.take line)) :
    Opens texts mount opening (privateCount (texts.take opening)) := by
  obtain ⟨hlt, text, statement, htext, hparse, hopens⟩ := opens_of_mem_openFrames hmem
  obtain ⟨before, next, harrives, hadd⟩ := exists_add_of_lt hlt htext hparse h
  obtain ⟨symbol, hsegments⟩ := segments_of_add hopens hadd
  rw [nextTag_of_ofLines harrives.before] at hsegments
  exact ⟨before, statement, next, symbol, harrives, hopens, hadd, hsegments⟩

theorem exists_opens_of_mem_tags {tag : Nat} (h : Draft.ofLines (texts.take line) mount = .ok draft)
    (htag : tag ∈ draft.scope.current.tags) :
    ∃ opening, some opening ∈ openFrames (texts.take line) ∧ Opens texts mount opening tag := by
  rw [tags_of_ofLines h] at htag
  obtain ⟨opening, hmem, rfl⟩ := List.mem_map.1 htag
  obtain ⟨frame, hframe, rfl⟩ := List.mem_filterMap.1 hmem
  have hframe := List.mem_reverse.1 hframe
  exact ⟨opening, hframe, opens_of_mem h hframe⟩

theorem mem_openFrames_of_mem_tags {opening tag : Nat} (h : Draft.ofLines (texts.take line) mount = .ok draft)
    (htag : tag ∈ draft.scope.current.tags) (hopens : Opens texts mount opening tag) :
    some opening ∈ openFrames (texts.take line) := by
  obtain ⟨opening', hframe, hopens'⟩ := exists_opens_of_mem_tags h htag
  rw [hopens.unique hopens']
  exact hframe

/-! ## Names -/

theorem mem_tags_of_keeps {path : Path} {tag : Nat} (h : draft.scope.Keeps path) (htag : tag ∈ path.tags) :
    tag ∈ draft.scope.current.tags := by
  obtain ⟨segment, hmem, hsegment⟩ := List.mem_filterMap.1 htag
  obtain ⟨i, hi⟩ := List.getElem?_of_mem hmem
  exact List.mem_filterMap.2 ⟨segment, List.mem_of_getElem? (h i segment hi (by simp [hsegment])), hsegment⟩

theorem tags_of_mem_localNames {path : Path} (h : path ∈ draft.localNames statement) :
    path.tags = draft.scope.current.tags := by
  cases statement with
  | label name visibility => rw [List.mem_singleton.1 h, Draft.declaredName, Path.tags_join]
  | subroutine name visibility => rw [List.mem_singleton.1 h, Draft.declaredName, Path.tags_join]
  | useName name newName => rw [List.mem_singleton.1 h, Path.tags_join]
  | _ => simp [Draft.localNames] at h

theorem getLast?_tags_of_ofLines (h : Draft.ofLines (texts.take line) mount = .ok draft) :
    draft.scope.current.tags.getLast? =
      (innermost (texts.take line)).map fun opening => privateCount (texts.take opening) := by
  rw [tags_of_ofLines h, List.filterMap_reverse, List.map_reverse, List.getLast?_reverse, List.head?_map]
  rfl

theorem mem_of_innermost {opening : Nat} (h : innermost texts = some opening) : some opening ∈ openFrames texts := by
  obtain ⟨frame, hframe, rfl⟩ := List.mem_filterMap.1 (List.mem_of_mem_head? h)
  exact hframe

theorem innermost_eq_of_tags_eq {line' : Nat} {draft' : Draft} (h : Draft.ofLines (texts.take line) mount = .ok draft)
    (h' : Draft.ofLines (texts.take line') mount = .ok draft')
    (htags : draft.scope.current.tags = draft'.scope.current.tags) :
    innermost (texts.take line) = innermost (texts.take line') := by
  have hlast := getLast?_tags_of_ofLines h
  rw [htags, getLast?_tags_of_ofLines h'] at hlast
  cases hin : innermost (texts.take line) with
  | none =>
    rw [hin, Option.map_none, Option.map_eq_none_iff] at hlast
    exact hlast.symm
  | some opening =>
    rw [hin, Option.map_some, Option.map_eq_some_iff] at hlast
    obtain ⟨opening', hin', htag⟩ := hlast
    have hopens := opens_of_mem h (mem_of_innermost hin)
    rw [← htag] at hopens
    rw [hin', hopens.unique (opens_of_mem h' (mem_of_innermost hin'))]

/-- **Private names stay private.** No tag is given twice, and the tags on the way down to a line are given by lines
whose namespaces are open there. A line forms only names whose tags are those of the namespace at hand, so a name through
a private namespace is formed only by lines inside it, and with it every label, `def` or `use` that such a line binds.
Labels inside different private namespaces have different names. -/
theorem private_names_are_hygienic (texts : List String) (mount : Word) :
    (∀ line draft statement next, Arrives texts mount line draft statement → statement.opensPrivate →
      draft.add (line + 1) statement = .ok next → ∃ tag, Opens texts mount line tag) ∧
    (∀ line line' tag, Opens texts mount line tag → Opens texts mount line' tag → line = line') ∧
    (∀ line draft statement, Arrives texts mount line draft statement →
      draft.scope.depth = (openFrames (texts.take line)).length ∧
      (∀ tag ∈ draft.scope.current.tags,
        ∃ opening, some opening ∈ openFrames (texts.take line) ∧ Opens texts mount opening tag) ∧
      (∀ path ∈ draft.formed (line + 1) statement, draft.scope.Keeps path ∧
        ∀ tag ∈ path.tags, ∀ opening, Opens texts mount opening tag → some opening ∈ openFrames (texts.take line)) ∧
      ∀ next, draft.add (line + 1) statement = .ok next → Draft.Adds (draft.formed (line + 1) statement) draft next) ∧
    (∀ line line' draft draft' statement statement', Arrives texts mount line draft statement →
      Arrives texts mount line' draft' statement' → ∀ path ∈ draft.localNames statement,
        (path ∈ draft'.formed (line' + 1) statement' → ∀ opening, some opening ∈ openFrames (texts.take line) →
          some opening ∈ openFrames (texts.take line')) ∧
        (innermost (texts.take line) ≠ innermost (texts.take line') → path ∉ draft'.localNames statement')) := by
  have hinside : ∀ line draft statement, Arrives texts mount line draft statement →
      ∀ path ∈ draft.formed (line + 1) statement, ∀ tag ∈ path.tags, ∀ opening, Opens texts mount opening tag →
        some opening ∈ openFrames (texts.take line) := by
    intro line draft statement harrives path hpath tag htag opening hopens
    exact mem_openFrames_of_mem_tags harrives.before (mem_tags_of_keeps (Draft.keeps_of_mem_formed hpath) htag) hopens
  refine ⟨?_, ?_, ?_, ?_⟩
  · intro line draft statement next harrives hopens hadd
    obtain ⟨symbol, hsegments⟩ := segments_of_add hopens hadd
    exact ⟨_, draft, statement, next, symbol, harrives, hopens, hadd, hsegments⟩
  · intro line line' tag h h'
    exact h.unique h'
  · intro line draft statement harrives
    refine ⟨depth_of_ofLines harrives.before, ?_, ?_, ?_⟩
    · intro tag htag
      exact exists_opens_of_mem_tags harrives.before htag
    · intro path hpath
      exact ⟨Draft.keeps_of_mem_formed hpath, hinside line draft statement harrives path hpath⟩
    · intro next hadd
      exact Draft.adds_of_add hadd
  · intro line line' draft draft' statement statement' harrives harrives' path hpath
    have htags := tags_of_mem_localNames hpath
    constructor
    · intro hformed opening hmem
      have hopens := opens_of_mem harrives.before hmem
      apply hinside line' draft' statement' harrives' path hformed _ ?_ opening hopens
      rw [htags, tags_of_ofLines harrives.before]
      exact List.mem_map_of_mem (List.mem_filterMap.2 ⟨_, List.mem_reverse.2 hmem, rfl⟩)
    · intro hdifferent hpath'
      apply hdifferent
      exact innermost_eq_of_tags_eq harrives.before harrives'.before (htags.symm.trans (tags_of_mem_localNames hpath'))

/-- two private namespaces of one name with one label each, the second opened after a reset -/
def twoRooms : List String := ["private namespace a", ".x", "namespace reset", "private namespace a", ".x"]

/-- the drafts at the two labels -/
def firstRoom : Draft := ⟨0, ⟨#["<anonymous>", "a"]⟩, ⟨[⟨⟨1⟩, some 0⟩], [1], 1⟩, ⟨#[]⟩, #[]⟩

def secondRoom : Draft :=
  ⟨0, ⟨#["<anonymous>", "a", "x"]⟩, ⟨[⟨⟨1⟩, some 1⟩], [1], 2⟩, ⟨#[⟨⟨[⟨⟨1⟩, some 0⟩, ⟨⟨2⟩, none⟩]⟩, .address 0, 2⟩]⟩, #[]⟩

theorem twoRooms_are_apart :
    Arrives twoRooms 0 1 firstRoom (.label "x" .concealed) ∧ Arrives twoRooms 0 4 secondRoom (.label "x" .concealed) ∧
      Opens twoRooms 0 0 0 ∧ (∃ tag, Opens twoRooms 0 3 tag) ∧ ¬ Opens twoRooms 0 3 0 ∧
      firstRoom.scope.Keeps (firstRoom.declaredName "x") ∧
      firstRoom.declaredName "x" ∉ secondRoom.formed 5 (.label "x" .concealed) ∧
      firstRoom.declaredName "x" ∉ secondRoom.localNames (.label "x" .concealed) := by
  have hfirst : Arrives twoRooms 0 1 firstRoom (.label "x" .concealed) :=
    ⟨by decide +kernel, ".x", rfl, by decide +kernel⟩
  have hreset : Arrives twoRooms 0 3 { secondRoom with scope := ⟨[], [], 1⟩ } (.scope (.enterPrivate (some "a"))) :=
    ⟨by decide +kernel, "private namespace a", rfl, by decide +kernel⟩
  have hsecond : Arrives twoRooms 0 4 secondRoom (.label "x" .concealed) :=
    ⟨by decide +kernel, ".x", rfl, by decide +kernel⟩
  have hframes : openFrames (twoRooms.take 1) = [some 0] := by decide +kernel
  have hframes' : openFrames (twoRooms.take 4) = [some 3] := by decide +kernel
  obtain ⟨hgiven, hunique, hat, hapart⟩ := private_names_are_hygienic twoRooms 0
  obtain ⟨opening, hopening, hopens⟩ := (hat 1 firstRoom _ hfirst).2.1 0 (by decide)
  obtain rfl : opening = 0 := by simpa [hframes] using hopening
  obtain ⟨hinside, houtside⟩ := hapart 1 4 _ _ _ _ hfirst hsecond _ List.mem_cons_self
  refine ⟨hfirst, hsecond, hopens, hgiven 3 _ _ secondRoom hreset rfl (by decide +kernel), fun h => ?_, ?_, fun h => ?_, ?_⟩
  · exact absurd (hunique 0 3 0 hopens h) (by decide)
  · exact ((hat 1 firstRoom _ hfirst).2.2.1 _ List.mem_cons_self).1
  · have hopen := hinside h 0 (by simp [hframes])
    simp [hframes'] at hopen
  · exact houtside (by simp [innermost, hframes, hframes'])

end ByteMachine
