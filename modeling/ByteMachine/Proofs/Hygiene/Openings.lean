/-
Private namespaces told apart by the lines that open them. `openFrames` follows the open namespaces without any tag: a
private one is known by the line that opened it. The tag that a line gives is the number of private namespaces opened
before it, so two lines never give the same one, and the tags on the way down to a line are those of the lines whose
namespaces are still open there (`tags_path_spaceOf`).
-/
import Mathlib.Tactic
import ByteMachine.Proofs.Layout.Plan
import ByteMachine.Statement.Grammar

namespace ByteMachine

def Statement.opensPrivate : Statement → Bool
  | .subroutine _ _ | .scope (.enterPrivate _) => true
  | _ => false

namespace Layout

def statementsOf (texts : List String) : List Statement :=
  texts.filterMap fun text => (Statement.parse text).toOption

def spaceOf (texts : List String) : Space := (statementsOf texts).foldl Space.after Space.initial

def privateCount (texts : List String) : Nat := (statementsOf texts).countP Statement.opensPrivate

/-- the open namespaces after a statement, the one opened last first; a private one is shown as the number of lines
before the one that opened it -/
def framesAfter (line : Nat) (frames : List (Option Nat)) : Statement → List (Option Nat)
  | .subroutine _ _ | .scope (.enterPrivate _) => some line :: frames
  | .scope (.enter _) => none :: frames
  | .scope .leave => frames.tail
  | .scope (.reset path) => (path.parts.map fun _ => none).reverse
  | _ => frames

def openFrames (texts : List String) : List (Option Nat) :=
  texts.zipIdx.foldl
    (fun frames line =>
      match Statement.parse line.1 with
      | .ok statement => framesAfter line.2 frames statement
      | .error _ => frames) []

/-- the line that opened the innermost private namespace -/
def innermost (texts : List String) : Option Nat := ((openFrames texts).filterMap id).head?

/-! ## One more line -/

theorem statementsOf_concat (texts : List String) {text : String} {statement : Statement}
    (h : Statement.parse text = .ok statement) : statementsOf (texts ++ [text]) = statementsOf texts ++ [statement] := by
  simp [statementsOf, h, Except.toOption]

theorem statementsOf_concat_of_error (texts : List String) {text : String} {complaint : Statement.Complaint}
    (h : Statement.parse text = .error complaint) : statementsOf (texts ++ [text]) = statementsOf texts := by
  simp [statementsOf, h, Except.toOption]

theorem openFrames_concat (texts : List String) {text : String} {statement : Statement}
    (h : Statement.parse text = .ok statement) :
    openFrames (texts ++ [text]) = framesAfter texts.length (openFrames texts) statement := by
  simp [openFrames, List.zipIdx_append, h]

theorem openFrames_concat_of_error (texts : List String) {text : String} {complaint : Statement.Complaint}
    (h : Statement.parse text = .error complaint) : openFrames (texts ++ [text]) = openFrames texts := by
  simp [openFrames, List.zipIdx_append, h]

theorem openings_after (space : Space) (statement : Statement) :
    (space.after statement).openings = space.openings + if statement.opensPrivate then 1 else 0 := by
  cases statement with
  | scope change => cases change <;> rfl
  | _ => rfl

theorem openings_spaceOf (texts : List String) : (spaceOf texts).openings = privateCount texts := by
  unfold spaceOf privateCount
  induction statementsOf texts using List.reverseRecOn with
  | nil => rfl
  | append_singleton statements statement ih =>
    rw [List.foldl_append, List.foldl_cons, List.foldl_nil, openings_after, ih, List.countP_append,
      List.countP_singleton]

/-! ## Tags -/

variable {texts : List String}

theorem privateCount_lt {j k : Nat} (hjk : j < k) {text : String} {statement : Statement} (htext : texts[j]? = some text)
    (hparse : Statement.parse text = .ok statement) (hopens : statement.opensPrivate) :
    privateCount (texts.take j) < privateCount (texts.take k) := by
  have hinitial : texts.take j ++ [text] <+: texts.take k := by
    obtain ⟨hj, rfl⟩ := List.getElem?_eq_some_iff.1 htext
    rw [List.take_concat_get' texts j hj]
    exact List.take_prefix_take_left hjk
  calc privateCount (texts.take j) < privateCount (texts.take j ++ [text]) := by
        rw [privateCount, privateCount, statementsOf_concat _ hparse, List.countP_append, List.countP_singleton,
          if_pos hopens]
        exact Nat.lt_succ_self _
    _ ≤ privateCount (texts.take k) := (hinitial.sublist.filterMap _).countP_le

/-- two lines that open a private namespace give different tags -/
theorem eq_of_privateCount_eq {j k : Nat} {text text' : String} {statement statement' : Statement}
    (htext : texts[j]? = some text) (hparse : Statement.parse text = .ok statement) (hopens : statement.opensPrivate)
    (htext' : texts[k]? = some text') (hparse' : Statement.parse text' = .ok statement')
    (hopens' : statement'.opensPrivate) (h : privateCount (texts.take j) = privateCount (texts.take k)) : j = k := by
  rcases Nat.lt_trichotomy j k with hjk | hjk | hjk
  · exact absurd h (privateCount_lt hjk htext hparse hopens).ne
  · exact hjk
  · exact absurd h (privateCount_lt hjk htext' hparse' hopens').ne'

/-- a line stands in the private namespace of a line before it -/
theorem opens_of_mem_openFrames {k line : Nat} (h : some line ∈ openFrames (texts.take k)) :
    line < k ∧ ∃ text statement, texts[line]? = some text ∧ Statement.parse text = .ok statement ∧
      statement.opensPrivate := by
  induction k with
  | zero => simp [openFrames] at h
  | succ k ih =>
    have hbefore : some line ∈ openFrames (texts.take k) → _ := fun h =>
      And.imp_left (Nat.lt_succ_of_lt) (ih h)
    by_cases hk : k < texts.length
    · rw [← List.take_concat_get' texts k hk] at h
      cases hparse : Statement.parse texts[k] with
      | error complaint =>
        rw [openFrames_concat_of_error _ hparse] at h
        exact hbefore h
      | ok statement =>
        rw [openFrames_concat _ hparse, List.length_take, Nat.min_eq_left hk.le] at h
        -- either this line opened the namespace, or it was open already
        by_cases hline : line = k ∧ statement.opensPrivate
        · obtain ⟨rfl, hopens⟩ := hline
          exact ⟨Nat.lt_succ_self _, _, statement, List.getElem?_eq_getElem hk, hparse, hopens⟩
        · apply hbefore
          cases statement with
          | scope change => cases change <;> simp_all [framesAfter, Statement.opensPrivate, List.mem_of_mem_tail]
          | _ => simp_all [framesAfter, Statement.opensPrivate]
    · rw [List.take_of_length_le (by omega)] at h
      rw [List.take_of_length_le (by omega)] at hbefore
      exact hbefore h

def tags (route : Route) : List Nat := route.filterMap (·.opening)

theorem tags_plain (names : List String) : tags (plain names) = [] := by
  simp [tags, plain, List.filterMap_map]

/-- the frame has the tag of the line that opened it, if that made it private -/
def Tagged (tagOf : Nat → Nat) (route : Route) (frame : Option Nat) : Prop := tags route = (frame.map tagOf).toList

theorem tagged_after {tagOf : Nat → Nat} {space : Space} {opened : List (Option Nat)}
    (h : List.Forall₂ (Tagged tagOf) space.frames opened) {line : Nat} (hline : tagOf line = space.openings)
    (statement : Statement) :
    List.Forall₂ (Tagged tagOf) (space.after statement).frames (framesAfter line opened statement) := by
  have hprivate : ∀ name, List.Forall₂ (Tagged tagOf) (space.enterPrivate name).frames (some line :: opened) := by
    intro name
    refine .cons ?_ h
    simp [Tagged, tags, hline]
  cases statement with
  | subroutine name visibility => exact hprivate name
  | scope change =>
    cases change with
    | enter name => exact .cons (tags_plain _) h
    | enterPrivate name => exact hprivate _
    | leave =>
      have htail := List.forall₂_drop 1 h
      rwa [List.drop_one, List.drop_one] at htail
    | reset path =>
      simp only [Space.after, framesAfter]
      rw [List.forall₂_reverse_iff, List.forall₂_map_left_iff, List.forall₂_map_right_iff]
      exact List.forall₂_same.2 fun name _ => tags_plain [name]
  | _ => exact h

theorem tagged_spaceOf (texts : List String) (k : Nat) :
    List.Forall₂ (Tagged fun line => privateCount (texts.take line)) (spaceOf (texts.take k)).frames
      (openFrames (texts.take k)) := by
  induction k with
  | zero => exact .nil
  | succ k ih =>
    by_cases hk : k < texts.length
    · rw [← List.take_concat_get' texts k hk]
      cases hparse : Statement.parse texts[k] with
      | error complaint =>
        rw [openFrames_concat_of_error _ hparse, spaceOf, statementsOf_concat_of_error _ hparse]
        exact ih
      | ok statement =>
        rw [openFrames_concat _ hparse, List.length_take, Nat.min_eq_left hk.le, spaceOf,
          statementsOf_concat _ hparse, List.foldl_concat]
        exact tagged_after ih (openings_spaceOf _).symm statement
    · rw [List.take_of_length_le (by omega : texts.length ≤ k)] at ih
      rwa [List.take_of_length_le (by omega)]

/-- **The tags on the way down to a line** are those of the lines whose private namespaces it stands in. -/
theorem tags_path_spaceOf (texts : List String) (k : Nat) :
    tags (spaceOf (texts.take k)).path =
      ((openFrames (texts.take k)).reverse.filterMap id).map fun line => privateCount (texts.take line) := by
  have hframes := tagged_spaceOf texts k
  rw [Space.path, Space.above, List.drop_zero]
  generalize (spaceOf (texts.take k)).frames = frames at hframes
  generalize openFrames (texts.take k) = opened at hframes
  induction hframes with
  | nil => rfl
  | @cons route frame frames opened hroute _ ih =>
    rw [List.reverse_cons, List.flatten_append, List.reverse_cons, List.filterMap_append, List.map_append, ← ih]
    simp only [Tagged, tags, List.filterMap_append, List.flatten_cons, List.flatten_nil, List.append_nil] at hroute ⊢
    rw [hroute]
    cases frame <;> rfl

end Layout

end ByteMachine
