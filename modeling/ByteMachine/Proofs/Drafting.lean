/-
What the operations of the first reading do when they succeed, said once for each. Proofs about the reading take a line
apart with these and need not open the operations.
-/
import Mathlib.Tactic
import ByteMachine.Assembly.Draft
import ByteMachine.Proofs.Attempt

namespace ByteMachine.Draft

variable {draft next : Draft} {line number : Nat}

/-! ## Operations -/

theorem here_eq_ok_iff {value : Word} :
    draft.here = .ok value ↔ draft.address < addressSpace ∧ UInt16.ofNat draft.address = value := by
  unfold here
  by_cases hfits : draft.address < addressSpace <;> simp [hfits]

theorem checkSize_eq_ok_iff : draft.checkSize = .ok next ↔ draft.address ≤ addressSpace ∧ draft = next := by
  unfold checkSize
  by_cases hfits : draft.address ≤ addressSpace <;> simp [hfits]

theorem bind_eq_ok_iff {name : Path} {binding : Binding} :
    draft.bind line name binding = .ok next ↔
      ∃ labels, draft.labels.define? name binding line = some labels ∧ { draft with labels } = next := by
  unfold Draft.bind
  cases draft.labels.define? name binding line <;> simp

def publicParts (name : String) (newName : Option Name) : List String := (newName.map (·.parts)).getD [name]

theorem expose_eq_ok_iff {declared : Path} {name : String} {newName : Option Name} :
    draft.expose line declared name newName = .ok next ↔
      ∃ space, draft.scope.current.demangle? anonymous = some space ∧
        (space.join (draft.internAll (publicParts name newName)).1 = declared ∧
            (draft.internAll (publicParts name newName)).2 = next ∨
          space.join (draft.internAll (publicParts name newName)).1 ≠ declared ∧
            (draft.internAll (publicParts name newName)).2.bind line
              (space.join (draft.internAll (publicParts name newName)).1) (.aliasOf declared) = .ok next) := by
  unfold Draft.expose
  cases draft.scope.current.demangle? anonymous with
  | none => simp
  | some space =>
    by_cases hsame : space.join (draft.internAll (publicParts name newName)).1 = declared <;>
      simp_all [publicParts]

theorem declare_eq_ok_iff {name : String} {visibility : Visibility} {symbol : Symbol} :
    draft.declare line name visibility = .ok (symbol, next) ↔
      (draft.intern name).1 = symbol ∧ ∃ value bound, (draft.intern name).2.here = .ok value ∧
        (draft.intern name).2.bind line (draft.scope.current.join [symbol]) (.address value) = .ok bound ∧
        match visibility with
        | .concealed => bound = next
        | .exposed newName => bound.expose line (draft.scope.current.join [symbol]) name newName = .ok next := by
  constructor
  · intro h
    obtain ⟨value, hhere, h⟩ := Attempt.bind_eq_ok_iff.1 h
    obtain ⟨bound, hbind, h⟩ := Attempt.bind_eq_ok_iff.1 h
    cases visibility with
    | concealed =>
      obtain ⟨rfl, rfl⟩ := Prod.mk.inj (Except.ok.inj h)
      exact ⟨rfl, value, bound, hhere, hbind, rfl⟩
    | exposed newName =>
      obtain ⟨exposed, hexpose, h⟩ := Attempt.bind_eq_ok_iff.1 h
      obtain ⟨rfl, rfl⟩ := Prod.mk.inj (Except.ok.inj h)
      exact ⟨rfl, value, bound, hhere, hbind, hexpose⟩
  · rintro ⟨rfl, value, bound, hhere, hbind, h⟩
    refine Attempt.bind_eq_ok_iff.2 ⟨value, hhere, Attempt.bind_eq_ok_iff.2 ⟨bound, hbind, ?_⟩⟩
    cases visibility with
    | concealed => rw [← h]; rfl
    | exposed newName => exact Attempt.bind_eq_ok_iff.2 ⟨next, h, rfl⟩

/-! ## Statements -/

theorem add_label_eq_ok_iff {name : String} {visibility : Visibility} :
    draft.add line (.label name visibility) = .ok next ↔
      ∃ symbol, draft.declare line name visibility = .ok (symbol, next) := by
  simp only [Draft.add, Attempt.bind_eq_ok_iff, Prod.exists]
  constructor
  · rintro ⟨symbol, declared, hdeclare, h⟩
    obtain rfl := Except.ok.inj h
    exact ⟨symbol, hdeclare⟩
  · rintro ⟨symbol, hdeclare⟩
    exact ⟨symbol, next, hdeclare, rfl⟩

theorem add_subroutine_eq_ok_iff {name : String} {visibility : Visibility} :
    draft.add line (.subroutine name visibility) = .ok next ↔
      ∃ symbol declared, draft.declare line name visibility = .ok (symbol, declared) ∧
        { declared with scope := declared.scope.pushPrivate symbol } = next := by
  simp only [Draft.add, Attempt.bind_eq_ok_iff, Prod.exists]
  constructor
  · rintro ⟨symbol, declared, hdeclare, h⟩
    exact ⟨symbol, declared, hdeclare, Except.ok.inj h⟩
  · rintro ⟨symbol, declared, hdeclare, rfl⟩
    exact ⟨symbol, declared, hdeclare, rfl⟩

theorem changeScope_leave_eq_ok_iff :
    draft.changeScope .leave = .ok next ↔ ∃ scope, draft.scope.pop? = some scope ∧ { draft with scope } = next := by
  simp only [Draft.changeScope]
  cases draft.scope.pop? <;> simp

theorem add_exportName_eq_ok_iff {name : Name} {newName : Option Name} :
    draft.add line (.exportName name newName) = .ok next ↔ draft.scope.depth ≠ 0 ∧
      let learned := draft.internAll name.parts
      let renamed := learned.2.internAll (newName.getD name).parts
      renamed.2.bind line ((draft.scope.ancestor 1).join renamed.1) (.aliasOf (draft.scope.current.join learned.1)) =
        .ok next := by
  simp only [Draft.add]
  by_cases hdepth : draft.scope.depth = 0
  · simp [hdepth]
  · rw [if_neg hdepth]
    exact (and_iff_right hdepth).symm

/-! ## Lines -/

theorem addLine_of_parse {text : String} {statement : Statement} (h : Statement.parse text = .ok statement) :
    draft.addLine number text = (draft.add number statement).mapError fun cause => ⟨number, 0, text, cause⟩ := by
  rw [addLine, Statement.parseLine, h]
  rfl

theorem addLine_eq_ok_iff {text : String} :
    draft.addLine number text = .ok next ↔
      ∃ statement, Statement.parse text = .ok statement ∧ draft.add number statement = .ok next := by
  rw [addLine, Attempt.bind_eq_ok_iff]
  simp only [Statement.parseLine, Attempt.mapError_eq_ok_iff]

theorem addLines_cons_eq_ok_iff {text : String} {texts : List String} :
    draft.addLines number (text :: texts) = .ok next ↔
      ∃ added, draft.addLine number text = .ok added ∧ added.addLines (number + 1) texts = .ok next :=
  Attempt.bind_eq_ok_iff

theorem addLines_singleton (text : String) : draft.addLines number [text] = draft.addLine number text := by
  rw [addLines]
  cases draft.addLine number text <;> rfl

theorem addLines_append (before after : List String) :
    draft.addLines number (before ++ after) =
      draft.addLines number before >>= fun middle => middle.addLines (number + before.length) after := by
  induction before generalizing draft number with
  | nil => rfl
  | cons text before ih =>
    have hlength : number + (text :: before).length = number + 1 + before.length := by
      rw [List.length_cons]
      omega
    rw [List.cons_append, addLines, addLines, hlength]
    cases draft.addLine number text with
    | error e => rfl
    | ok next => exact ih

theorem addLines_append_eq_ok_iff {before after : List String} :
    draft.addLines number (before ++ after) = .ok next ↔
      ∃ middle, draft.addLines number before = .ok middle ∧
        middle.addLines (number + before.length) after = .ok next := by
  rw [addLines_append, Attempt.bind_eq_ok_iff]

/-! ## Lines that are rejected -/

theorem addLine_eq_error_iff {text : String} {e : AssemblyError} :
    draft.addLine number text = .error e ↔
      (∃ complaint, Statement.parse text = .error complaint ∧ e = ⟨number, complaint.column, text, complaint.cause⟩) ∨
        ∃ statement cause, Statement.parse text = .ok statement ∧ draft.add number statement = .error cause ∧
          e = ⟨number, 0, text, cause⟩ := by
  rw [addLine, Attempt.bind_eq_error_iff]
  simp only [Statement.parseLine, Attempt.mapError_eq_ok_iff, Attempt.mapError_eq_error_iff, eq_comm (b := e),
    exists_and_left]

/-- a line is rejected at its number, and quoted -/
theorem place_of_addLine {text : String} {e : AssemblyError} (h : draft.addLine number text = .error e) :
    e.line = number ∧ e.text = text := by
  rcases addLine_eq_error_iff.1 h with ⟨complaint, -, rfl⟩ | ⟨statement, cause, -, -, rfl⟩
  · exact ⟨rfl, rfl⟩
  · exact ⟨rfl, rfl⟩

/-- lines are rejected at the first of them that is rejected after those before it -/
theorem addLines_eq_error_iff {texts : List String} {e : AssemblyError} :
    draft.addLines number texts = .error e ↔
      ∃ before text after middle, texts = before ++ text :: after ∧ draft.addLines number before = .ok middle ∧
        middle.addLine (number + before.length) text = .error e := by
  constructor
  · intro h
    induction texts generalizing draft number with
    | nil => cases h
    | cons text texts ih =>
      rcases Attempt.bind_eq_error_iff.1 h with hfirst | ⟨added, hadded, hrest⟩
      · exact ⟨[], text, texts, draft, rfl, rfl, hfirst⟩
      · obtain ⟨before, text', after, middle, rfl, hbefore, hrejected⟩ := ih hrest
        have hlength : number + 1 + before.length = number + (text :: before).length := by
          rw [List.length_cons]
          omega
        rw [hlength] at hrejected
        exact ⟨text :: before, text', after, middle, rfl, addLines_cons_eq_ok_iff.2 ⟨added, hadded, hbefore⟩, hrejected⟩
  · intro h
    obtain ⟨before, text, after, middle, rfl, hbefore, hrejected⟩ := h
    rw [addLines_append, hbefore, Attempt.ok_bind, addLines, hrejected, Attempt.error_bind]

/-- a text is rejected by the first reading at one of its lines, which it quotes -/
theorem ofLines_eq_error_iff {texts : List String} {mount : Word} {e : AssemblyError} :
    ofLines texts mount = .error e ↔
      ∃ before text after middle, texts = before ++ text :: after ∧ ofLines before mount = .ok middle ∧
        middle.addLine (before.length + 1) text = .error e := by
  simp only [ofLines, addLines_eq_error_iff, Nat.add_comm 1]

end ByteMachine.Draft
