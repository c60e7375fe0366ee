/-
The open namespaces as a stack of frames. A scope keeps the segments of all frames in one list and the sizes of the
frames in another; here each frame has its own segments, and the frames lie side by side, the outermost first (`Frames`).
Every operation does the same to both (`Scope.Holds.apply`), so after any operations the two lists of a scope fit together
as if there were frames (`Scope.Holds.applyAll`).

- `Scope.IsStackOf`: what a scope answers, said of its frames, and that no cut goes beyond the segments there are.
- `Draft.exists_ops_of_ofLines`: the lines of a text change the scope by these operations only.
- `scope_is_stack_of_frames`: the statement about all operations, and what climbing in a name comes to.
-/
import Mathlib.Data.List.DropRight
import Mathlib.Tactic
import ByteMachine.Proofs.Hygiene.Names
import ByteMachine.Proofs.Reading.Names

namespace ByteMachine

inductive ScopeOp where
  | push (names : List Symbol)
  | pushPrivate (name : Symbol)
  | pop
  | reset (names : List Symbol)
  deriving DecidableEq, Repr

/-! ## Scopes and stacks -/

namespace Scope

/-- close the innermost frame; where no frame is open nothing changes -/
def pop (scope : Scope) : Scope := scope.pop?.getD scope

def apply (scope : Scope) : ScopeOp → Scope
  | .push names => scope.push names
  | .pushPrivate name => scope.pushPrivate name
  | .pop => scope.pop
  | .reset names => scope.reset names

def applyAll (scope : Scope) (ops : List ScopeOp) : Scope := ops.foldl apply scope

end Scope

/-- the open frames, the outermost first, each with its segments, and the tag of the next private namespace -/
structure Frames where
  frames : List (List Segment)
  nextTag : Nat
  deriving DecidableEq, Repr

namespace Frames

def empty : Frames := ⟨[], 0⟩

def path (frames : List (List Segment)) : Path := ⟨frames.flatten⟩

def plainSegment (name : Symbol) : Segment := ⟨name, none⟩

/-- the frames after an operation: one more, one less, or one for each name -/
def apply (stack : Frames) : ScopeOp → Frames
  | .push names => { stack with frames := stack.frames ++ [names.map plainSegment] }
  | .pushPrivate name => ⟨stack.frames ++ [[⟨name, some stack.nextTag⟩]], stack.nextTag + 1⟩
  | .pop => { stack with frames := stack.frames.dropLast }
  | .reset names => { stack with frames := names.map fun name => [plainSegment name] }

def applyAll (stack : Frames) (ops : List ScopeOp) : Frames := ops.foldl apply stack

end Frames

namespace Scope

/-- the scope has the segments and the sizes of the frames -/
structure Holds (scope : Scope) (stack : Frames) : Prop where
  segments : scope.segments = stack.frames.flatten
  sizes : scope.sizes = (stack.frames.map List.length).reverse
  nextTag : scope.nextTag = stack.nextTag

variable {scope popped : Scope} {stack : Frames}

theorem holds_empty : empty.Holds .empty := ⟨rfl, rfl, rfl⟩

/-! ## Operations -/

/-- one more frame, with whatever tag comes next -/
theorem Holds.concat (h : scope.Holds stack) (frame : List Segment) (nextTag : Nat) :
    Holds ⟨scope.segments ++ frame, frame.length :: scope.sizes, nextTag⟩ ⟨stack.frames ++ [frame], nextTag⟩ where
  segments := by simp [h.segments]
  sizes := by simp [h.sizes]
  nextTag := rfl

theorem Holds.push (h : scope.Holds stack) (names : List Symbol) : (scope.push names).Holds (stack.apply (.push names)) := by
  have hframe := h.concat (names.map Frames.plainSegment) scope.nextTag
  rw [List.length_map, h.nextTag] at hframe
  exact ⟨hframe.segments, hframe.sizes, h.nextTag⟩

theorem Holds.pushPrivate (h : scope.Holds stack) (name : Symbol) :
    (scope.pushPrivate name).Holds (stack.apply (.pushPrivate name)) := by
  have hframe := h.concat [⟨name, some stack.nextTag⟩] (stack.nextTag + 1)
  rw [Scope.pushPrivate, h.nextTag]
  exact hframe

theorem Holds.depth_eq (h : scope.Holds stack) : scope.depth = stack.frames.length := by
  rw [depth, h.sizes, List.length_reverse, List.length_map]

theorem Holds.pop?_eq_none_iff (h : scope.Holds stack) : scope.pop? = none ↔ stack.frames = [] := by
  rw [← List.length_eq_zero_iff, ← h.depth_eq, depth, List.length_eq_zero_iff, pop?]
  cases scope.sizes <;> simp

/-- what is closed is the last frame, and the sizes say where it begins -/
theorem Holds.pop?_eq_some (h : scope.Holds stack) {kept : List (List Segment)} {last : List Segment}
    (hframes : stack.frames = kept ++ [last]) :
    ∃ popped, scope.pop? = some popped ∧ popped.Holds { stack with frames := kept } ∧
      last.length ≤ scope.segments.length := by
  have hsegments : scope.segments = kept.flatten ++ last := by rw [h.segments, hframes]; simp
  have hsizes : scope.sizes = last.length :: (kept.map List.length).reverse := by rw [h.sizes, hframes]; simp
  have hlength : scope.segments.length = kept.flatten.length + last.length := by rw [hsegments, List.length_append]
  refine ⟨⟨kept.flatten, (kept.map List.length).reverse, scope.nextTag⟩, ?_, ⟨rfl, rfl, h.nextTag⟩, by omega⟩
  rw [pop?, hsizes]
  simp only [hlength, Nat.add_sub_cancel]
  rw [hsegments, List.take_left]

theorem Holds.pop (h : scope.Holds stack) : scope.pop.Holds (stack.apply .pop) := by
  rw [Scope.pop, Frames.apply]
  rcases List.eq_nil_or_concat' stack.frames with hframes | ⟨kept, last, hframes⟩
  · rw [h.pop?_eq_none_iff.2 hframes, hframes, Option.getD_none]
    exact ⟨by rw [h.segments, hframes]; rfl, by rw [h.sizes, hframes]; rfl, h.nextTag⟩
  · obtain ⟨popped, hpopped, hholds, -⟩ := h.pop?_eq_some hframes
    rw [hpopped, hframes, Option.getD_some, List.dropLast_concat]
    exact hholds

theorem Holds.reset (h : scope.Holds stack) (names : List Symbol) :
    (scope.reset names).Holds (stack.apply (.reset names)) := by
  -- the frames are opened one after the other behind those that are there
  have hpush : ∀ (scope : Scope) (stack : Frames), scope.Holds stack →
      (names.foldl (fun scope name => scope.push [name]) scope).Holds
        { stack with frames := stack.frames ++ names.map fun name => [Frames.plainSegment name] } := by
    induction names with
    | nil =>
      intro scope stack h
      simpa using h
    | cons name names ih =>
      intro scope stack h
      have hnext := ih _ _ (h.push [name])
      simpa [Frames.apply] using hnext
  have hclosed : Holds { scope with segments := [], sizes := [] } { stack with frames := [] } := ⟨rfl, rfl, h.nextTag⟩
  exact hpush _ _ hclosed

/-- **An operation does the same to the scope and to the frames.** -/
theorem Holds.apply (h : scope.Holds stack) (op : ScopeOp) : (scope.apply op).Holds (stack.apply op) := by
  cases op with
  | push names => exact h.push names
  | pushPrivate name => exact h.pushPrivate name
  | pop => exact h.pop
  | reset names => exact h.reset names

theorem Holds.applyAll (h : scope.Holds stack) (ops : List ScopeOp) : (scope.applyAll ops).Holds (stack.applyAll ops) := by
  induction ops generalizing scope stack with
  | nil => exact h
  | cons op ops ih => exact ih (h.apply op)

/-! ## Questions -/

/-- the sizes of the outer frames are the segments of the outer frames -/
theorem Holds.sum_drop_sizes (h : scope.Holds stack) (levels : Nat) :
    (scope.sizes.drop levels).foldr (· + ·) 0 = (stack.frames.rdrop levels).flatten.length := by
  have hdrop : scope.sizes.drop levels = ((stack.frames.rdrop levels).map List.length).reverse := by
    rw [h.sizes, List.rdrop_eq_reverse_drop_reverse, ← List.map_reverse, ← List.map_reverse, List.reverse_reverse,
      List.map_drop]
  calc (scope.sizes.drop levels).foldr (· + ·) 0
    _ = (((stack.frames.rdrop levels).map List.length).reverse).sum := by rw [hdrop, List.sum]
    _ = ((stack.frames.rdrop levels).map List.length).sum := List.sum_reverse _
    _ = (stack.frames.rdrop levels).flatten.length := List.length_flatten.symm

/-- the outer frames are the first ones -/
theorem Holds.segments_split (h : scope.Holds stack) (levels : Nat) :
    scope.segments = (stack.frames.rdrop levels).flatten ++ (stack.frames.rtake levels).flatten := by
  rw [h.segments, ← List.flatten_append, List.rdrop, List.rtake, List.take_append_drop]

theorem Holds.ancestor_eq (h : scope.Holds stack) (levels : Nat) :
    scope.ancestor levels = Frames.path (stack.frames.rdrop levels) := by
  rw [ancestor, h.sum_drop_sizes, h.segments_split levels, List.take_left, Frames.path]

theorem Holds.iterate_pop (h : scope.Holds stack) (count : Nat) :
    (Scope.pop^[count] scope).Holds { stack with frames := stack.frames.rdrop count } := by
  induction count with
  | zero => simpa using h
  | succ count ih =>
    have hframes : (stack.frames.rdrop count).dropLast = stack.frames.rdrop (count + 1) := by
      simp only [List.rdrop, List.dropLast_eq_take, List.length_take, List.take_take]
      congr 1
      omega
    rw [Function.iterate_succ_apply', ← hframes]
    exact ih.pop

/-- climbing is closing -/
theorem Holds.ancestor_add (h : scope.Holds stack) (levels count : Nat) :
    scope.ancestor (levels + count) = (Scope.pop^[count] scope).ancestor levels := by
  have hframes : (stack.frames.rdrop count).rdrop levels = stack.frames.rdrop (levels + count) := by
    simp only [List.rdrop, List.length_take, List.take_take]
    congr 1
    omega
  rw [h.ancestor_eq, (h.iterate_pop count).ancestor_eq, hframes]

end Scope

/-- what the scope answers is said of the frames, and no cut goes beyond the segments that there are -/
structure Scope.IsStackOf (scope : Scope) (stack : Frames) : Prop where
  current : scope.current = Frames.path stack.frames
  depth : scope.depth = stack.frames.length
  ancestor : ∀ levels, scope.ancestor levels = Frames.path (stack.frames.rdrop levels)
  /-- there is nothing above the root -/
  beyond : ∀ levels, scope.depth ≤ levels → scope.ancestor levels = Path.root
  /-- a frame is closed unless none is open, and then nothing changes -/
  atRoot : (scope.pop? = none ↔ scope.depth = 0) ∧ (scope.depth = 0 → scope.pop = scope)
  /-- what is closed is the last frame, and no other -/
  closes : ∀ popped, scope.pop? = some popped →
    ∃ kept last, stack.frames = kept ++ [last] ∧ popped.Holds { stack with frames := kept }
  /-- the sizes that are added up for a namespace above come to no more than all segments -/
  ancestorWithin : ∀ levels, (scope.sizes.drop levels).foldr (· + ·) 0 ≤ scope.segments.length
  /-- the size that is taken away is no more than there is -/
  popWithin : ∀ size sizes, scope.sizes = size :: sizes → size ≤ scope.segments.length

theorem Scope.Holds.isStackOf {scope : Scope} {stack : Frames} (h : scope.Holds stack) : scope.IsStackOf stack where
  current := congrArg Path.mk h.segments
  depth := h.depth_eq
  ancestor := h.ancestor_eq
  beyond := by
    intro levels hlevels
    rw [h.depth_eq] at hlevels
    rw [h.ancestor_eq, List.rdrop, Nat.sub_eq_zero_of_le hlevels]
    rfl
  atRoot := by
    have hnone : scope.pop? = none ↔ scope.depth = 0 := by
      rw [h.pop?_eq_none_iff, h.depth_eq, List.length_eq_zero_iff]
    refine ⟨hnone, fun hdepth => ?_⟩
    rw [Scope.pop, hnone.2 hdepth, Option.getD_none]
  closes := by
    intro popped hpopped
    rcases List.eq_nil_or_concat' stack.frames with hframes | ⟨kept, last, hframes⟩
    · rw [h.pop?_eq_none_iff.2 hframes] at hpopped
      cases hpopped
    · obtain ⟨popped', hpopped', hholds, -⟩ := h.pop?_eq_some hframes
      obtain rfl := Option.some.inj (hpopped.symm.trans hpopped')
      exact ⟨kept, last, hframes, hholds⟩
  ancestorWithin := by
    intro levels
    rw [h.sum_drop_sizes, h.segments_split levels, List.length_append]
    exact Nat.le_add_right _ _
  popWithin := by
    intro size sizes hsizes
    rcases List.eq_nil_or_concat' stack.frames with hframes | ⟨kept, last, hframes⟩
    · rw [h.sizes, hframes] at hsizes
      cases hsizes
    · obtain ⟨-, -, -, hlength⟩ := h.pop?_eq_some hframes
      rw [h.sizes, hframes, List.map_append, List.map_singleton, List.reverse_concat] at hsizes
      rwa [← (List.cons.inj hsizes).1]

/-! ## Lines -/

namespace Draft

variable {draft next : Draft} {line number : Nat}

theorem scope_emits (line : Nat) (draft : Draft) (arguments : List Argument) :
    (arguments.foldl (emit line) draft).scope = draft.scope := by
  induction arguments generalizing draft with
  | nil => rfl
  | cons argument arguments ih => rw [List.foldl_cons, ih, scope_emit]

theorem exists_ops_of_changeScope {change : ScopeChange} (h : draft.changeScope change = .ok next) :
    ∃ op, next.scope = draft.scope.apply op := by
  cases change with
  | enter name =>
    obtain rfl := Except.ok.inj h
    exact ⟨.push _, rfl⟩
  | enterPrivate name =>
    obtain rfl := Except.ok.inj h
    exact ⟨.pushPrivate _, rfl⟩
  | leave =>
    obtain ⟨scope, hpop, rfl⟩ := changeScope_leave_eq_ok_iff.1 h
    refine ⟨.pop, ?_⟩
    rw [Scope.apply, Scope.pop, hpop, Option.getD_some]
  | reset path =>
    obtain rfl := Except.ok.inj h
    exact ⟨.reset _, rfl⟩

/-- a line changes the scope by an operation, or leaves it -/
theorem exists_ops_of_add {statement : Statement} (h : draft.add line statement = .ok next) :
    ∃ ops, next.scope = draft.scope.applyAll ops := by
  cases statement with
  | blank =>
    obtain rfl := Except.ok.inj h
    exact ⟨[], rfl⟩
  | label name visibility =>
    obtain ⟨symbol, hdeclare⟩ := add_label_eq_ok_iff.1 h
    exact ⟨[], scope_of_declare hdeclare⟩
  | subroutine name visibility =>
    obtain ⟨symbol, declared, hdeclare, rfl⟩ := add_subroutine_eq_ok_iff.1 h
    exact ⟨[.pushPrivate symbol], congrArg (·.pushPrivate symbol) (scope_of_declare hdeclare)⟩
  | scope change =>
    obtain ⟨op, hop⟩ := exists_ops_of_changeScope h
    exact ⟨[op], hop⟩
  | exportName name newName =>
    obtain ⟨-, hbind⟩ := add_exportName_eq_ok_iff.1 h
    obtain ⟨labels, -, rfl⟩ := bind_eq_ok_iff.1 hbind
    exact ⟨[], rfl⟩
  | useName name newName =>
    obtain ⟨labels, -, rfl⟩ := bind_eq_ok_iff.1 h
    exact ⟨[], rfl⟩
  | data arguments =>
    obtain ⟨-, rfl⟩ := checkSize_eq_ok_iff.1 h
    exact ⟨[], scope_emits line draft arguments⟩
  | instruction op arguments =>
    obtain ⟨-, rfl⟩ := checkSize_eq_ok_iff.1 h
    exact ⟨[], scope_emits line _ arguments⟩

theorem exists_ops_of_addLines {texts : List String} (h : draft.addLines number texts = .ok next) :
    ∃ ops, next.scope = draft.scope.applyAll ops := by
  induction texts generalizing draft number with
  | nil =>
    obtain rfl := Except.ok.inj h
    exact ⟨[], rfl⟩
  | cons text texts ih =>
    obtain ⟨added, hadded, hrest⟩ := addLines_cons_eq_ok_iff.1 h
    obtain ⟨statement, -, hadd⟩ := addLine_eq_ok_iff.1 hadded
    obtain ⟨first, hfirst⟩ := exists_ops_of_add hadd
    obtain ⟨rest, hops⟩ := ih hrest
    refine ⟨first ++ rest, ?_⟩
    rw [hops, hfirst, Scope.applyAll, Scope.applyAll, Scope.applyAll, List.foldl_append]

/-- the scope of a draft comes of operations on the scope without any frame -/
theorem exists_ops_of_ofLines {texts : List String} {mount : Word} (h : ofLines texts mount = .ok draft) :
    ∃ ops, draft.scope = Scope.empty.applyAll ops := exists_ops_of_addLines h

/-! ## Names that climb -/

/-- the draft with the innermost frames closed, as many as there are -/
def closed (draft : Draft) (count : Nat) : Draft := { draft with scope := Scope.pop^[count] draft.scope }

/-- a name that climbs is read as its parts alone would be where as many frames are closed -/
structure ClimbsByClosing (draft : Draft) : Prop where
  operand : ∀ line levels parts half token,
    (draft.emit line ⟨.address ⟨.above levels, parts⟩ half, token⟩).cells =
      ((draft.closed levels).emit line ⟨.address ⟨.above 0, parts⟩ half, token⟩).cells
  /-- a name from elsewhere is read from one level further up -/
  use : ∀ line levels parts newName next, draft.add line (.useName ⟨.above levels, parts⟩ newName) = .ok next →
    ∃ name, next.labels.entries.toList = draft.labels.entries.toList ++
      [⟨name, .aliasOf ((draft.closed (levels + 1)).qualify ⟨.above 0, parts⟩ 0).1, line⟩]

theorem qualify_above {stack : Frames} (h : draft.scope.Holds stack) (climbed levels : Nat) (parts : List String) :
    (draft.qualify ⟨.above climbed, parts⟩ levels).1 =
      ((draft.closed (climbed + levels)).qualify ⟨.above 0, parts⟩ 0).1 := by
  have hclosed := h.ancestor_add 0 (climbed + levels)
  rw [Nat.zero_add] at hclosed
  have hancestor : draft.scope.ancestor (levels + climbed) = (draft.closed (climbed + levels)).scope.ancestor 0 :=
    (congrArg draft.scope.ancestor (Nat.add_comm levels climbed)).trans hclosed
  simp only [qualify, base]
  exact congrArg (·.join (draft.internAll parts).1) hancestor

theorem climbsByClosing {stack : Frames} (h : draft.scope.Holds stack) : draft.ClimbsByClosing where
  operand := by
    intro line levels parts half token
    have hpath := qualify_above h levels 0 parts
    exact congrArg (fun target => draft.cells.push (.half target half line token.column)) hpath
  use := by
    intro line levels parts newName next hadd
    obtain ⟨labels, hdefine, rfl⟩ := bind_eq_ok_iff.1 hadd
    obtain ⟨hentries, -⟩ := LabelTable.entries_of_define? hdefine
    refine ⟨draft.scope.current.join
      ((draft.qualify ⟨.above levels, parts⟩ 1).2.internAll (newName.getD ⟨.above levels, parts⟩).parts).1, ?_⟩
    rw [← qualify_above h levels 1 parts]
    exact hentries

end Draft

/-- a mark that climbs, written in front of a name that is read from the namespace at hand or above it -/
theorem Name.parse?_climb {text : String} {levels : Nat} {parts : List String}
    (h : Name.parse? false text = some ⟨.above levels, parts⟩) :
    Name.parse? false ("$." ++ text) = some ⟨.above (levels + 1), parts⟩ := by
  have hspells := parse?_false_eq_some_iff.1 h
  refine parse?_false_eq_some_iff.2 ⟨?_, hspells.identifiers, hspells.ne_nil, nofun⟩
  have hne : List.replicate levels climbMark ++ parts ≠ [] := List.append_ne_nil_of_right_ne_nil _ hspells.ne_nil
  rw [hspells.text_eq, segments_above, segments_above, List.replicate_succ, List.cons_append]
  cases hsegments : List.replicate levels climbMark ++ parts with
  | nil => exact absurd hsegments hne
  | cons segment segments => simp [climbMark]

theorem Name.parse?_iterate_climb {text : String} {parts : List String}
    (h : Name.parse? false text = some ⟨.above 0, parts⟩) (levels : Nat) :
    Name.parse? false (("$." ++ ·)^[levels] text) = some ⟨.above levels, parts⟩ := by
  induction levels with
  | zero => exact h
  | succ levels ih =>
    rw [Function.iterate_succ_apply']
    exact parse?_climb ih

/-- **The open namespaces are a stack of frames.** After any operations a scope is that of the frames: the namespace at
hand is all of them, one above it is what is left without the last frames, the depth is their number, and closing takes
the last frame away or, where there is none, nothing; and it never cuts off more than there is. So it is after the lines
of any text. There a name with climb marks in an operand is read as its parts alone would be after as many frames are
closed, and one that is given a second name, after one frame more. -/
theorem scope_is_stack_of_frames (ops : List ScopeOp) :
    (Scope.empty.applyAll ops).IsStackOf (Frames.empty.applyAll ops) ∧
      (∀ texts mount draft, Draft.ofLines texts mount = .ok draft →
        (∃ done, draft.scope = Scope.empty.applyAll done) ∧ draft.ClimbsByClosing) ∧
      ∀ text parts, Name.parse? false text = some ⟨.above 0, parts⟩ →
        ∀ levels, Name.parse? false (("$." ++ ·)^[levels] text) = some ⟨.above levels, parts⟩ := by
  refine ⟨(Scope.holds_empty.applyAll ops).isStackOf, ?_, fun text parts h levels => Name.parse?_iterate_climb h levels⟩
  intro texts mount draft h
  obtain ⟨done, hdone⟩ := Draft.exists_ops_of_ofLines h
  have hholds : draft.scope.Holds (Frames.empty.applyAll done) := hdone ▸ Scope.holds_empty.applyAll done
  exact ⟨⟨done, hdone⟩, Draft.climbsByClosing hholds⟩

/-- a private namespace in a namespace of two segments -/
def climbingTexts : List String := ["namespace a.b", "def f"]

def Draft.rendered (draft : Draft) (name : Name) : String :=
  let (path, draft) := draft.qualify name 0
  path.render draft.symbols

theorem climbingTexts_climb :
    (Scope.empty.applyAll [.push [⟨0⟩, ⟨1⟩], .pushPrivate ⟨2⟩]).ancestor 1 =
        Frames.path [[⟨⟨0⟩, none⟩, ⟨⟨1⟩, none⟩]] ∧
      Name.parse? false "$.$.x" = some ⟨.above 2, ["x"]⟩ ∧
      ∃ draft, Draft.ofLines climbingTexts 0x10 = .ok draft ∧ draft.ClimbsByClosing ∧
        draft.rendered ⟨.above 0, ["x"]⟩ = "a.b.f#0.x" ∧ draft.rendered ⟨.above 1, ["x"]⟩ = "a.b.x" ∧
        draft.rendered ⟨.above 5, ["x"]⟩ = "x" := by
  obtain ⟨hstack, hlines, hclimb⟩ := scope_is_stack_of_frames [.push [⟨0⟩, ⟨1⟩], .pushPrivate ⟨2⟩]
  refine ⟨hstack.ancestor 1, hclimb "x" ["x"] (by decide +kernel) 2, ?_⟩
  have hread : (Draft.ofLines climbingTexts 0x10).toOption.isSome := by decide +kernel
  obtain ⟨draft, hdraft⟩ := Attempt.exists_ok_of_isSome hread
  have hrendered : (Draft.ofLines climbingTexts 0x10).map (fun draft => [0, 1, 5].map fun levels =>
      draft.rendered ⟨.above levels, ["x"]⟩) = .ok ["a.b.f#0.x", "a.b.x", "x"] := by decide +kernel
  rw [hdraft] at hrendered
  have hlist := Except.ok.inj hrendered
  simp only [List.map_cons, List.map_nil, List.cons.injEq, and_true] at hlist
  exact ⟨draft, hdraft, (hlines climbingTexts 0x10 draft hdraft).2, hlist⟩

end ByteMachine
