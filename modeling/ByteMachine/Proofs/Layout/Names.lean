/-
Symbols and the names they stand for. A symbol table only grows at its end, so what a path spells stays the same while
more names are shown, and two paths of one table that spell the same are the same.

- `Draft.Learns`: a draft that has been shown more names and is otherwise as before.
- `Scope.spells_ancestor`: the namespaces above the one at hand, spelled.
-/
import Mathlib.Tactic
import ByteMachine.Assembly.Draft
import ByteMachine.Proofs.Layout.Plan

namespace ByteMachine

open Layout

namespace SymbolTable

def Distinct (table : SymbolTable) : Prop := table.names.toList.Nodup

def Names (table : SymbolTable) (symbol : Symbol) (name : String) : Prop :=
  table.names.toList[symbol.index]? = some name

/-- the table was shown more names -/
def Grows (before after : SymbolTable) : Prop :=
  before.names.toList <+: after.names.toList ∧ (before.Distinct → after.Distinct)

theorem Grows.refl (table : SymbolTable) : table.Grows table := ⟨List.prefix_rfl, id⟩

theorem Grows.trans {a b c : SymbolTable} (hab : a.Grows b) (hbc : b.Grows c) : a.Grows c :=
  ⟨hab.1.trans hbc.1, hbc.2 ∘ hab.2⟩

theorem Names.mono {before after : SymbolTable} {symbol : Symbol} {name : String} (hgrows : before.Grows after)
    (h : before.Names symbol name) : after.Names symbol name := by
  obtain ⟨⟨more, hmore⟩, -⟩ := hgrows
  obtain ⟨hindex, -⟩ := List.getElem?_eq_some_iff.1 h
  rw [Names, ← hmore, List.getElem?_append_left hindex]
  exact h

theorem Names.inj {table : SymbolTable} (hdistinct : table.Distinct) {s t : Symbol} {name : String}
    (hs : table.Names s name) (ht : table.Names t name) : s = t := by
  obtain ⟨hindex, -⟩ := List.getElem?_eq_some_iff.1 hs
  have h : table.names.toList[s.index]? = table.names.toList[t.index]? := by
    rw [Names] at hs ht
    rw [hs, ht]
  cases s
  cases t
  exact congrArg Symbol.mk ((List.getElem?_inj hindex hdistinct).1 h)

theorem Names.unique {table : SymbolTable} {s : Symbol} {a b : String} (ha : table.Names s a) (hb : table.Names s b) :
    a = b := by
  rw [Names] at ha hb
  exact Option.some.inj (ha.symm.trans hb)

theorem Names.nameOf {table : SymbolTable} {symbol : Symbol} {name : String} (h : table.Names symbol name) :
    table.nameOf symbol = name := by
  rw [Names, Array.getElem?_toList] at h
  rw [SymbolTable.nameOf, Array.getD_eq_getD_getElem?, h, Option.getD_some]

theorem intern_grows (table : SymbolTable) (name : String) : table.Grows (table.intern name).2 := by
  unfold intern
  split
  · exact Grows.refl table
  · rename_i hnone
    have hnew : name ∉ table.names.toList := by
      intro hmem
      have := Array.findIdx?_eq_none_iff.1 hnone name (Array.mem_toList_iff.1 hmem)
      simp at this
    refine ⟨⟨[name], by simp⟩, fun hdistinct => ?_⟩
    rw [Distinct, Array.toList_push]
    exact List.nodup_append_comm.1 (List.nodup_cons.2 ⟨hnew, hdistinct⟩)

theorem names_intern (table : SymbolTable) (name : String) : (table.intern name).2.Names (table.intern name).1 name := by
  unfold intern
  split
  · rename_i index hsome
    obtain ⟨hindex, hname, -⟩ := Array.findIdx?_eq_some_iff_getElem.1 hsome
    simp_all [Names]
  · simp [Names]

/-- showing a name that has a symbol gives that symbol and changes nothing -/
theorem intern_of_names {table : SymbolTable} (hdistinct : table.Distinct) {symbol : Symbol} {name : String}
    (h : table.Names symbol name) : table.intern name = (symbol, table) := by
  have hnames := table.names_intern name
  unfold intern at hnames ⊢
  cases hfind : table.names.findIdx? (· = name) with
  | none =>
    have hmem : name ∈ table.names := Array.mem_toList_iff.1 (List.mem_of_getElem? h)
    have hother := Array.findIdx?_eq_none_iff.1 hfind name hmem
    simp at hother
  | some index =>
    rw [hfind] at hnames
    have hindex : table.Names ⟨index⟩ name := hnames
    exact congrArg (·, table) (hindex.inj hdistinct h)

theorem internAll_grows (table : SymbolTable) (names : List String) : table.Grows (table.internAll names).2 := by
  induction names generalizing table with
  | nil => exact Grows.refl table
  | cons name names ih => exact (table.intern_grows name).trans (ih _)

theorem names_internAll (table : SymbolTable) (names : List String) :
    List.Forall₂ (table.internAll names).2.Names (table.internAll names).1 names := by
  induction names generalizing table with
  | nil => exact List.Forall₂.nil
  | cons name names ih =>
    have hname := (table.names_intern name).mono ((table.intern name).2.internAll_grows names)
    exact List.Forall₂.cons hname (ih _)

/-! ## Paths -/

def Spells (table : SymbolTable) (path : Path) (route : Route) : Prop :=
  List.Forall₂ (fun segment leg => table.Names segment.name leg.name ∧ segment.tag = leg.opening) path.segments route

theorem Spells.mono {before after : SymbolTable} {path : Path} {route : Route} (hgrows : before.Grows after)
    (h : before.Spells path route) : after.Spells path route :=
  List.Forall₂.imp (fun _ _ hleg => ⟨hleg.1.mono hgrows, hleg.2⟩) h

theorem Spells.inj {table : SymbolTable} (hdistinct : table.Distinct) {p q : Path} {route : Route}
    (hp : table.Spells p route) (hq : table.Spells q route) : p = q := by
  obtain ⟨ps⟩ := p
  obtain ⟨qs⟩ := q
  congr 1
  refine List.left_unique_forall₂' ?_ hp hq
  intro ⟨name, tag⟩ leg ⟨name', tag'⟩ h h'
  exact congrArg₂ Segment.mk (h.1.inj hdistinct h'.1) (h.2.trans h'.2.symm)

theorem Spells.unique {table : SymbolTable} {path : Path} {r s : Route} (hr : table.Spells path r)
    (hs : table.Spells path s) : r = s := by
  refine List.right_unique_forall₂' ?_ hr hs
  intro segment ⟨name, opening⟩ ⟨name', opening'⟩ h h'
  exact congrArg₂ Leg.mk (h.1.unique h'.1) (h.2.symm.trans h'.2)

theorem biUnique_spells {table : SymbolTable} (hdistinct : table.Distinct) : Relator.BiUnique table.Spells :=
  ⟨fun _ _ _ hp hq => hp.inj hdistinct hq, fun _ _ _ hr hs => hr.unique hs⟩

theorem Spells.render {table : SymbolTable} {path : Path} {route : Route} (h : table.Spells path route) :
    path.render table = Route.text route := by
  obtain ⟨segments⟩ := path
  simp only [Spells] at h
  unfold Path.render Route.text
  congr 1
  induction h with
  | nil => rfl
  | @cons segment leg segments route hleg _ ih =>
    rw [List.map_cons, List.map_cons]
    congr 1
    obtain ⟨name, opening⟩ := leg
    cases opening <;> simp [Path.renderSegment, Leg.text, hleg.2, hleg.1.nameOf]

theorem Spells.join {table : SymbolTable} {path : Path} {route : Route} (h : table.Spells path route)
    {symbols : List Symbol} {names : List String} (hnames : List.Forall₂ table.Names symbols names) :
    table.Spells (path.join symbols) (route ++ plain names) := by
  refine List.rel_append h ?_
  rw [plain, List.forall₂_map_left_iff, List.forall₂_map_right_iff]
  exact List.Forall₂.imp (fun _ _ hname => ⟨hname, rfl⟩) hnames

theorem Spells.root (table : SymbolTable) : table.Spells Path.root [] := List.Forall₂.nil

/-- a path without its tags, if no namespace on the way down is nameless -/
theorem Spells.demangle {table : SymbolTable} {path shown : Path} {route : Route} (h : table.Spells path route)
    {anonymous : Symbol} (hshown : path.demangle? anonymous = some shown) :
    table.Spells shown (plain (route.map (·.name))) := by
  unfold Path.demangle? at hshown
  split at hshown
  · simp at hshown
  · obtain rfl := Option.some.inj hshown
    rw [Spells, plain, List.map_map, List.forall₂_map_left_iff, List.forall₂_map_right_iff]
    exact List.Forall₂.imp (fun _ _ hleg => ⟨hleg.1, rfl⟩) h

end SymbolTable

/-! ## Open namespaces -/

namespace Scope

/-- the scope has the open namespaces of the space -/
structure Follows (symbols : SymbolTable) (scope : Scope) (space : Space) : Prop where
  current : symbols.Spells scope.current space.path
  sizes : scope.sizes = space.frames.map List.length
  nextTag : scope.nextTag = space.openings

variable {symbols : SymbolTable} {scope : Scope} {space : Space}

theorem Follows.mono {before after : SymbolTable} (hgrows : before.Grows after) (h : scope.Follows before space) :
    scope.Follows after space :=
  ⟨h.current.mono hgrows, h.sizes, h.nextTag⟩

theorem Follows.spells_ancestor (h : scope.Follows symbols space) (levels : Nat) :
    symbols.Spells (scope.ancestor levels) (space.above levels) := by
  have hpath : space.path = space.above levels ++ (space.frames.take levels).reverse.flatten := by
    rw [Space.path, Space.above, Space.above, List.drop_zero, ← List.flatten_append, ← List.reverse_append,
      List.take_append_drop]
  have hlength : (scope.sizes.drop levels).foldr (· + ·) 0 = (space.above levels).length := by
    rw [h.sizes, ← List.map_drop, Space.above, List.length_flatten, List.map_reverse, List.sum_reverse]
    rfl
  have hcurrent := h.current
  rw [hpath] at hcurrent
  have htake := List.forall₂_take (space.above levels).length hcurrent
  rw [List.take_left] at htake
  rw [SymbolTable.Spells, ancestor, hlength]
  exact htake

theorem Follows.empty (symbols : SymbolTable) : Scope.empty.Follows symbols Space.initial :=
  ⟨List.Forall₂.nil, rfl, rfl⟩

theorem path_cons (frames : List Route) (frame : Route) (openings : Nat) :
    (Space.mk (frame :: frames) openings).path = (Space.mk frames openings).path ++ frame := by
  simp [Space.path, Space.above]

theorem Follows.push (h : scope.Follows symbols space) {names : List String} {found : List Symbol}
    (hnames : List.Forall₂ symbols.Names found names) :
    (scope.push found).Follows symbols { space with frames := plain names :: space.frames } := by
  refine ⟨?_, ?_, h.nextTag⟩
  · rw [path_cons]
    exact h.current.join hnames
  · simp [Scope.push, h.sizes, plain, hnames.length_eq]

theorem Follows.pushPrivate (h : scope.Follows symbols space) {name : String} {symbol : Symbol}
    (hname : symbols.Names symbol name) : (scope.pushPrivate symbol).Follows symbols (space.enterPrivate name) := by
  refine ⟨?_, ?_, ?_⟩
  · rw [Space.enterPrivate, path_cons]
    exact List.rel_append h.current (List.Forall₂.cons ⟨hname, congrArg some h.nextTag⟩ List.Forall₂.nil)
  · simp [Scope.pushPrivate, Space.enterPrivate, h.sizes]
  · exact congrArg (· + 1) h.nextTag

theorem Follows.pop (h : scope.Follows symbols space) {popped : Scope} (hpop : scope.pop? = some popped) :
    popped.Follows symbols { space with frames := space.frames.tail } := by
  obtain ⟨frames, openings⟩ := space
  unfold pop? at hpop
  split at hpop
  · simp at hpop
  · rename_i size sizes hsizes
    obtain rfl := Option.some.inj hpop
    have hframes := h.sizes
    rw [hsizes] at hframes
    cases frames with
    | nil => simp at hframes
    | cons frame frames =>
      obtain ⟨rfl, rfl⟩ := List.cons.inj hframes
      refine ⟨?_, rfl, h.nextTag⟩
      have hcurrent := h.current
      rw [path_cons] at hcurrent
      have hlength : scope.segments.length - frame.length = (Space.mk frames openings).path.length := by
        have hall : scope.segments.length = _ := hcurrent.length_eq
        rw [hall, List.length_append, Nat.add_sub_cancel]
      have htake := List.forall₂_take (Space.mk frames openings).path.length hcurrent
      rw [List.take_left, ← hlength] at htake
      exact htake

theorem Follows.reset (h : scope.Follows symbols space) {names : List String} {found : List Symbol}
    (hnames : List.Forall₂ symbols.Names found names) :
    (scope.reset found).Follows symbols
      { space with frames := (names.map fun name => plain [name]).reverse } := by
  -- the frames are opened one after the other, each below those before it
  have hpush : ∀ (scope : Scope) (frames : List Route), scope.Follows symbols { space with frames } →
      (found.foldl (fun scope name => scope.push [name]) scope).Follows symbols
        { space with frames := (names.map fun name => plain [name]).reverse ++ frames } := by
    clear h
    induction hnames with
    | nil => exact fun scope frames h => h
    | @cons symbol name found names hname _ ih =>
      intro scope frames h
      rw [List.foldl_cons, List.map_cons, List.reverse_cons, List.append_assoc]
      exact ih _ _ (h.push (List.Forall₂.cons hname List.Forall₂.nil))
  have hclosed := hpush { scope with segments := [], sizes := [] } [] ⟨List.Forall₂.nil, rfl, h.nextTag⟩
  rwa [List.append_nil] at hclosed

end Scope

end ByteMachine
