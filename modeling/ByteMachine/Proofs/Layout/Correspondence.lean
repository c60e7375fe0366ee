/-
The first reading follows the layout. After any number of lines a draft has the space of the next line, the bindings of
the lines so far and a cell for each of their bytes, with paths in the place of qualified names (`Draft.Follows`). Each
operation of the reading keeps this, so a line adds what the layout says it adds (`Follows.add`), and so do all lines
(`Follows.addLines`).
-/
import Mathlib.Tactic
import ByteMachine.Proofs.Drafting
import ByteMachine.Proofs.Layout.Names

namespace ByteMachine

open Layout

inductive Binding.Means (symbols : SymbolTable) : Binding → Meaning → Prop
  | address (value : Word) : Means symbols (.address value) (.address value.toNat)
  | aliasOf {target : Path} {route : Route} : symbols.Spells target route → Means symbols (.aliasOf target) (.sameAs route)

inductive Cell.Means (symbols : SymbolTable) : Cell → Site → Prop
  | byte (value : Byte) : Means symbols (.byte value) (.byte value)
  | half {target : Path} {route : Route} {half : Half} {line column : Nat} :
      symbols.Spells target route → Means symbols (.half target half line column) (.half route half)

def LabelTable.Entry.Means (symbols : SymbolTable) (entry : LabelTable.Entry) (binding : Route × Meaning) : Prop :=
  symbols.Spells entry.name binding.1 ∧ entry.binding.Means symbols binding.2

section Growth

variable {before after : SymbolTable} (hgrows : before.Grows after)

include hgrows

theorem Binding.Means.mono {binding : Binding} {meaning : Meaning} (h : binding.Means before meaning) :
    binding.Means after meaning := by
  cases h with
  | address value => exact .address value
  | aliasOf htarget => exact .aliasOf (htarget.mono hgrows)

theorem Cell.Means.mono {cell : Cell} {site : Site} (h : cell.Means before site) : cell.Means after site := by
  cases h with
  | byte value => exact .byte value
  | half htarget => exact .half (htarget.mono hgrows)

theorem LabelTable.Entry.Means.mono {entry : LabelTable.Entry} {binding : Route × Meaning}
    (h : entry.Means before binding) : entry.Means after binding :=
  ⟨h.1.mono hgrows, h.2.mono hgrows⟩

end Growth

namespace LabelTable

def Once (table : LabelTable) : Prop := (table.entries.toList.map (·.name)).Nodup

theorem find?_eq_some_of_mem {table : LabelTable} (honce : table.Once) {entry : Entry}
    (h : entry ∈ table.entries.toList) : table.find? entry.name = some entry := by
  rw [find?, ← Array.find?_toList]
  cases hfound : table.entries.toList.find? (·.name = entry.name) with
  | none =>
    have := List.find?_eq_none.1 hfound entry h
    simp at this
  | some found =>
    have hname : found.name = entry.name := by simpa using List.find?_some hfound
    rw [List.inj_on_of_nodup_map honce (List.mem_of_find?_eq_some hfound) h hname]

theorem mem_of_find?_eq_some {table : LabelTable} {name : Path} {entry : Entry} (h : table.find? name = some entry) :
    entry ∈ table.entries.toList ∧ entry.name = name := by
  rw [find?, ← Array.find?_toList] at h
  exact ⟨List.mem_of_find?_eq_some h, by simpa using List.find?_some h⟩

theorem entries_of_define? {table next : LabelTable} {name : Path} {binding : Binding} {line : Nat}
    (h : table.define? name binding line = some next) :
    next.entries.toList = table.entries.toList ++ [⟨name, binding, line⟩] ∧ (table.Once → next.Once) := by
  unfold define? at h
  split at h
  · simp at h
  · rename_i hfresh
    obtain rfl := Option.some.inj h
    refine ⟨Array.toList_push, fun honce => ?_⟩
    have hnone : ∀ entry ∈ table.entries.toList, entry.name ≠ name := by
      intro entry hentry heq
      rw [← heq, find?_eq_some_of_mem honce hentry] at hfresh
      simp at hfresh
    rw [Once, Array.toList_push, List.map_append]
    refine List.Nodup.append honce (List.nodup_singleton _) ?_
    simpa [List.disjoint_singleton] using hnone

end LabelTable

namespace Draft

/-- the draft after lines that bind the table and emit the sites, with the space of the next line -/
structure Follows (draft : Draft) (mount : Word) (space : Space) (table : List (Route × Meaning)) (sites : List Site) :
    Prop where
  mount : draft.mount = mount
  distinct : draft.symbols.Distinct
  scope : draft.scope.Follows draft.symbols space
  bound : List.Forall₂ (LabelTable.Entry.Means draft.symbols) draft.labels.entries.toList table
  once : draft.labels.Once
  laid : List.Forall₂ (Cell.Means draft.symbols) draft.cells.toList sites

variable {draft next : Draft} {mount : Word} {space : Space} {table : List (Route × Meaning)} {sites : List Site}

theorem Follows.address_eq (h : draft.Follows mount space table sites) :
    draft.address = mount.toNat + sites.length := by
  rw [address, h.mount, ← h.laid.length_eq, Array.length_toList]

/-! ## Names -/

/-- more names have symbols, and nothing else has changed -/
structure Learns (draft next : Draft) : Prop where
  grows : draft.symbols.Grows next.symbols
  rest : next = { draft with symbols := next.symbols }

theorem Follows.learns (h : draft.Follows mount space table sites) (hlearns : draft.Learns next) :
    next.Follows mount space table sites := by
  rw [hlearns.rest]
  exact {
    mount := h.mount
    distinct := hlearns.grows.2 h.distinct
    scope := h.scope.mono hlearns.grows
    bound := h.bound.imp fun _ _ hentry => hentry.mono hlearns.grows
    once := h.once
    laid := h.laid.imp fun _ _ hcell => hcell.mono hlearns.grows }

theorem intern_spec (draft : Draft) (name : String) :
    draft.Learns (draft.intern name).2 ∧ (draft.intern name).2.symbols.Names (draft.intern name).1 name :=
  ⟨⟨draft.symbols.intern_grows name, rfl⟩, draft.symbols.names_intern name⟩

theorem internAll_spec (draft : Draft) (names : List String) :
    draft.Learns (draft.internAll names).2 ∧
      List.Forall₂ (draft.internAll names).2.symbols.Names (draft.internAll names).1 names :=
  ⟨⟨draft.symbols.internAll_grows names, rfl⟩, draft.symbols.names_internAll names⟩

theorem Follows.spells_qualify (h : draft.Follows mount space table sites) (name : Name) (levels : Nat) :
    draft.Learns (draft.qualify name levels).2 ∧
      (draft.qualify name levels).2.symbols.Spells (draft.qualify name levels).1 (space.qualify name levels) := by
  obtain ⟨hlearns, hsymbols⟩ := draft.internAll_spec name.parts
  have hlearned := h.learns hlearns
  refine ⟨hlearns, ?_⟩
  simp only [qualify, base, Space.qualify]
  cases name.origin with
  | root => exact (SymbolTable.Spells.root _).join hsymbols
  | above climbed => exact (hlearned.scope.spells_ancestor _).join hsymbols

/-! ## Bindings -/

theorem Follows.bind (h : draft.Follows mount space table sites) {line : Nat} {name : Path} {binding : Binding}
    {route : Route} {meaning : Meaning} (hname : draft.symbols.Spells name route)
    (hbinding : binding.Means draft.symbols meaning) (hb : draft.bind line name binding = .ok next) :
    next.Follows mount space (table ++ [(route, meaning)]) sites ∧ next.symbols = draft.symbols := by
  obtain ⟨labels, hdefine, rfl⟩ := bind_eq_ok_iff.1 hb
  obtain ⟨hentries, honce⟩ := LabelTable.entries_of_define? hdefine
  refine ⟨{ h with bound := ?_, once := honce h.once }, rfl⟩
  rw [hentries]
  exact List.rel_append h.bound (List.Forall₂.cons ⟨hname, hbinding⟩ List.Forall₂.nil)

/-- a second name for a name that is spelled out already -/
theorem Follows.bindAlias (h : draft.Follows mount space table sites) {line : Nat} {target owner : Path}
    {targetRoute ownerRoute : Route} {names : List String} (htarget : draft.symbols.Spells target targetRoute)
    (howner : draft.symbols.Spells owner ownerRoute)
    (hb : (draft.internAll names).2.bind line (owner.join (draft.internAll names).1) (.aliasOf target) = .ok next) :
    next.Follows mount space (table ++ [(ownerRoute ++ plain names, .sameAs targetRoute)]) sites ∧
      draft.symbols.Grows next.symbols := by
  obtain ⟨hlearns, hsymbols⟩ := draft.internAll_spec names
  obtain ⟨hnext, heq⟩ := (h.learns hlearns).bind ((howner.mono hlearns.grows).join hsymbols)
    (.aliasOf (htarget.mono hlearns.grows)) hb
  exact ⟨hnext, heq ▸ hlearns.grows⟩

theorem Follows.expose (h : draft.Follows mount space table sites) {line : Nat} {declared : Path} {name : String}
    {newName : Option Name} (hdeclared : draft.symbols.Spells declared (space.path ++ plain [name]))
    (he : draft.expose line declared name newName = .ok next) :
    next.Follows mount space (table ++ space.publicBindings name (.exposed newName)) sites ∧
      draft.symbols.Grows next.symbols := by
  obtain ⟨shown, hshown, he⟩ := expose_eq_ok_iff.1 he
  obtain ⟨hlearns, hsymbols⟩ := draft.internAll_spec (publicParts name newName)
  have hlearned := h.learns hlearns
  have hpublic := h.scope.current.demangle hshown
  have htarget := (hpublic.mono hlearns.grows).join hsymbols
  have hdeclared' := hdeclared.mono hlearns.grows
  have hbindings : space.publicBindings name (.exposed newName) =
      if plain (space.path.map (·.name)) ++ plain (publicParts name newName) = space.path ++ plain [name] then []
      else [(plain (space.path.map (·.name)) ++ plain (publicParts name newName),
        .sameAs (space.path ++ plain [name]))] := rfl
  rw [hbindings]
  -- the paths are the same exactly if they spell the same
  rcases he with ⟨hsame, rfl⟩ | ⟨hother, hbind⟩
  · rw [hsame] at htarget
    rw [if_pos (htarget.unique hdeclared'), List.append_nil]
    exact ⟨hlearned, hlearns.grows⟩
  · have hroutes : plain (space.path.map (·.name)) ++ plain (publicParts name newName) ≠ space.path ++ plain [name] := by
      intro heq
      rw [heq] at htarget
      exact hother (htarget.inj hlearned.distinct hdeclared')
    rw [if_neg hroutes]
    exact h.bindAlias hdeclared hpublic hbind

theorem Follows.declare (h : draft.Follows mount space table sites) {line : Nat} {name : String}
    {visibility : Visibility} {symbol : Symbol} (hd : draft.declare line name visibility = .ok (symbol, next)) :
    next.Follows mount space
        (table ++ (space.path ++ plain [name], .address draft.address) :: space.publicBindings name visibility) sites ∧
      next.symbols.Names symbol name := by
  obtain ⟨rfl, value, bound, hhere, hbind, hd⟩ := declare_eq_ok_iff.1 hd
  obtain ⟨hlearns, hsymbol⟩ := draft.intern_spec name
  have hlearned := h.learns hlearns
  have hdeclared := hlearned.scope.current.join (List.Forall₂.cons hsymbol List.Forall₂.nil)
  have haddress : value.toNat = draft.address := by
    obtain ⟨hlt, rfl⟩ := here_eq_ok_iff.1 hhere
    exact Nat.mod_eq_of_lt hlt
  obtain ⟨hbound, hsymbols⟩ := hlearned.bind hdeclared (.address value) hbind
  rw [haddress] at hbound
  rw [← hsymbols] at hdeclared hsymbol
  cases visibility with
  | concealed =>
    obtain rfl := hd
    exact ⟨hbound, hsymbol⟩
  | exposed newName =>
    obtain ⟨hnext, hgrows⟩ := hbound.expose hdeclared hd
    rw [List.append_assoc] at hnext
    exact ⟨hnext, hsymbol.mono hgrows⟩

/-! ## Bytes -/

theorem Follows.push (h : draft.Follows mount space table sites) {cell : Cell} {site : Site}
    (hcell : cell.Means draft.symbols site) : (draft.push cell).Follows mount space table (sites ++ [site]) := by
  refine { h with laid := ?_ }
  simp only [Draft.push, Array.toList_push]
  exact List.rel_append h.laid (List.Forall₂.cons hcell List.Forall₂.nil)

theorem Follows.emit (h : draft.Follows mount space table sites) (line : Nat) (argument : Argument) :
    (draft.emit line argument).Follows mount space table (sites ++ [space.site argument.operand]) := by
  obtain ⟨operand, token⟩ := argument
  cases operand with
  | literal value => exact h.push (.byte value)
  | register r => exact h.push (.byte r.index)
  | address name half =>
    obtain ⟨hlearns, htarget⟩ := h.spells_qualify name 0
    exact (h.learns hlearns).push (.half htarget)

theorem Follows.emits (h : draft.Follows mount space table sites) (line : Nat) (arguments : List Argument) :
    (arguments.foldl (Draft.emit line) draft).Follows mount space table
      (sites ++ arguments.map fun argument => space.site argument.operand) := by
  induction arguments generalizing draft sites with
  | nil => simpa using h
  | cons argument arguments ih =>
    have hrest := ih (h.emit line argument)
    rwa [List.append_assoc] at hrest

/-! ## Lines -/

theorem Follows.changeScope (h : draft.Follows mount space table sites) {change : ScopeChange}
    (hc : draft.changeScope change = .ok next) : next.Follows mount (space.after (.scope change)) table sites := by
  cases change with
  | enter name =>
    obtain ⟨hlearns, hsymbols⟩ := draft.internAll_spec name.parts
    obtain rfl := Except.ok.inj hc
    exact { h.learns hlearns with scope := (h.learns hlearns).scope.push hsymbols }
  | enterPrivate name =>
    obtain ⟨hlearns, hsymbol⟩ := draft.intern_spec (name.getD anonymousName)
    obtain rfl := Except.ok.inj hc
    exact { h.learns hlearns with scope := (h.learns hlearns).scope.pushPrivate hsymbol }
  | leave =>
    obtain ⟨scope, hpop, rfl⟩ := changeScope_leave_eq_ok_iff.1 hc
    exact { h with scope := h.scope.pop hpop }
  | reset path =>
    obtain ⟨hlearns, hsymbols⟩ := draft.internAll_spec path.parts
    obtain rfl := Except.ok.inj hc
    exact { h.learns hlearns with scope := (h.learns hlearns).scope.reset hsymbols }

/-- **A line adds what the layout says.** -/
theorem Follows.add (h : draft.Follows mount space table sites) {line : Nat} {statement : Statement}
    (ha : draft.add line statement = .ok next) :
    next.Follows mount (space.after statement) (table ++ space.bindings draft.address statement)
      (sites ++ space.sites statement) := by
  cases statement with
  | blank =>
    obtain rfl := Except.ok.inj ha
    simpa [Space.after, Space.bindings, Space.sites] using h
  | label name visibility =>
    obtain ⟨symbol, hdeclare⟩ := add_label_eq_ok_iff.1 ha
    simpa [Space.after, Space.bindings, Space.sites] using (h.declare hdeclare).1
  | subroutine name visibility =>
    obtain ⟨symbol, declared, hdeclare, rfl⟩ := add_subroutine_eq_ok_iff.1 ha
    obtain ⟨hdeclared, hsymbol⟩ := h.declare hdeclare
    simp only [Space.sites, List.append_nil]
    exact { hdeclared with scope := hdeclared.scope.pushPrivate hsymbol }
  | scope change =>
    simp only [Space.bindings, Space.sites, List.append_nil]
    exact h.changeScope ha
  | exportName name newName =>
    obtain ⟨-, hbind⟩ := add_exportName_eq_ok_iff.1 ha
    obtain ⟨hlearns, hsymbols⟩ := draft.internAll_spec name.parts
    have hlearned := h.learns hlearns
    simp only [Space.sites, List.append_nil]
    exact (hlearned.bindAlias (hlearned.scope.current.join hsymbols) (hlearned.scope.spells_ancestor 1) hbind).1
  | useName name newName =>
    obtain ⟨hlearns, htarget⟩ := h.spells_qualify name 1
    have hlearned := h.learns hlearns
    simp only [Space.sites, List.append_nil]
    exact (hlearned.bindAlias htarget hlearned.scope.current ha).1
  | data arguments =>
    obtain ⟨-, rfl⟩ := checkSize_eq_ok_iff.1 ha
    simp only [Space.bindings, List.append_nil]
    exact h.emits line arguments
  | instruction op arguments =>
    obtain ⟨-, rfl⟩ := checkSize_eq_ok_iff.1 ha
    have hcode := (h.push (.byte op.code)).emits line arguments
    rw [List.append_assoc] at hcode
    simp only [Space.bindings, List.append_nil]
    exact hcode

/-- the space after several statements -/
theorem Follows.addLines (h : draft.Follows mount space table sites) {number : Nat} {texts : List String}
    (ha : draft.addLines number texts = .ok next) :
    ∃ statements, List.Forall₂ (fun text statement => Statement.parse text = .ok statement) texts statements ∧
      next.Follows mount (statements.foldl Space.after space)
        (table ++ tableOf (lay space draft.address statements))
        (sites ++ (lay space draft.address statements).flatMap Line.sites) := by
  induction texts generalizing draft number space table sites with
  | nil =>
    obtain rfl := Except.ok.inj ha
    exact ⟨[], .nil, by simpa [lay, tableOf] using h⟩
  | cons text texts ih =>
    obtain ⟨added, hadded, ha⟩ := addLines_cons_eq_ok_iff.1 ha
    obtain ⟨statement, hparse, hadd⟩ := addLine_eq_ok_iff.1 hadded
    have hfollows := h.add hadd
    obtain ⟨statements, hparses, hnext⟩ := ih hfollows ha
    refine ⟨statement :: statements, .cons hparse hparses, ?_⟩
    have haddress : added.address = draft.address + (space.sites statement).length := by
      rw [hfollows.address_eq, h.address_eq, List.length_append, Nat.add_assoc]
    rw [haddress, List.append_assoc, List.append_assoc] at hnext
    exact hnext

theorem start_follows (mount : Word) : (start mount).Follows mount Space.initial [] [] where
  mount := rfl
  distinct := (SymbolTable.empty.intern_grows anonymousName).2 List.nodup_nil
  scope := Scope.Follows.empty _
  bound := List.Forall₂.nil
  once := List.nodup_nil
  laid := List.Forall₂.nil

end Draft

end ByteMachine
