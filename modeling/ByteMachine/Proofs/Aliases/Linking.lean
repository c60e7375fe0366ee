/-
Which error the second reading ends with. It first goes through the bindings and then through the bytes, so an alias that
leads nowhere is reported before any operand, and the first one in order is. When all aliases lead to addresses, a bound
name does too, and an operand can only fail because its own name is not bound.

- `Layout.Fails`: why a qualified name leads to no address, said of the bindings of the layout.
- `LabelTable.fails_of_resolve`: a name that does not resolve fails for that reason.
- `assemble_reports_first_unresolved`: which line, which column and which name an error carries.
-/
import Mathlib.Tactic
import ByteMachine.Assembly.Image
import ByteMachine.Proofs.Aliases.Resolution
import ByteMachine.Proofs.InStep
import ByteMachine.Proofs.Layout.Places
import ByteMachine.Proofs.Layout.Image

namespace ByteMachine

open Layout

namespace Layout

/-! ## Names that lead nowhere -/

variable {table : List (Route × Meaning)} {route last : Route} {value : Nat}

/-- the name that a name is an alias of -/
def target? (table : List (Route × Meaning)) (route : Route) : Option Route :=
  match table.lookup route with
  | some (.sameAs target) => some target
  | _ => none

/-- why a name leads to no address: the end of its aliases is not bound, or they have no end and come back to a name -/
inductive Fails (table : List (Route × Meaning)) (route : Route) : AssemblyError.Cause → Prop
  | missing {last : Route} :
      Chain.Reaches (target? table) route last → (∀ meaning, (last, meaning) ∉ table) →
        Fails table route (.undefinedLabel (Route.text last))
  | cycle {again : Route} :
      Chain.FirstTwice (target? table) route again → Fails table route (.aliasCycle (Route.text again))

/-- the binding leads to an address, if it is an alias -/
def Made.Leads (made : Made) (table : List (Route × Meaning)) : Prop :=
  ∀ target, made.meaning = .sameAs target → ∃ value, Layout.Leads table made.route value

/-- the name of the byte is bound, if it is a byte of an address -/
def Emitted.Bound (emitted : Emitted) (table : List (Route × Meaning)) : Prop :=
  ∀ route half, emitted.site = .half route half → ∃ meaning, (route, meaning) ∈ table

theorem lookup_eq_none_iff : table.lookup route = none ↔ ∀ meaning, (route, meaning) ∉ table := by
  rw [List.lookup_eq_none_iff]
  constructor
  · intro h meaning hmem
    simpa using h _ hmem
  · rintro h ⟨route', meaning⟩ hmem
    rw [bne_iff_ne]
    rintro rfl
    exact h meaning hmem

theorem lookup_of_mem (hnodup : (table.map (·.1)).Nodup) {meaning : Meaning} (h : (route, meaning) ∈ table) :
    table.lookup route = some meaning := by
  cases hlookup : table.lookup route with
  | none => exact absurd h (lookup_eq_none_iff.1 hlookup meaning)
  | some meaning' =>
    obtain ⟨before, after, hsplit, -⟩ := List.lookup_eq_some_iff.1 hlookup
    have hmem : (route, meaning') ∈ table := by
      rw [hsplit]
      exact List.mem_append_right _ List.mem_cons_self
    obtain ⟨-, rfl⟩ := Prod.mk.inj (List.inj_on_of_nodup_map hnodup hmem h rfl)
    rfl

/-- a name that leads to an address does so at the end of its aliases -/
theorem Leads.exists_end (hnodup : (table.map (·.1)).Nodup) (h : Leads table route value) :
    ∃ last, Chain.Reaches (target? table) route last ∧ table.lookup last = some (.address value) := by
  induction h with
  | address hroute => exact ⟨_, ⟨0, rfl⟩, lookup_of_mem hnodup hroute⟩
  | sameAs hroute _ ih =>
    obtain ⟨last, hreach, hlast⟩ := ih
    have htarget := lookup_of_mem hnodup hroute
    refine ⟨last, hreach.cons ?_, hlast⟩
    rw [target?, htarget]

theorem not_leads_of_fails (hnodup : (table.map (·.1)).Nodup) {cause : AssemblyError.Cause}
    (h : Fails table route cause) : ¬ Leads table route value := by
  intro hleads
  obtain ⟨last, hreach, hlast⟩ := hleads.exists_end hnodup
  have hend : target? table last = none := by rw [target?, hlast]
  cases h with
  | @missing last' hreach' hunbound =>
    have hunbound := lookup_eq_none_iff.2 hunbound
    have hend' : target? table last' = none := by rw [target?, hunbound]
    obtain rfl := Chain.end_unique hreach hreach' hend hend'
    rw [hunbound] at hlast
    cases hlast
  | cycle hfirst => exact Chain.not_endless_of_end hreach hend (Chain.endless_of_firstTwice hfirst)

end Layout

/-! ## The label table and the bindings of the layout -/

namespace LabelTable

variable {symbols : SymbolTable} {labels : LabelTable} {table : List (Route × Meaning)} {name : Path} {route : Route}

theorem rel_binding? (hdistinct : symbols.Distinct)
    (hbound : List.Forall₂ (Entry.Means symbols) labels.entries.toList table) (hname : symbols.Spells name route) :
    Option.Rel (Binding.Means symbols) (labels.binding? name) (table.lookup route) := by
  rw [binding?, find?, ← Array.find?_toList]
  generalize labels.entries.toList = entries at hbound
  induction hbound with
  | nil => exact .none
  | @cons entry binding entries table hentry _ ih =>
    obtain ⟨route', meaning⟩ := binding
    rw [List.find?_cons, List.lookup_cons]
    by_cases hsame : entry.name = name
    · have hroute : route = route' := hname.unique (hsame ▸ hentry.1)
      rw [decide_eq_true hsame, beq_iff_eq.2 hroute]
      exact .some hentry.2
    · have hroute : route ≠ route' := by
        rintro rfl
        exact hsame (hentry.1.inj hdistinct hname)
      rw [decide_eq_false hsame, beq_eq_false_iff_ne.2 hroute]
      exact ih

theorem rel_target? (hdistinct : symbols.Distinct)
    (hbound : List.Forall₂ (Entry.Means symbols) labels.entries.toList table) (name : Path) (route : Route)
    (hname : symbols.Spells name route) :
    Option.Rel symbols.Spells (labels.target? name) (Layout.target? table route) := by
  have hbinding := rel_binding? hdistinct hbound hname
  rw [LabelTable.target?, Layout.target?]
  generalize labels.binding? name = x at hbinding
  generalize table.lookup route = y at hbinding
  cases hbinding with
  | none => exact .none
  | some hmeans =>
    cases hmeans with
    | address value => exact .none
    | aliasOf htarget => exact .some htarget

theorem binding?_eq_none_iff (hdistinct : symbols.Distinct)
    (hbound : List.Forall₂ (Entry.Means symbols) labels.entries.toList table) (hname : symbols.Spells name route) :
    labels.binding? name = none ↔ ∀ meaning, (route, meaning) ∉ table := by
  have hbinding := rel_binding? hdistinct hbound hname
  rw [← lookup_eq_none_iff]
  generalize labels.binding? name = x at hbinding
  generalize table.lookup route = y at hbinding
  cases hbinding with
  | none => exact iff_of_true rfl rfl
  | some => exact iff_of_false nofun nofun

theorem resolve_of_unbound (h : labels.binding? name = none) : labels.resolve name = .error (.missing name) :=
  resolve_eq_iff.2 ⟨⟨0, rfl⟩, h⟩

/-- **A name that does not resolve fails among the bindings of the layout.** -/
theorem fails_of_resolve {draft : Draft} (hdistinct : draft.symbols.Distinct)
    (hbound : List.Forall₂ (Entry.Means draft.symbols) draft.labels.entries.toList table)
    (hname : draft.symbols.Spells name route) {reason : Unresolved} (h : draft.labels.resolve name = .error reason) :
    ∃ cause, Fails table route cause ∧ ∀ texts line column, draft.unresolved texts line column reason =
      ⟨line, column, texts.getD (line - 1) "", cause⟩ := by
  have hnext := rel_target? hdistinct hbound
  cases reason with
  | missing last =>
    obtain ⟨hreach, hunbound⟩ := resolve_eq_iff.1 h
    obtain ⟨last', hspells, hreach'⟩ := hreach.rel hnext hname
    refine ⟨_, .missing hreach' ((binding?_eq_none_iff hdistinct hbound hspells).1 hunbound), ?_⟩
    intro texts line column
    rw [Draft.unresolved, Draft.render, hspells.render]
  | cycle again =>
    obtain ⟨-, hfirst⟩ := resolve_eq_iff.1 h
    obtain ⟨again', hspells, hfirst'⟩ := hfirst.rel (SymbolTable.biUnique_spells hdistinct) hnext hname
    refine ⟨_, .cycle hfirst', ?_⟩
    intro texts line column
    rw [Draft.unresolved, Draft.render, hspells.render]

end LabelTable

/-! ## The second reading -/

namespace Draft.Placed

variable {draft : Draft} {lines : List Line}

theorem bound_table (h : draft.Placed lines) :
    List.Forall₂ (LabelTable.Entry.Means draft.symbols) draft.labels.entries.toList (tableOf lines) := by
  rw [← map_binding_madeFrom 1, List.forall₂_map_right_iff]
  exact h.bound.imp fun _ _ hmade => hmade.1

theorem nodup (h : draft.Placed lines) : ((tableOf lines).map (·.1)).Nodup :=
  LabelTable.nodup_of_once h.distinct h.once h.bound_table

theorem exists_resolve_iff (h : draft.Placed lines) {name : Path} {route : Route}
    (hname : draft.symbols.Spells name route) :
    (∃ address, draft.labels.resolve name = .ok address) ↔ ∃ value, Leads (tableOf lines) route value := by
  constructor
  · rintro ⟨address, haddress⟩
    exact ⟨_, LabelTable.leads_of_resolve h.bound_table hname haddress⟩
  · rintro ⟨value, hleads⟩
    cases hresolve : draft.labels.resolve name with
    | ok address => exact ⟨address, rfl⟩
    | error reason =>
      obtain ⟨cause, hfails, -⟩ := LabelTable.fails_of_resolve h.distinct h.bound_table hname hresolve
      exact absurd hleads (not_leads_of_fails h.nodup hfails)

/-! ### Bindings -/

section Entries

variable {entry : LabelTable.Entry} {made : Made} (texts : List String)

theorem checkEntry_eq_ok_iff (h : draft.Placed lines) (hentry : entry.Means draft.symbols (made.route, made.meaning)) :
    draft.checkEntry texts entry = .ok () ↔ made.Leads (tableOf lines) := by
  obtain ⟨route, meaning, number⟩ := made
  obtain ⟨name, binding, line⟩ := entry
  obtain ⟨hname, hmeans⟩ := hentry
  have hresolve := h.exists_resolve_iff hname
  cases hmeans with
  | address value => exact iff_of_true rfl nofun
  | @aliasOf target route' htarget =>
    have hleads : Made.Leads ⟨route, .sameAs route', number⟩ (tableOf lines) ↔
        ∃ value, Leads (tableOf lines) route value :=
      ⟨fun h => h route' rfl, fun h _ _ => h⟩
    rw [hleads, ← hresolve]
    simp only [checkEntry]
    cases draft.labels.resolve name <;> simp

theorem checkEntry_eq_error (h : draft.Placed lines) (hentry : entry.Means draft.symbols (made.route, made.meaning))
    (hline : entry.line = made.number) (hnowhere : ¬ made.Leads (tableOf lines)) :
    ∃ cause, Fails (tableOf lines) made.route cause ∧
      draft.checkEntry texts entry = .error ⟨made.number, 0, texts.getD (made.number - 1) "", cause⟩ := by
  rw [← h.checkEntry_eq_ok_iff texts hentry] at hnowhere
  obtain ⟨route, meaning, number⟩ := made
  obtain ⟨name, binding, line⟩ := entry
  obtain ⟨hname, hmeans⟩ := hentry
  obtain rfl : line = number := hline
  cases hmeans with
  | address value => exact absurd rfl hnowhere
  | aliasOf htarget =>
    simp only [checkEntry] at hnowhere ⊢
    cases hresolve : draft.labels.resolve name with
    | ok address => simp [hresolve] at hnowhere
    | error reason =>
      obtain ⟨cause, hfails, hcause⟩ := LabelTable.fails_of_resolve h.distinct h.bound_table hname hresolve
      exact ⟨cause, hfails, congrArg Except.error (hcause texts line 0)⟩

theorem forM_checkEntry_eq_ok_iff (h : draft.Placed lines) :
    draft.labels.entries.toList.forM (draft.checkEntry texts) = .ok () ↔
      ∀ made ∈ madeFrom 1 lines, made.Leads (tableOf lines) := by
  rw [Attempt.forM_eq_ok_iff]
  constructor
  · intro hall made hmade
    obtain ⟨entry, hentry, hmeans, -⟩ := InStep.exists_left h.bound hmade
    exact (h.checkEntry_eq_ok_iff texts hmeans).1 (hall entry hentry)
  · intro hall entry hentry
    obtain ⟨made, hmade, hmeans, -⟩ := InStep.exists_right h.bound hentry
    exact (h.checkEntry_eq_ok_iff texts hmeans).2 (hall made hmade)

/-- the check of the bindings ends at the first alias that leads nowhere -/
theorem forM_checkEntry_eq_error (h : draft.Placed lines) {before after : List Made}
    (hsplit : madeFrom 1 lines = before ++ made :: after) (hbefore : ∀ earlier ∈ before, earlier.Leads (tableOf lines))
    (hnowhere : ¬ made.Leads (tableOf lines)) :
    ∃ cause, Fails (tableOf lines) made.route cause ∧ draft.labels.entries.toList.forM (draft.checkEntry texts) =
      .error ⟨made.number, 0, texts.getD (made.number - 1) "", cause⟩ := by
  have hbound := h.bound
  rw [hsplit] at hbound
  obtain ⟨entries, entry, rest, hentries, hfirst, ⟨hmeans, hline⟩⟩ := InStep.exists_split hbound
  obtain ⟨cause, hfails, herror⟩ := h.checkEntry_eq_error texts hmeans hline hnowhere
  refine ⟨cause, hfails, Attempt.forM_eq_error_iff.2 ⟨entries, entry, rest, hentries, ?_, herror⟩⟩
  intro earlier hearlier
  obtain ⟨made', hmade', hmeans', -⟩ := InStep.exists_right hfirst hearlier
  exact (h.checkEntry_eq_ok_iff texts hmeans').2 (hbefore made' hmade')

end Entries

/-! ### Bytes -/

section Cells

variable {cell : Cell} {emitted : Emitted} (texts : List String)

theorem resolveCell_eq_error (h : draft.Placed lines) (hmeans : cell.Means draft.symbols emitted.site)
    (hstands : cell.StandsAt emitted) {route : Route} {half : Half} (hsite : emitted.site = .half route half)
    (hunbound : ∀ meaning, (route, meaning) ∉ tableOf lines) :
    draft.resolveCell texts cell =
      .error ⟨emitted.number, emitted.column, texts.getD (emitted.number - 1) "", .undefinedLabel (Route.text route)⟩ := by
  rw [hsite] at hmeans
  cases hmeans with
  | half htarget =>
    cases hstands with
    | half =>
      have hnone := (LabelTable.binding?_eq_none_iff h.distinct h.bound_table htarget).2 hunbound
      simp only [resolveCell, LabelTable.resolve_of_unbound hnone]
      rw [Draft.unresolved, Draft.render, htarget.render]

variable (hlead : ∀ made ∈ madeFrom 1 lines, made.Leads (tableOf lines))

include hlead

/-- where all aliases lead to addresses, every bound name does -/
theorem leads_of_mem {route : Route} {meaning : Meaning} (h : (route, meaning) ∈ tableOf lines) :
    ∃ value, Leads (tableOf lines) route value := by
  cases meaning with
  | address value => exact ⟨value, .address h⟩
  | sameAs target =>
    have hmade := h
    rw [← map_binding_madeFrom 1] at hmade
    obtain ⟨made, hmem, heq⟩ := List.mem_map.1 hmade
    obtain ⟨rfl, hmeaning⟩ := Prod.mk.inj heq
    exact hlead made hmem target hmeaning

theorem exists_resolveCell_iff (h : draft.Placed lines) (hmeans : cell.Means draft.symbols emitted.site) :
    (∃ value, draft.resolveCell texts cell = .ok value) ↔ emitted.Bound (tableOf lines) := by
  obtain ⟨site, number, column⟩ := emitted
  cases hmeans with
  | byte value => exact iff_of_true ⟨value, rfl⟩ nofun
  | @half target route half line column' htarget =>
    have hbound : Emitted.Bound ⟨.half route half, number, column⟩ (tableOf lines) ↔
        ∃ meaning, (route, meaning) ∈ tableOf lines := by
      constructor
      · intro h
        exact h route half rfl
      · rintro h route' half' heq
        obtain ⟨rfl, -⟩ := Site.half.inj heq
        exact h
    have hleads : (∃ meaning, (route, meaning) ∈ tableOf lines) ↔ ∃ value, Leads (tableOf lines) route value := by
      constructor
      · rintro ⟨meaning, hmem⟩
        exact leads_of_mem hlead hmem
      · rintro ⟨value, hleads⟩
        cases hleads with
        | address hmem => exact ⟨_, hmem⟩
        | sameAs hmem _ => exact ⟨_, hmem⟩
    rw [hbound, hleads, ← h.exists_resolve_iff htarget]
    simp only [resolveCell]
    cases draft.labels.resolve target <;> simp

theorem exists_mapM_resolveCell_iff (h : draft.Placed lines) :
    (∃ bytes, draft.cells.toList.mapM (draft.resolveCell texts) = .ok bytes) ↔
      ∀ emitted ∈ emittedFrom 1 lines, emitted.Bound (tableOf lines) := by
  rw [Attempt.exists_mapM_eq_ok_iff]
  constructor
  · intro hall emitted hemitted
    obtain ⟨cell, hcell, hmeans, -⟩ := InStep.exists_left h.laid hemitted
    exact (h.exists_resolveCell_iff texts hlead hmeans).1 (hall cell hcell)
  · intro hall cell hcell
    obtain ⟨emitted, hemitted, hmeans, -⟩ := InStep.exists_right h.laid hcell
    exact (h.exists_resolveCell_iff texts hlead hmeans).2 (hall emitted hemitted)

/-- where all aliases lead to addresses, the bytes end at the first name that is not bound -/
theorem mapM_resolveCell_eq_error (h : draft.Placed lines) {before after : List Emitted}
    (hsplit : emittedFrom 1 lines = before ++ emitted :: after)
    (hbefore : ∀ earlier ∈ before, earlier.Bound (tableOf lines)) {route : Route} {half : Half}
    (hsite : emitted.site = .half route half) (hunbound : ∀ meaning, (route, meaning) ∉ tableOf lines) :
    draft.cells.toList.mapM (draft.resolveCell texts) =
      .error ⟨emitted.number, emitted.column, texts.getD (emitted.number - 1) "", .undefinedLabel (Route.text route)⟩ := by
  have hlaid := h.laid
  rw [hsplit] at hlaid
  obtain ⟨cells, cell, rest, hcells, hfirst, ⟨hmeans, hstands⟩⟩ := InStep.exists_split hlaid
  have herror := h.resolveCell_eq_error texts hmeans hstands hsite hunbound
  refine Attempt.mapM_eq_error_iff.2 ⟨cells, cell, rest, hcells, ?_, herror⟩
  intro earlier hearlier
  obtain ⟨emitted', hemitted', hmeans', -⟩ := InStep.exists_right hfirst hearlier
  exact (h.exists_resolveCell_iff texts hlead hmeans').2 (hbefore emitted' hemitted')

/-- where all aliases lead to addresses, the bytes end at a name that is not bound, if they do not all have addresses -/
theorem exists_unbound_of_mapM_resolveCell (h : draft.Placed lines) {e : AssemblyError}
    (herror : draft.cells.toList.mapM (draft.resolveCell texts) = .error e) :
    ∃ emitted ∈ emittedFrom 1 lines, ∃ route half, emitted.site = .half route half ∧
      (∀ meaning, (route, meaning) ∉ tableOf lines) ∧ e = ⟨emitted.number, emitted.column,
        texts.getD (emitted.number - 1) "", .undefinedLabel (Route.text route)⟩ := by
  obtain ⟨before, cell, after, hsplit, -, hcell⟩ := Attempt.mapM_eq_error_iff.1 herror
  have hmem : cell ∈ draft.cells.toList := by
    rw [hsplit]
    exact List.mem_append_right _ List.mem_cons_self
  obtain ⟨emitted, hemitted, hmeans, hstands⟩ := InStep.exists_right h.laid hmem
  have hnot : ¬ emitted.Bound (tableOf lines) := by
    intro hbound
    obtain ⟨value, hvalue⟩ := (h.exists_resolveCell_iff texts hlead hmeans).2 hbound
    rw [hcell] at hvalue
    cases hvalue
  simp only [Emitted.Bound, not_forall, not_exists] at hnot
  obtain ⟨route, half, hsite, hunbound⟩ := hnot
  rw [h.resolveCell_eq_error texts hmeans hstands hsite hunbound] at hcell
  exact ⟨emitted, hemitted, route, half, hsite, hunbound, (Except.error.inj hcell).symm⟩

/-- a byte has no error of its own but that its name is not bound -/
theorem cause_of_mapM_resolveCell (h : draft.Placed lines) {e : AssemblyError}
    (herror : draft.cells.toList.mapM (draft.resolveCell texts) = .error e) :
    ∃ name, e.cause = .undefinedLabel name := by
  obtain ⟨_, -, _, _, -, -, rfl⟩ := h.exists_unbound_of_mapM_resolveCell texts hlead herror
  exact ⟨_, rfl⟩

end Cells

end Draft.Placed

/-- **An assembly fails at the first name that leads nowhere.** When all lines are read, it succeeds exactly if every
alias leads to an address and the name of every operand is bound. Otherwise the first alias that leads nowhere is
reported, as the line that made it, with the end of its aliases or the name that they come back to; if there is none, the
first operand whose name is not bound, at its word, with its own name. The bytes are never at fault for a cycle. -/
theorem assemble_reports_first_unresolved (source : String) (mount : Word) (draft : Draft)
    (h : Draft.ofLines (Text.lines source) mount = .ok draft) :
    ∃ statements,
      List.Forall₂ (fun text statement => Statement.parse text = .ok statement) (Text.lines source) statements ∧
      let lines := lay Space.initial mount.toNat statements
      let table := tableOf lines
      ((∃ assembly, assemble source mount = .ok assembly) ↔
        (∀ made ∈ madeFrom 1 lines, made.Leads table) ∧ ∀ emitted ∈ emittedFrom 1 lines, emitted.Bound table) ∧
      (∀ before made after, madeFrom 1 lines = before ++ made :: after →
        (∀ earlier ∈ before, earlier.Leads table) → ¬ made.Leads table →
          ∃ cause, Fails table made.route cause ∧ assemble source mount =
            .error ⟨made.number, 0, (Text.lines source).getD (made.number - 1) "", cause⟩) ∧
      ((∀ made ∈ madeFrom 1 lines, made.Leads table) → ∀ before emitted after,
        emittedFrom 1 lines = before ++ emitted :: after → (∀ earlier ∈ before, earlier.Bound table) →
          ∀ route half, emitted.site = .half route half → (∀ meaning, (route, meaning) ∉ table) →
            assemble source mount = .error ⟨emitted.number, emitted.column,
              (Text.lines source).getD (emitted.number - 1) "", .undefinedLabel (Route.text route)⟩) ∧
      (draft.labels.entries.toList.forM (draft.checkEntry (Text.lines source)) = .ok () →
        ∀ e, draft.cells.toList.mapM (draft.resolveCell (Text.lines source)) = .error e →
          ∀ name, e.cause ≠ .aliasCycle name) := by
  obtain ⟨statements, hparses, hplaced⟩ := Draft.placed_of_ofLines h
  have hassemble : assemble source mount = draft.link (Text.lines source) := by
    rw [assemble, h]
    rfl
  have hcheck := hplaced.forM_checkEntry_eq_ok_iff (Text.lines source)
  refine ⟨statements, hparses, ⟨?_, ?_⟩, ?_, ?_, ?_⟩
  · rintro ⟨assembly, hassembly⟩
    rw [hassemble] at hassembly
    obtain ⟨⟨⟩, hchecked, hassembly⟩ := Attempt.bind_eq_ok_iff.1 hassembly
    obtain ⟨bytes, hbytes, -⟩ := Attempt.bind_eq_ok_iff.1 hassembly
    have hlead := hcheck.1 hchecked
    exact ⟨hlead, (hplaced.exists_mapM_resolveCell_iff (Text.lines source) hlead).1 ⟨bytes, hbytes⟩⟩
  · rintro ⟨hlead, hbound⟩
    obtain ⟨bytes, hbytes⟩ := (hplaced.exists_mapM_resolveCell_iff (Text.lines source) hlead).2 hbound
    rw [hassemble]
    exact ⟨_, Attempt.bind_eq_ok_iff.2 ⟨(), hcheck.2 hlead, Attempt.bind_eq_ok_iff.2 ⟨bytes, hbytes, rfl⟩⟩⟩
  · intro before made after hsplit hbefore hnowhere
    obtain ⟨cause, hfails, herror⟩ :=
      hplaced.forM_checkEntry_eq_error (Text.lines source) hsplit hbefore hnowhere
    refine ⟨cause, hfails, ?_⟩
    rw [hassemble, Draft.link, herror, Attempt.error_bind]
  · intro hlead before emitted after hsplit hbefore route half hsite hunbound
    rw [hassemble, Draft.link, hcheck.2 hlead, Attempt.ok_bind,
      hplaced.mapM_resolveCell_eq_error (Text.lines source) hlead hsplit hbefore hsite hunbound, Attempt.error_bind]
  · intro hchecked e he name heq
    obtain ⟨name', hcause⟩ := hplaced.cause_of_mapM_resolveCell (Text.lines source) (hcheck.1 hchecked) he
    rw [hcause] at heq
    cases heq

/-- an alias of a label, and a jump to a name that is not bound -/
def danglingJump : String := "use b as a\n.b\njmp %nowhere"

def danglingStatements : List Statement :=
  [.useName ⟨.above 0, ["b"]⟩ (some ⟨.above 0, ["a"]⟩), .label "b" .concealed,
   .instruction .jmp
     [⟨.address ⟨.above 0, ["nowhere"]⟩ .low, ⟨"%nowhere", 5⟩⟩,
      ⟨.address ⟨.above 0, ["nowhere"]⟩ .high, ⟨"%nowhere", 5⟩⟩]]

theorem danglingJump_is_reported :
    (∃ draft, Draft.ofLines (Text.lines danglingJump) 0 = .ok draft) ∧
      assemble danglingJump 0 = .error ⟨3, 5, "jmp %nowhere", .undefinedLabel "nowhere"⟩ := by
  have hread : (Draft.ofLines (Text.lines danglingJump) 0).toOption.isSome := by decide +kernel
  cases h : Draft.ofLines (Text.lines danglingJump) 0 with
  | error e =>
    rw [h] at hread
    cases hread
  | ok draft =>
    obtain ⟨statements, hparses, -, -, hoperand, -⟩ := assemble_reports_first_unresolved danglingJump 0 draft h
    have hlines : Text.lines danglingJump = ["use b as a", ".b", "jmp %nowhere"] := by decide +kernel
    have hsaid : List.Forall₂ (fun text statement => Statement.parse text = .ok statement)
        (Text.lines danglingJump) danglingStatements := by
      rw [hlines]
      exact .cons (by decide +kernel) (.cons (by decide +kernel) (.cons (by decide +kernel) .nil))
    obtain rfl : statements = danglingStatements :=
      List.right_unique_forall₂' (fun _ _ _ h h' => Except.ok.inj (h.symm.trans h')) hparses hsaid
    have htable : tableOf (lay Space.initial 0 danglingStatements) =
        [([⟨"a", none⟩], .sameAs [⟨"b", none⟩]), ([⟨"b", none⟩], .address 0)] := by decide
    have hb : Leads (tableOf (lay Space.initial 0 danglingStatements)) [⟨"b", none⟩] 0 := by
      rw [htable]
      exact .address (by decide)
    have ha : Leads (tableOf (lay Space.initial 0 danglingStatements)) [⟨"a", none⟩] 0 := by
      refine .sameAs ?_ hb
      rw [htable]
      decide
    have hlead : ∀ made ∈ madeFrom 1 (lay Space.initial 0 danglingStatements),
        made.Leads (tableOf (lay Space.initial 0 danglingStatements)) := by
      intro made hmade target htarget
      have hmem : made ∈ [⟨[⟨"a", none⟩], .sameAs [⟨"b", none⟩], 1⟩, ⟨[⟨"b", none⟩], .address 0, 2⟩] := hmade
      rcases List.mem_pair.1 hmem with rfl | rfl
      · exact ⟨0, ha⟩
      · exact ⟨0, hb⟩
    have herror := hoperand hlead [⟨.byte Opcode.jmp.code, 3, 0⟩] ⟨.half [⟨"nowhere", none⟩] .low, 3, 5⟩
      [⟨.half [⟨"nowhere", none⟩] .high, 3, 5⟩] (by decide) (by simp [Emitted.Bound]) _ _ rfl
    refine ⟨⟨draft, rfl⟩, ?_⟩
    rw [herror]
    · rw [hlines]
      rfl
    · intro meaning hmem
      have hmem : ([⟨"nowhere", none⟩], meaning) ∈ tableOf (lay Space.initial 0 danglingStatements) := hmem
      rw [htable] at hmem
      simp at hmem

end ByteMachine
