/-
The second reading follows the layout. What a name leads to in the finished label table is what it leads to among the
bindings of all lines, so the bytes and the list of names of an image are those of the layout.

`assemble_realizes_layout`: an image that is assembled realizes the layout of its source.
-/
import Mathlib.Tactic
import ByteMachine.Assembly.Image
import ByteMachine.Proofs.InStep
import ByteMachine.Proofs.Layout.Correspondence
import ByteMachine.Proofs.Layout.Operands

namespace ByteMachine

open Layout

/-! ## Lookup -/

section Lookup

variable {symbols : SymbolTable} {labels : LabelTable} {table : List (Route × Meaning)}

theorem LabelTable.leads_of_follow (hbound : List.Forall₂ (Entry.Means symbols) labels.entries.toList table)
    (fuel : Nat) (visited : List Path) (name : Path) (route : Route) (address : Word)
    (hname : symbols.Spells name route) (h : follow labels.binding? fuel visited name = .ok address) :
    Leads table route address.toNat := by
  induction fuel generalizing visited name route with
  | zero => simp [follow] at h
  | succ fuel ih =>
    rw [follow] at h
    by_cases hvisited : name ∈ visited
    · simp [hvisited] at h
    · rw [if_neg hvisited] at h
      cases hfind : labels.find? name with
      | none => simp [binding?, hfind] at h
      | some entry =>
        obtain ⟨hmem, rfl⟩ := mem_of_find?_eq_some hfind
        obtain ⟨⟨route', meaning⟩, hbinding, hroute, hmeans⟩ := InStep.exists_right hbound hmem
        obtain rfl := hroute.unique hname
        obtain ⟨name, binding, line⟩ := entry
        simp only [binding?, hfind, Option.map_some] at h
        cases hmeans with
        | address value =>
          obtain rfl := Except.ok.inj h
          exact .address hbinding
        | aliasOf htarget => exact .sameAs hbinding (ih _ _ _ htarget h)

theorem LabelTable.leads_of_resolve (hbound : List.Forall₂ (Entry.Means symbols) labels.entries.toList table)
    {name : Path} {route : Route} {address : Word} (hname : symbols.Spells name route)
    (h : labels.resolve name = .ok address) : Leads table route address.toNat :=
  leads_of_follow hbound _ _ _ _ _ hname h

/-- names that are bound once are written out to names that are bound once -/
theorem LabelTable.nodup_of_once (hdistinct : symbols.Distinct) (honce : labels.Once)
    (hbound : List.Forall₂ (Entry.Means symbols) labels.entries.toList table) : (table.map (·.1)).Nodup := by
  have hnames : List.Forall₂ symbols.Spells (labels.entries.toList.map (·.name)) (table.map (·.1)) := by
    rw [List.forall₂_map_left_iff, List.forall₂_map_right_iff]
    exact hbound.imp fun _ _ hentry => hentry.1
  exact (List.rel_nodup (symbols.biUnique_spells hdistinct) hnames).1 honce

end Lookup

/-! ## Images -/

/-- the image is that of the lines of a source text at a mount address -/
structure Assembly.Realizes (assembly : Assembly) (source : String) (mount : Word) (lines : List Line) : Prop where
  /-- the lines are those of the text, and their bytes those of their words -/
  read : List.Forall₂ (fun text line => Statement.parse text = .ok line.statement ∧
    line.ReadsWords ((Token.ofLine text).map (·.text))) (Text.lines source) lines
  /-- a line stands after the bytes of the lines before it -/
  placed : ∀ before line after, lines = before ++ line :: after →
    line.address = mount.toNat + (before.flatMap Line.sites).length
  mounted : assembly.mount = mount
  /-- the image has the bytes of each line, in order, with every name looked up among the bindings of all lines -/
  encoded : ∃ encodings : List (List Byte), assembly.bytes = encodings.flatten ∧
    List.Forall₂ (fun line bytes => List.Forall₂ (Site.Holds (tableOf lines)) line.sites bytes) lines encodings
  /-- a label has the address of its line -/
  declared : ∀ line ∈ lines, ∀ route, line.declares = some route →
    line.address < Draft.addressSpace ∧ (Route.text route, UInt16.ofNat line.address) ∈ assembly.symbols
  /-- no name is bound twice -/
  once : ((tableOf lines).map (·.1)).Nodup
  /-- the list of names has every name that is bound, with the address that it leads to, and no other -/
  listed : ∀ text address, (text, address) ∈ assembly.symbols ↔
    ∃ binding ∈ tableOf lines, Route.text binding.1 = text ∧ Leads (tableOf lines) binding.1 address.toNat

namespace Draft

variable {draft : Draft} {mount : Word} {space : Space} {table : List (Route × Meaning)} {sites : List Site}
  {texts : List String} {assembly : Assembly}

theorem link_eq_ok (h : draft.link texts = .ok assembly) :
    (∀ entry ∈ draft.labels.entries.toList, draft.checkEntry texts entry = .ok ()) ∧
      List.Forall₂ (fun cell byte => draft.resolveCell texts cell = .ok byte) draft.cells.toList assembly.bytes ∧
      assembly.mount = draft.mount ∧ assembly.symbols = draft.symbolList := by
  obtain ⟨⟨⟩, hcheck, h⟩ := Attempt.bind_eq_ok_iff.1 h
  obtain ⟨bytes, hbytes, h⟩ := Attempt.bind_eq_ok_iff.1 h
  obtain rfl := Except.ok.inj h
  exact ⟨Attempt.forM_eq_ok_iff.1 hcheck, Attempt.mapM_eq_ok_iff.1 hbytes, rfl, rfl⟩

/-- in a draft that can be linked every bound name leads to an address -/
theorem exists_resolve_of_checkEntry (honce : draft.labels.Once) {entry : LabelTable.Entry}
    (hentry : entry ∈ draft.labels.entries.toList) (h : draft.checkEntry texts entry = .ok ()) :
    ∃ address, draft.labels.resolve entry.name = .ok address := by
  obtain ⟨name, binding, line⟩ := entry
  cases binding with
  | address value =>
    refine ⟨value, ?_⟩
    rw [LabelTable.resolve, LabelTable.follow, if_neg List.not_mem_nil, LabelTable.binding?,
      LabelTable.find?_eq_some_of_mem honce hentry, Option.map_some]
  | aliasOf target =>
    simp only [checkEntry] at h
    split at h
    · rename_i address haddress
      exact ⟨address, haddress⟩
    · simp at h

theorem Follows.holds (h : draft.Follows mount space table sites) {cell : Cell} {site : Site} {value : Byte}
    (hcell : cell.Means draft.symbols site) (hvalue : draft.resolveCell texts cell = .ok value) :
    site.Holds table value := by
  cases hcell with
  | byte value =>
    obtain rfl := Except.ok.inj hvalue
    exact .byte value
  | @half target route half line column htarget =>
    simp only [resolveCell] at hvalue
    split at hvalue
    · rename_i address haddress
      obtain rfl := Except.ok.inj hvalue
      refine .half (LabelTable.leads_of_resolve h.bound htarget haddress) ?_
      cases half with
      | low => exact Word.toNat_low address
      | high => exact Word.toNat_high address
    · simp at hvalue

theorem Follows.holds_bytes (h : draft.Follows mount space table sites) (hlink : draft.link texts = .ok assembly) :
    List.Forall₂ (Site.Holds table) sites assembly.bytes := by
  refine InStep.of_common ?_ h.laid (link_eq_ok hlink).2.1
  intro cell site value hcell hvalue
  exact h.holds hcell hvalue

def foundSymbols (draft : Draft) : List (String × Word) :=
  draft.labels.entries.toList.filterMap fun entry =>
    (draft.labels.resolve entry.name).toOption.map (draft.render entry.name, ·)

theorem symbolList_eq (draft : Draft) : draft.symbolList = draft.foundSymbols.mergeSort symbolLE := rfl

theorem mem_foundSymbols {text : String} {address : Word} :
    (text, address) ∈ draft.foundSymbols ↔
      ∃ entry ∈ draft.labels.entries.toList, draft.labels.resolve entry.name = .ok address ∧
        draft.render entry.name = text := by
  simp only [foundSymbols, List.mem_filterMap, Option.map_eq_some_iff, Prod.mk.injEq]
  constructor
  · rintro ⟨entry, hentry, found, hfound, hrender, rfl⟩
    refine ⟨entry, hentry, ?_, hrender⟩
    cases hresolve : draft.labels.resolve entry.name with
    | error reason => simp [hresolve, Except.toOption] at hfound
    | ok address =>
      rw [hresolve] at hfound
      exact congrArg Except.ok (Option.some.inj hfound)
  · rintro ⟨entry, hentry, hresolve, hrender⟩
    exact ⟨entry, hentry, address, by rw [hresolve]; rfl, hrender, rfl⟩

theorem Follows.mem_symbolList_iff (h : draft.Follows mount space table sites)
    (hcheck : ∀ entry ∈ draft.labels.entries.toList, draft.checkEntry texts entry = .ok ()) {text : String}
    {address : Word} :
    (text, address) ∈ draft.symbolList ↔
      ∃ binding ∈ table, Route.text binding.1 = text ∧ Leads table binding.1 address.toNat := by
  rw [symbolList_eq, List.mem_mergeSort, mem_foundSymbols]
  constructor
  · rintro ⟨entry, hentry, hresolve, hrender⟩
    obtain ⟨binding, hbinding, hroute, -⟩ := InStep.exists_right h.bound hentry
    refine ⟨binding, hbinding, ?_, LabelTable.leads_of_resolve h.bound hroute hresolve⟩
    rw [← hrender, render, hroute.render]
  · rintro ⟨binding, hbinding, rfl, hleads⟩
    obtain ⟨entry, hentry, hroute, -⟩ := InStep.exists_left h.bound hbinding
    obtain ⟨found, hfound⟩ := exists_resolve_of_checkEntry h.once hentry (hcheck entry hentry)
    have hsame := Leads.unique (LabelTable.nodup_of_once h.distinct h.once h.bound) hleads
      (LabelTable.leads_of_resolve h.bound hroute hfound)
    obtain rfl := UInt16.toNat_inj.1 hsame
    exact ⟨entry, hentry, hfound, hroute.render⟩

end Draft

/-- the lines read in step with their texts -/
theorem forall₂_lay {texts : List String} {statements : List Statement}
    (h : List.Forall₂ (fun text statement => Statement.parse text = .ok statement) texts statements) (space : Space)
    (address : Nat) :
    List.Forall₂ (fun text line => Statement.parse text = .ok line.statement ∧
      line.ReadsWords ((Token.ofLine text).map (·.text))) texts (lay space address statements) := by
  induction h generalizing space address with
  | nil => exact .nil
  | cons hparse _ ih => exact .cons ⟨hparse, Line.readsWords_of_ofTokens _ hparse⟩ (ih _ _)

/-- an image comes of a draft that follows the lines of its source -/
theorem exists_follows_of_assemble {source : String} {mount : Word} {assembly : Assembly}
    (h : assemble source mount = .ok assembly) :
    ∃ draft statements, Draft.ofLines (Text.lines source) mount = .ok draft ∧
      draft.link (Text.lines source) = .ok assembly ∧
      List.Forall₂ (fun text statement => Statement.parse text = .ok statement) (Text.lines source) statements ∧
      draft.Follows mount (statements.foldl Space.after Space.initial)
        (tableOf (lay Space.initial mount.toNat statements))
        ((lay Space.initial mount.toNat statements).flatMap Line.sites) := by
  obtain ⟨draft, hdraft, hlink⟩ := Attempt.bind_eq_ok_iff.1 h
  obtain ⟨statements, hparses, hfollows⟩ := (Draft.start_follows mount).addLines hdraft
  exact ⟨draft, statements, hdraft, hlink, hparses, hfollows⟩

/-- **An image is the layout of its source.** The bytes are those of the lines in order, every label has the address of
the next byte after the lines before it, and a name in an operand stands for the address that it leads to among the
bindings of all lines, wherever these stand. -/
theorem assemble_realizes_layout (source : String) (mount : Word) (assembly : Assembly)
    (h : assemble source mount = .ok assembly) :
    ∃ statements, assembly.Realizes source mount (lay Space.initial mount.toNat statements) := by
  obtain ⟨draft, statements, -, hlink, hparses, hfollows⟩ := exists_follows_of_assemble h
  obtain ⟨hcheck, -, hmount, hsymbols⟩ := Draft.link_eq_ok hlink
  have hlisted : ∀ text address, (text, address) ∈ assembly.symbols ↔
      ∃ binding ∈ tableOf (lay Space.initial mount.toNat statements), Route.text binding.1 = text ∧
        Leads (tableOf (lay Space.initial mount.toNat statements)) binding.1 address.toNat := by
    intro text address
    rw [hsymbols]
    exact hfollows.mem_symbolList_iff hcheck
  refine ⟨statements, {
    read := forall₂_lay hparses _ _
    placed := address_of_lay _ _ _
    mounted := by rw [hmount, hfollows.mount]
    encoded := InStep.exists_groups (hfollows.holds_bytes hlink)
    declared := ?_
    once := LabelTable.nodup_of_once hfollows.distinct hfollows.once hfollows.bound
    listed := hlisted }⟩
  intro line hline route hdeclares
  have hbinding : (route, .address line.address) ∈ tableOf (lay Space.initial mount.toNat statements) :=
    List.mem_flatMap.2 ⟨line, hline, mem_bindings_of_declares hdeclares⟩
  -- the address was one of a word before it was written out
  obtain ⟨⟨name, binding, number⟩, -, -, hmeans⟩ := InStep.exists_left hfollows.bound hbinding
  generalize hvalue : line.address = value at hmeans hbinding
  cases hmeans with
  | address word =>
    refine ⟨word.toNat_lt, (hlisted _ _).2 ⟨_, hbinding, rfl, ?_⟩⟩
    rw [UInt16.ofNat_toNat]
    exact .address hbinding

/-- a label that is used before its line through its second name, and in its own private namespace -/
def crossReferences : String := "dat %c -1\ndef b\n.c\nnum b :c\nexport c"

theorem crossReferences_realize :
    ∃ assembly, assemble crossReferences 0xff = .ok assembly ∧ assembly.bytes = [0x02, 0x01, 0xff, 0x00, 0x01, 0x02] ∧
      ∃ statements, assembly.Realizes crossReferences 0xff (lay Space.initial 0xff statements) := by
  have hbytes : (assemble crossReferences 0xff).map (·.bytes) = .ok [0x02, 0x01, 0xff, 0x00, 0x01, 0x02] := by
    decide +kernel
  cases h : assemble crossReferences 0xff with
  | error e => simp [h, Except.map] at hbytes
  | ok assembly =>
    rw [h] at hbytes
    exact ⟨assembly, rfl, Except.ok.inj hbytes, assemble_realizes_layout _ _ _ h⟩

end ByteMachine
