/-
The same source text at two mount addresses. The layout is the same up to the distance of the mounts, and so is what a
name leads to; a text that fits at one mount fits at every lower one.

`assemble_relocates`: the images differ only in the bytes of addresses, and the addresses by the distance of the mounts.
-/
import Mathlib.Tactic
import ByteMachine.Proofs.Layout.Image
import ByteMachine.Proofs.Relocation.Moved

namespace ByteMachine

open Layout

namespace Layout

/-! ## Two layouts of the same statements -/

variable {space : Space} {statements : List Statement} {first : Nat}

theorem sites_lay (space : Space) (first second : Nat) (statements : List Statement) :
    (lay space first statements).flatMap Line.sites = (lay space second statements).flatMap Line.sites := by
  induction statements generalizing space first second with
  | nil => rfl
  | cons statement statements ih =>
    rw [lay, lay, List.flatMap_cons, List.flatMap_cons, ih]
    rfl

theorem address_mem_bindings {route : Route} {value : Nat} {statement : Statement}
    (h : (route, .address value) ∈ space.bindings first statement) (second : Nat) :
    value = first ∧ (route, .address second) ∈ space.bindings second statement := by
  have hdeclared : ∀ name visibility, (route, .address value) ∈
      (space.path ++ plain [name], .address first) :: space.publicBindings name visibility →
      value = first ∧ (route, .address second) ∈
        (space.path ++ plain [name], .address second) :: space.publicBindings name visibility := by
    intro name visibility h
    rcases List.mem_cons.1 h with h | h
    · obtain ⟨rfl, hvalue⟩ := Prod.mk.inj h
      exact ⟨Meaning.address.inj hvalue, List.mem_cons_self⟩
    · cases visibility with
      | concealed => simp [Space.publicBindings] at h
      | exposed newName =>
        simp only [Space.publicBindings] at h
        split at h <;> simp at h
  cases statement with
  | label name visibility => exact hdeclared name visibility h
  | subroutine name visibility => exact hdeclared name visibility h
  | _ => simp [Space.bindings] at h

theorem sameAs_mem_bindings {route target : Route} {statement : Statement}
    (h : (route, .sameAs target) ∈ space.bindings first statement) (second : Nat) :
    (route, .sameAs target) ∈ space.bindings second statement := by
  cases statement with
  | label name visibility =>
    rcases List.mem_cons.1 h with h | h
    · simp at h
    · exact List.mem_cons_of_mem _ h
  | subroutine name visibility =>
    rcases List.mem_cons.1 h with h | h
    · simp at h
    · exact List.mem_cons_of_mem _ h
  | _ => exact h

theorem address_mem_tableOf {route : Route} {value : Nat}
    (h : (route, .address value) ∈ tableOf (lay space first statements)) (second : Nat) :
    ∃ value', (route, .address value') ∈ tableOf (lay space second statements) ∧ value' + first = value + second := by
  induction statements generalizing space first second with
  | nil => simp [lay, tableOf] at h
  | cons statement statements ih =>
    rcases List.mem_append.1 h with h | h
    · obtain ⟨rfl, hmem⟩ := address_mem_bindings h second
      exact ⟨second, List.mem_append_left _ hmem, Nat.add_comm _ _⟩
    · obtain ⟨value', hmem, hvalue⟩ := ih h (second + (space.sites statement).length)
      exact ⟨value', List.mem_append_right _ hmem, by omega⟩

theorem sameAs_mem_tableOf {route target : Route} (h : (route, .sameAs target) ∈ tableOf (lay space first statements))
    (second : Nat) : (route, .sameAs target) ∈ tableOf (lay space second statements) := by
  induction statements generalizing space first second with
  | nil => simp [lay, tableOf] at h
  | cons statement statements ih =>
    rcases List.mem_append.1 h with h | h
    · exact List.mem_append_left _ (sameAs_mem_bindings h second)
    · exact List.mem_append_right _ (ih h _)

/-- a name leads to an address at the same distance -/
theorem leads_lay {route : Route} {value : Nat} (h : Leads (tableOf (lay space first statements)) route value)
    (second : Nat) :
    ∃ value', Leads (tableOf (lay space second statements)) route value' ∧ value' + first = value + second := by
  induction h with
  | address hroute =>
    obtain ⟨value', hmem, hvalue⟩ := address_mem_tableOf hroute second
    exact ⟨value', .address hmem, hvalue⟩
  | sameAs hroute _ ih =>
    obtain ⟨value', hleads, hvalue⟩ := ih
    exact ⟨value', .sameAs (sameAs_mem_tableOf hroute second) hleads, hvalue⟩

/-- the bytes at a site of two images: the same byte, or the same half of two addresses at the distance of the mounts -/
inductive Site.Moves (table table' : List (Route × Meaning)) (mount mount' : Word) : Site → Byte × Byte → Prop
  | byte (value : Byte) : Moves table table' mount mount' (.byte value) (value, value)
  | half {route : Route} {half : Half} {address address' : Nat} {value value' : Byte} :
      Leads table route address → Leads table' route address' →
        address' + mount.toNat = address + mount'.toNat → value.toNat = halfOf address half →
        value'.toNat = halfOf address' half → Moves table table' mount mount' (.half route half) (value, value')

end Layout

namespace Draft

variable {draft next : Draft} {mount mount' : Word} {space : Space} {table : List (Route × Meaning)}
  {sites : List Site} {statements : List Statement} {texts : List String} {assembly : Assembly}

/-! ## The first reading -/

theorem Follows.moved_addLines (h : draft.Follows mount space table sites) (hle : mount' ≤ mount) {number : Nat}
    (ha : draft.addLines number texts = .ok next) :
    (draft.moved mount').addLines number texts = .ok (next.moved mount') := by
  induction texts generalizing draft number space table sites with
  | nil =>
    obtain rfl := Except.ok.inj ha
    rfl
  | cons text texts ih =>
    obtain ⟨added, hadded, ha⟩ := addLines_cons_eq_ok_iff.1 ha
    obtain ⟨statement, hparse, hadd⟩ := addLine_eq_ok_iff.1 hadded
    have hline : (draft.moved mount').addLine number text = .ok (added.moved mount') :=
      addLine_eq_ok_iff.2 ⟨statement, hparse, moved_add (h.mount ▸ hle) hadd⟩
    exact addLines_cons_eq_ok_iff.2 ⟨_, hline, ih (h.add hadd) ha⟩

theorem moved_ofLines (hle : mount' ≤ mount) (h : ofLines texts mount = .ok draft) :
    ofLines texts mount' = .ok (draft.moved mount') := by
  have hmoved := (start_follows mount).moved_addLines hle h
  have hstart : (start mount).moved mount' = start mount' := by
    simp [Draft.moved, start, LabelTable.moved, LabelTable.empty]
  rwa [hstart] at hmoved

/-! ## The second reading -/

theorem moved_checkEntry {entry : LabelTable.Entry} (h : draft.checkEntry texts entry = .ok ()) :
    (draft.moved mount').checkEntry texts (entry.moved draft.mount mount') = .ok () := by
  obtain ⟨name, binding, line⟩ := entry
  cases binding with
  | address value => rfl
  | aliasOf target =>
    simp only [checkEntry] at h
    cases hresolve : draft.labels.resolve name with
    | error reason => simp [hresolve] at h
    | ok address =>
      have hmoved := draft.labels.resolve_moved draft.mount mount' name
      rw [hresolve] at hmoved
      simp only [checkEntry, LabelTable.Entry.moved, Binding.moved, Draft.moved, hmoved, Except.map]

theorem moved_resolveCell {cell : Cell} {value : Byte} (h : draft.resolveCell texts cell = .ok value) :
    ∃ value', (draft.moved mount').resolveCell texts cell = .ok value' := by
  cases cell with
  | byte value => exact ⟨value, rfl⟩
  | half target half line column =>
    simp only [resolveCell] at h
    cases hresolve : draft.labels.resolve target with
    | error reason => simp [hresolve] at h
    | ok address =>
      have hmoved := draft.labels.resolve_moved draft.mount mount' target
      rw [hresolve] at hmoved
      exact ⟨half.select (address.moved draft.mount mount'), by simp only [resolveCell, Draft.moved, hmoved, Except.map]⟩

theorem moved_link (h : draft.link texts = .ok assembly) :
    ∃ assembly', (draft.moved mount').link texts = .ok assembly' := by
  obtain ⟨hcheck, hcells, -, -⟩ := link_eq_ok h
  have hcheck' : ∀ entry ∈ (draft.moved mount').labels.entries.toList,
      (draft.moved mount').checkEntry texts entry = .ok () := by
    intro entry hentry
    simp only [Draft.moved, LabelTable.moved, Array.toList_map, List.mem_map] at hentry
    obtain ⟨entry, hentry, rfl⟩ := hentry
    exact moved_checkEntry (hcheck entry hentry)
  have hcells' : ∃ bytes, List.Forall₂ (fun cell byte => (draft.moved mount').resolveCell texts cell = .ok byte)
      draft.cells.toList bytes := InStep.exists_of_imp (fun _ _ hcell => moved_resolveCell hcell) hcells
  obtain ⟨bytes, hbytes⟩ := hcells'
  exact ⟨_, Attempt.bind_eq_ok_iff.2 ⟨(), Attempt.forM_eq_ok_iff.2 hcheck',
    Attempt.bind_eq_ok_iff.2 ⟨bytes, Attempt.mapM_eq_ok_iff.2 hbytes, rfl⟩⟩⟩

/-! ## Names -/

theorem toNat_moved {value old new : Word} (hnew : new ≤ old) (hold : old ≤ value) :
    (Word.moved value old new).toNat + old.toNat = value.toNat + new.toNat := by
  rw [UInt16.le_iff_toNat_le] at hnew hold
  have := value.toNat_lt
  simp only [Word.moved, UInt16.toNat_add, UInt16.toNat_sub]
  omega

/-- no name leads to an address before the mount -/
theorem Follows.mount_le_of_mem_foundSymbols
    (h : draft.Follows mount space (tableOf (lay Space.initial mount.toNat statements)) sites)
    {symbol : String × Word} (hsymbol : symbol ∈ draft.foundSymbols) : mount ≤ symbol.2 := by
  obtain ⟨text, address⟩ := symbol
  obtain ⟨entry, hentry, hresolve, -⟩ := mem_foundSymbols.1 hsymbol
  obtain ⟨binding, -, hname, -⟩ := InStep.exists_right h.bound hentry
  obtain ⟨value, -, hvalue⟩ := leads_lay (LabelTable.leads_of_resolve h.bound hname hresolve) 0
  have hle : mount.toNat ≤ address.toNat := by omega
  exact UInt16.le_iff_toNat_le.2 hle

theorem symbolLE_moved {old new : Word} (hnew : new ≤ old) {x y : String × Word} (hx : old ≤ x.2) (hy : old ≤ y.2) :
    symbolLE x y = symbolLE (x.1, x.2.moved old new) (y.1, y.2.moved old new) := by
  have hx := toNat_moved hnew hx
  have hy := toNat_moved hnew hy
  have hlt : x.2 < y.2 ↔ Word.moved x.2 old new < Word.moved y.2 old new := by
    rw [UInt16.lt_iff_toNat_lt, UInt16.lt_iff_toNat_lt]
    omega
  have heq : x.2 = y.2 ↔ Word.moved x.2 old new = Word.moved y.2 old new := by
    rw [← UInt16.toNat_inj, ← UInt16.toNat_inj]
    omega
  simp only [symbolLE, hlt, heq]

theorem foundSymbols_moved (draft : Draft) (mount' : Word) :
    (draft.moved mount').foundSymbols =
      draft.foundSymbols.map fun symbol => (symbol.1, symbol.2.moved draft.mount mount') := by
  simp only [foundSymbols, Draft.moved, LabelTable.resolve_moved]
  rw [LabelTable.moved, Array.toList_map, List.filterMap_map, List.map_filterMap]
  congr 1
  funext entry
  cases hresolve : draft.labels.resolve entry.name with
  | error reason => simp [LabelTable.Entry.moved, hresolve, Except.map, Except.toOption]
  | ok address => simp [LabelTable.Entry.moved, hresolve, Except.map, Except.toOption, render]

theorem Follows.symbolList_moved
    (h : draft.Follows mount space (tableOf (lay Space.initial mount.toNat statements)) sites) (hle : mount' ≤ mount) :
    (draft.moved mount').symbolList = draft.symbolList.map fun symbol => (symbol.1, symbol.2.moved mount mount') := by
  rw [symbolList_eq, symbolList_eq, foundSymbols_moved, h.mount, List.map_mergeSort]
  intro x hx y hy
  exact symbolLE_moved hle (h.mount_le_of_mem_foundSymbols hx) (h.mount_le_of_mem_foundSymbols hy)

end Draft

/-- the list of names at a lower mount -/
theorem symbols_moved {source : String} {mount mount' : Word} {assembly assembly' : Assembly} (hle : mount' ≤ mount)
    (h : assemble source mount = .ok assembly) (h' : assemble source mount' = .ok assembly') :
    List.Forall₂ (fun symbol symbol' : String × Word => symbol'.1 = symbol.1 ∧
      symbol'.2.toNat + mount.toNat = symbol.2.toNat + mount'.toNat) assembly.symbols assembly'.symbols := by
  obtain ⟨draft, statements, hdraft, hlink, -, hfollows⟩ := exists_follows_of_assemble h
  obtain ⟨draft', -, hdraft', hlink', -, -⟩ := exists_follows_of_assemble h'
  rw [Draft.moved_ofLines hle hdraft] at hdraft'
  obtain rfl := Except.ok.inj hdraft'
  obtain ⟨-, -, -, hsymbols⟩ := Draft.link_eq_ok hlink
  obtain ⟨-, -, -, hsymbols'⟩ := Draft.link_eq_ok hlink'
  rw [hsymbols, hsymbols', hfollows.symbolList_moved hle, List.forall₂_map_right_iff, List.forall₂_same]
  intro symbol hsymbol
  rw [Draft.symbolList_eq, List.mem_mergeSort] at hsymbol
  exact ⟨rfl, Draft.toNat_moved hle (hfollows.mount_le_of_mem_foundSymbols hsymbol)⟩

/-- **An image can be mounted lower, and moves as a whole.** A text that is assembled at a mount is assembled at every
lower one. At two mounts its images have the same length, their names come in the same order with addresses at the
distance of the mounts, and byte by byte they have the same value or the same half of two such addresses. -/
theorem assemble_relocates (source : String) :
    (∀ mount mount' assembly, mount' ≤ mount → assemble source mount = .ok assembly →
      ∃ assembly', assemble source mount' = .ok assembly') ∧
    ∀ mount mount' assembly assembly', assemble source mount = .ok assembly → assemble source mount' = .ok assembly' →
      assembly'.bytes.length = assembly.bytes.length ∧
      List.Forall₂ (fun symbol symbol' : String × Word => symbol'.1 = symbol.1 ∧
        symbol'.2.toNat + mount.toNat = symbol.2.toNat + mount'.toNat) assembly.symbols assembly'.symbols ∧
      ∃ statements,
        List.Forall₂ (fun text statement => Statement.parse text = .ok statement) (Text.lines source) statements ∧
        List.Forall₂ (Site.Moves (tableOf (lay Space.initial mount.toNat statements))
            (tableOf (lay Space.initial mount'.toNat statements)) mount mount')
          ((lay Space.initial mount.toNat statements).flatMap Line.sites) (assembly.bytes.zip assembly'.bytes) := by
  constructor
  · intro mount mount' assembly hle h
    obtain ⟨draft, hdraft, hlink⟩ := Attempt.bind_eq_ok_iff.1 h
    obtain ⟨assembly', hlink'⟩ := @Draft.moved_link draft mount' _ _ hlink
    exact ⟨assembly', Attempt.bind_eq_ok_iff.2 ⟨_, Draft.moved_ofLines hle hdraft, hlink'⟩⟩
  · intro mount mount' assembly assembly' h h'
    obtain ⟨draft, statements, -, hlink, hparses, hfollows⟩ := exists_follows_of_assemble h
    obtain ⟨draft', statements', -, hlink', hparses', hfollows'⟩ := exists_follows_of_assemble h'
    obtain rfl : statements' = statements := by
      refine List.right_unique_forall₂' ?_ hparses' hparses
      intro text s t hs ht
      exact Except.ok.inj (hs.symm.trans ht)
    have hbytes := hfollows.holds_bytes hlink
    have hbytes' := hfollows'.holds_bytes hlink'
    rw [sites_lay _ mount'.toNat mount.toNat] at hbytes'
    refine ⟨hbytes'.length_eq.symm.trans hbytes.length_eq, ?_, statements', hparses, ?_⟩
    · rcases UInt16.le_total mount' mount with hle | hle
      · exact symbols_moved hle h h'
      · refine List.Forall₂.flip (List.Forall₂.imp ?_ (symbols_moved hle h' h))
        intro symbol' symbol ⟨hname, haddress⟩
        exact ⟨hname.symm, haddress.symm⟩
    · refine InStep.zip ?_ hbytes hbytes'
      intro site value value' hvalue hvalue'
      cases hvalue with
      | byte value =>
        cases hvalue'
        exact .byte value
      | half hleads hhalf =>
        cases hvalue' with
        | half hleads' hhalf' =>
          obtain ⟨address, hmoved, hdistance⟩ := leads_lay hleads mount'.toNat
          have hnodup := LabelTable.nodup_of_once hfollows'.distinct hfollows'.once hfollows'.bound
          obtain rfl := Leads.unique hnodup hmoved hleads'
          exact .half hleads hmoved hdistance hhalf hhalf'

/-- a value and an address whose high byte depends on the mount -/
def movable : String := "dat 7 %c\n.c"

theorem movable_relocates :
    ∃ assembly assembly', assemble movable 0x100 = .ok assembly ∧ assemble movable 0xfc = .ok assembly' ∧
      assembly.bytes = [7, 0x03, 0x01] ∧ assembly'.bytes = [7, 0xff, 0x00] ∧
      List.Forall₂ (fun symbol symbol' : String × Word => symbol'.1 = symbol.1 ∧
        symbol'.2.toNat + 0x100 = symbol.2.toNat + 0xfc) assembly.symbols assembly'.symbols := by
  have hbytes : (assemble movable 0x100).map (·.bytes) = .ok [7, 0x03, 0x01] := by decide +kernel
  have hbytes' : (assemble movable 0xfc).map (·.bytes) = .ok [7, 0xff, 0x00] := by decide +kernel
  obtain ⟨hlower, hmoved⟩ := assemble_relocates movable
  cases h : assemble movable 0x100 with
  | error e => simp [h, Except.map] at hbytes
  | ok assembly =>
    obtain ⟨assembly', h'⟩ := hlower 0x100 0xfc assembly (by decide) h
    rw [h] at hbytes
    rw [h'] at hbytes'
    obtain ⟨-, hsymbols, -⟩ := hmoved 0x100 0xfc assembly assembly' h h'
    exact ⟨assembly, assembly', rfl, h', Except.ok.inj hbytes, Except.ok.inj hbytes', hsymbols⟩

end ByteMachine
