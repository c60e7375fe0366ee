/-
The list of names of an image. It has the text of every name that is bound in the source text, once, in the order of
addresses and, where these are the same, of texts. A name has the address that it leads to, which lies between the mount
and the end of the image; so a name and what it stands for have the same one.

`assembly_indexes_bindings`: all of this for every image.
-/
import Mathlib.Data.String.Basic
import Mathlib.Tactic
import ByteMachine.Proofs.Layout.Room
import ByteMachine.Proofs.Relocation.Assembly
import ByteMachine.Proofs.Symbols.Texts

namespace ByteMachine

open Layout

/-- the list of names is an index of the bindings -/
structure Assembly.Indexes (assembly : Assembly) (mount : Word) (table : List (Route × Meaning)) : Prop where
  /-- there is one entry for each name that is bound, and no other -/
  complete : (assembly.symbols.map (·.1)).Perm (table.map fun binding => Route.text binding.1)
  distinct : (assembly.symbols.map (·.1)).Nodup
  /-- by address, and by name where the address is the same -/
  sorted : assembly.symbols.Pairwise fun x y => x.2 < y.2 ∨ x.2 = y.2 ∧ x.1 < y.1
  /-- an address is that of a byte of the image, or of the place behind it -/
  within : ∀ symbol ∈ assembly.symbols, mount.toNat ≤ symbol.2.toNat ∧
    symbol.2.toNat ≤ mount.toNat + assembly.bytes.length ∧ symbol.2.toNat ≤ 0xffff
  /-- a label has its own address -/
  labels : ∀ route value, (route, .address value) ∈ table →
    ∃ address : Word, address.toNat = value ∧ (Route.text route, address) ∈ assembly.symbols
  /-- an alias has the address of the name that it stands for -/
  aliases : ∀ route target, (route, .sameAs target) ∈ table →
    ∃ address, (Route.text route, address) ∈ assembly.symbols ∧ (Route.text target, address) ∈ assembly.symbols
  lookup : ∀ name address, assembly.lookup name = some address ↔ (name, address) ∈ assembly.symbols

/-! ## Bindings of a layout -/

namespace Layout

variable {table : List (Route × Meaning)} {route : Route} {value : Nat}

theorem Leads.exists_mem (h : Leads table route value) : ∃ meaning, (route, meaning) ∈ table := by
  cases h with
  | address hroute => exact ⟨_, hroute⟩
  | sameAs hroute _ => exact ⟨_, hroute⟩

/-- an alias leads where the name leads that it stands for -/
theorem Leads.target (hnodup : (table.map (·.1)).Nodup) {target : Route} (hbinding : (route, .sameAs target) ∈ table)
    (h : Leads table route value) : Leads table target value := by
  cases h with
  | address hroute =>
    have hsame := List.inj_on_of_nodup_map hnodup hroute hbinding rfl
    simp at hsame
  | sameAs hroute htarget =>
    obtain ⟨-, hmeaning⟩ := Prod.mk.inj (List.inj_on_of_nodup_map hnodup hroute hbinding rfl)
    obtain rfl := Meaning.sameAs.inj hmeaning
    exact htarget

/-- a label stands behind the bytes of some of the lines -/
theorem within_of_mem_tableOf {space : Space} {start : Nat} {statements : List Statement}
    (h : (route, .address value) ∈ tableOf (lay space start statements)) :
    start ≤ value ∧ value ≤ start + ((lay space start statements).flatMap Line.sites).length := by
  obtain ⟨line, hline, hbinding⟩ := List.mem_flatMap.1 h
  obtain ⟨before, after, hlay⟩ := List.append_of_mem hline
  have haddress := address_of_lay space start statements before line after hlay
  obtain ⟨rfl, -⟩ := address_mem_bindings hbinding 0
  rw [hlay, List.flatMap_append, List.length_append]
  omega

end Layout

/-! ## The order of the list -/

namespace Draft

def symbolKey (symbol : String × Word) : Nat ×ₗ String := toLex (symbol.2.toNat, symbol.1)

theorem symbolLE_iff {x y : String × Word} : symbolLE x y = true ↔ symbolKey x ≤ symbolKey y := by
  simp only [symbolLE, symbolKey, Prod.Lex.toLex_le_toLex, Bool.or_eq_true, Bool.and_eq_true, decide_eq_true_eq,
    UInt16.lt_iff_toNat_lt, ← UInt16.toNat_inj]

variable {draft : Draft} {mount : Word} {space : Space} {table : List (Route × Meaning)} {sites : List Site}
  {texts : List String}

theorem pairwise_symbolList (draft : Draft) : draft.symbolList.Pairwise fun x y => symbolKey x ≤ symbolKey y := by
  have hsorted : draft.symbolList.Pairwise fun x y => symbolLE x y = true := by
    refine List.pairwise_mergeSort ?_ ?_ _
    · intro x y z hxy hyz
      rw [symbolLE_iff] at hxy hyz ⊢
      exact hxy.trans hyz
    · intro x y
      rw [Bool.or_eq_true, symbolLE_iff, symbolLE_iff]
      exact le_total _ _
  exact hsorted.imp symbolLE_iff.1

/-- entries with different names are in strict order -/
theorem symbolKey_lt {x y : String × Word} (hle : symbolKey x ≤ symbolKey y) (hne : x.1 ≠ y.1) :
    x.2 < y.2 ∨ x.2 = y.2 ∧ x.1 < y.1 := by
  rcases Prod.Lex.toLex_le_toLex.1 hle with haddress | ⟨haddress, hname⟩
  · exact .inl (UInt16.lt_iff_toNat_lt.2 haddress)
  · exact .inr ⟨UInt16.toNat_inj.1 haddress, lt_of_le_of_ne hname hne⟩

/-- in a draft that can be linked no name is left out -/
theorem Follows.map_fst_foundSymbols (h : draft.Follows mount space table sites)
    (hcheck : ∀ entry ∈ draft.labels.entries.toList, draft.checkEntry texts entry = .ok ()) :
    draft.foundSymbols.map (·.1) = table.map fun binding => Route.text binding.1 := by
  have hfound : ∀ entry ∈ draft.labels.entries.toList,
      ((draft.labels.resolve entry.name).toOption.map (draft.render entry.name, ·)).map (·.1) =
        some (draft.render entry.name) := by
    intro entry hentry
    obtain ⟨address, haddress⟩ := exists_resolve_of_checkEntry h.once hentry (hcheck entry hentry)
    rw [haddress]
    rfl
  have hrendered : draft.labels.entries.toList.map (fun entry => draft.render entry.name) =
      table.map fun binding => Route.text binding.1 := by
    rw [← List.forall₂_eq_eq_eq, List.forall₂_map_left_iff, List.forall₂_map_right_iff]
    exact h.bound.imp fun _ _ hentry => hentry.1.render
  calc draft.foundSymbols.map (·.1)
    _ = draft.labels.entries.toList.filterMap fun entry => some (draft.render entry.name) := by
      rw [foundSymbols, List.map_filterMap]
      exact List.filterMap_congr hfound
    _ = draft.labels.entries.toList.map fun entry => draft.render entry.name :=
      congrFun List.filterMap_eq_map' _
    _ = table.map fun binding => Route.text binding.1 := hrendered

end Draft

/-! ## Looking a name up -/

theorem Assembly.lookup_eq_some_iff {assembly : Assembly} (hdistinct : (assembly.symbols.map (·.1)).Nodup)
    {name : String} {address : Word} :
    assembly.lookup name = some address ↔ (name, address) ∈ assembly.symbols := by
  rw [Assembly.lookup, Option.map_eq_some_iff]
  constructor
  · intro h
    obtain ⟨⟨name', address'⟩, hfind, rfl⟩ := h
    have hname : name' = name := by simpa using List.find?_some hfind
    exact hname ▸ List.mem_of_find?_eq_some hfind
  · intro hmem
    have hsome : (assembly.symbols.find? (·.1 = name)).isSome := List.find?_isSome.2 ⟨_, hmem, by simp⟩
    obtain ⟨found, hfind⟩ := Option.isSome_iff_exists.1 hsome
    have hname : found.1 = name := by simpa using List.find?_some hfind
    have hsame := List.inj_on_of_nodup_map hdistinct (List.mem_of_find?_eq_some hfind) hmem hname
    exact ⟨found, hfind, congrArg Prod.snd hsame⟩

/-- **The list of names is an index of the source text.** It has one entry for each name that the lines bind and no
other, with different texts, sorted by address and then by text. Every address lies within the image or right behind it,
a label has its own address and an alias that of the name it stands for, and a name is found exactly with the address
that the list has for it. -/
theorem assembly_indexes_bindings (source : String) (mount : Word) (assembly : Assembly)
    (h : assemble source mount = .ok assembly) :
    ∃ statements,
      List.Forall₂ (fun text statement => Statement.parse text = .ok statement) (Text.lines source) statements ∧
      assembly.Indexes mount (tableOf (lay Space.initial mount.toNat statements)) := by
  obtain ⟨draft, statements, hdraft, hlink, hparses, hfollows⟩ := exists_follows_of_assemble h
  obtain ⟨hcheck, -, -, hsymbols⟩ := Draft.link_eq_ok hlink
  have hnames := Draft.isSegmentName_of_ofLines hdraft
  have hmem : ∀ {text address}, (text, address) ∈ assembly.symbols ↔
      ∃ binding ∈ tableOf (lay Space.initial mount.toNat statements), Route.text binding.1 = text ∧
        Leads (tableOf (lay Space.initial mount.toNat statements)) binding.1 address.toNat := by
    intro text address
    rw [hsymbols]
    exact hfollows.mem_symbolList_iff hcheck
  have hcomplete : (assembly.symbols.map (·.1)).Perm
      ((tableOf (lay Space.initial mount.toNat statements)).map fun binding => Route.text binding.1) := by
    rw [hsymbols, Draft.symbolList_eq, ← hfollows.map_fst_foundSymbols hcheck]
    exact (List.mergeSort_perm _ _).map _
  have hdistinct := hcomplete.nodup_iff.2 (hfollows.nodup_texts hnames)
  have hlength := (hfollows.holds_bytes hlink).length_eq
  refine ⟨statements, hparses, {
    complete := hcomplete
    distinct := hdistinct
    sorted := ?_
    within := ?_
    labels := ?_
    aliases := ?_
    lookup := fun _ _ => Assembly.lookup_eq_some_iff hdistinct }⟩
  · have hordered : assembly.symbols.Pairwise fun x y => Draft.symbolKey x ≤ Draft.symbolKey y := by
      rw [hsymbols]
      exact draft.pairwise_symbolList
    exact hordered.imp₂ (fun _ _ => Draft.symbolKey_lt) (List.pairwise_map.1 hdistinct)
  · intro symbol hsymbol
    obtain ⟨binding, -, -, hleads⟩ := hmem.1 hsymbol
    obtain ⟨label, hlabel⟩ := hleads.exists_label
    have hwithin := within_of_mem_tableOf hlabel
    have hword := symbol.2.toNat_lt
    rw [hlength] at hwithin
    exact ⟨hwithin.1, hwithin.2, by omega⟩
  · intro route value hbinding
    -- the entry of a label holds a word, which is the address that the layout gives it
    obtain ⟨⟨name, binding, number⟩, -, -, hmeans⟩ := InStep.exists_left hfollows.bound hbinding
    cases hmeans with
    | address word => exact ⟨word, rfl, hmem.2 ⟨_, hbinding, rfl, .address hbinding⟩⟩
  · intro route target hbinding
    obtain ⟨entry, hentry, hspells, -⟩ := InStep.exists_left hfollows.bound hbinding
    obtain ⟨address, hresolve⟩ := Draft.exists_resolve_of_checkEntry hfollows.once hentry (hcheck entry hentry)
    have hleads := LabelTable.leads_of_resolve hfollows.bound hspells hresolve
    have htarget := hleads.target (LabelTable.nodup_of_once hfollows.distinct hfollows.once hfollows.bound) hbinding
    obtain ⟨meaning, hbound⟩ := htarget.exists_mem
    exact ⟨address, hmem.2 ⟨_, hbinding, rfl, hleads⟩, hmem.2 ⟨_, hbound, rfl, htarget⟩⟩

/-- two private namespaces of one name, each with a label `x`, and a public name for the second label -/
def twinLabels : String :=
  "private namespace s\n.x\ndat 1\nnamespace pop\nprivate namespace s\n.x\nexport x as y\nnamespace pop"

theorem twinLabels_are_indexed :
    ∃ assembly, assemble twinLabels 0x10 = .ok assembly ∧
      assembly.symbols = [("s#0.x", 0x10), ("s#1.x", 0x11), ("y", 0x11)] ∧ assembly.lookup "s#1.x" = some 0x11 ∧
      ∃ statements, assembly.Indexes 0x10 (tableOf (lay Space.initial 0x10 statements)) := by
  have hbytes : (assemble twinLabels 0x10).map (·.bytes) = .ok [1] := by decide +kernel
  have hfound : (Draft.ofLines (Text.lines twinLabels) 0x10).map (·.foundSymbols) =
      .ok [("s#0.x", 0x10), ("s#1.x", 0x11), ("y", 0x11)] := by decide +kernel
  obtain ⟨assembly, h, -⟩ := Attempt.map_eq_ok_iff.1 hbytes
  obtain ⟨draft, hdraft, hlink⟩ := Attempt.bind_eq_ok_iff.1 h
  have hsymbols : assembly.symbols = [("s#0.x", 0x10), ("s#1.x", 0x11), ("y", 0x11)] := by
    rw [hdraft] at hfound
    have hfound : draft.foundSymbols = _ := Except.ok.inj hfound
    rw [(Draft.link_eq_ok hlink).2.2.2, Draft.symbolList_eq, hfound]
    exact List.mergeSort_of_pairwise (by decide)
  obtain ⟨statements, -, hindexes⟩ := assembly_indexes_bindings twinLabels 0x10 assembly h
  have hlookup : assembly.lookup "s#1.x" = some 0x11 := by
    rw [hindexes.lookup, hsymbols]
    decide
  exact ⟨assembly, h, hsymbols, hlookup, statements, hindexes⟩

end ByteMachine
