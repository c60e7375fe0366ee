/-
The map and the array of the label store stay in step: the array has every name of the map once, and no other
(`LabelStore.Coherent`). A definition keeps this whether it is accepted or refused, so it holds after any definitions.
Together the two stores are then a label table, and each operation does what the operation of the table does.

- `Coherent.define`, `coherent_defineAll`: one definition, and any number of them.
- `Coherent.find?_table`, `Coherent.define_eq`, `Coherent.resolve_eq`, `table_defineAll`: the stores as a table.
- `definitions_only_add`: the history of every store that definitions build.
-/
import Mathlib.Tactic
import ByteMachine.LabelStore
import ByteMachine.Proofs.Aliases.History

namespace ByteMachine

open LabelTable (Entry)

/-- what a call of `define` is to bind its name to -/
def LabelTable.Entry.bound (call : Entry) : LabelStore.Bound := ⟨call.binding, call.line⟩

namespace LabelStore

/-- the definitions that are accepted, in order -/
def accepted (store : LabelStore) : List Entry → List Entry
  | [] => []
  | call :: calls =>
    match store.define call.name call.binding call.line with
    | (true, next) => call :: next.accepted calls
    | (false, next) => next.accepted calls

/-- the array has the names of the map, each of them once -/
structure Coherent (store : LabelStore) : Prop where
  once : store.order.toList.Nodup
  mem_order_iff : ∀ name, name ∈ store.order.toList ↔ name ∈ store.entries

/-- what a store holds that is made by these definitions -/
structure Records (store : LabelStore) (calls : List Entry) : Prop where
  coherent : store.Coherent
  /-- a further definition is accepted iff its name is not bound, which no definition was for -/
  define_iff : ∀ name binding line, ((store.define name binding line).1 = true ↔ store.get? name = none) ∧
    (store.get? name = none ↔ ∀ call ∈ calls, call.name ≠ name)
  /-- a refused definition changes neither of the two stores -/
  refused : ∀ name binding line, (store.define name binding line).1 = false → (store.define name binding line).2 = store
  /-- a name is found with its first definition, which is the first that was accepted for it -/
  get?_eq : ∀ name, store.get? name = (calls.find? (·.name = name)).map Entry.bound ∧
    store.get? name = ((empty.accepted calls).find? (·.name = name)).map Entry.bound
  /-- the accepted definitions are listed in their order -/
  iter_eq : store.iter = (empty.accepted calls).map fun call => (call.name, call.bound)
  once : ((empty.accepted calls).map (·.name)).Nodup
  len_eq : store.len = (empty.accepted calls).length
  /-- the two stores are the table that the same definitions make -/
  table_eq : store.table = LabelTable.empty.defineAll calls

variable {store : LabelStore} {name : Path} {binding : Binding} {line : Nat} {calls more : List Entry}

/-! ## One definition -/

theorem define_of_mem (h : name ∈ store.entries) : store.define name binding line = (false, store) := by
  rw [define, if_pos (Std.HashMap.contains_iff_mem.2 h)]

theorem define_of_not_mem (h : name ∉ store.entries) :
    store.define name binding line =
      (true, ⟨store.entries.insert name ⟨binding, line⟩, store.order.push name⟩) := by
  rw [define, if_neg (by rwa [Std.HashMap.contains_iff_mem])]

theorem get?_eq_none_iff : store.get? name = none ↔ name ∉ store.entries := by
  rw [get?, ← Option.not_isSome_iff_eq_none, ← Std.HashMap.mem_iff_isSome_getElem?]

/-- a definition is accepted iff its name is not bound -/
theorem define_iff : (store.define name binding line).1 = true ↔ store.get? name = none := by
  rw [get?_eq_none_iff]
  by_cases h : name ∈ store.entries
  · rw [define_of_mem h]
    exact iff_of_false nofun (not_not_intro h)
  · rw [define_of_not_mem h]
    exact iff_of_true rfl h

theorem store_of_refused (h : (store.define name binding line).1 = false) :
    (store.define name binding line).2 = store := by
  by_cases hmem : name ∈ store.entries
  · rw [define_of_mem hmem]
  · rw [define_of_not_mem hmem] at h
    cases h

/-- **A definition keeps the stores in step.** -/
theorem Coherent.define (h : store.Coherent) (name : Path) (binding : Binding) (line : Nat) :
    (store.define name binding line).2.Coherent := by
  by_cases hmem : name ∈ store.entries
  · rwa [define_of_mem hmem]
  · have hnew : name ∉ store.order.toList := by rwa [h.mem_order_iff]
    rw [define_of_not_mem hmem]
    constructor
    · rw [Array.toList_push]
      exact h.once.append (List.nodup_singleton _) (List.disjoint_singleton.2 hnew)
    · intro other
      rw [Array.toList_push, List.mem_append, List.mem_singleton, h.mem_order_iff, Std.HashMap.mem_insert, beq_iff_eq,
        or_comm, eq_comm]

theorem coherent_empty : empty.Coherent := ⟨List.nodup_nil, fun name => by simp [empty]⟩

/-- **The stores are in step after any definitions.** -/
theorem coherent_defineAll (h : store.Coherent) (calls : List Entry) : (store.defineAll calls).Coherent := by
  induction calls generalizing store with
  | nil => exact h
  | cons call calls ih => exact ih (h.define _ _ _)

theorem defineAll_append (store : LabelStore) (calls more : List Entry) :
    store.defineAll (calls ++ more) = (store.defineAll calls).defineAll more := by
  induction calls generalizing store with
  | nil => rfl
  | cons call calls ih => exact ih _

/-! ## The stores as a table -/

theorem entries_table (store : LabelStore) :
    store.table.entries.toList = store.iter.map fun (name, bound) => bound.named name :=
  List.toList_toArray

/-- every name of the array is found in the map, so the listing leaves none out -/
theorem Coherent.names_iter (h : store.Coherent) : store.iter.map Prod.fst = store.order.toList := by
  rw [iter, List.map_filterMap]
  conv_rhs => rw [← List.filterMap_some (l := store.order.toList)]
  refine List.filterMap_congr fun name hname => ?_
  have hbound := (h.mem_order_iff name).1 hname
  obtain ⟨bound, hget⟩ := Option.ne_none_iff_exists'.1 (mt get?_eq_none_iff.1 (not_not_intro hbound))
  rw [hget]
  rfl

theorem mem_iter_iff {bound : Bound} (h : store.Coherent) :
    (name, bound) ∈ store.iter ↔ store.get? name = some bound := by
  rw [iter, List.mem_filterMap]
  constructor
  · rintro ⟨other, -, hother⟩
    obtain ⟨found, hget, hpair⟩ := Option.map_eq_some_iff.1 hother
    cases hpair
    exact hget
  · intro hget
    refine ⟨name, (h.mem_order_iff name).2 ?_, by rw [hget, Option.map_some]⟩
    by_contra hmem
    rw [get?_eq_none_iff.2 hmem] at hget
    cases hget

theorem Coherent.once_table (h : store.Coherent) : store.table.Once := by
  have hnames : store.table.entries.toList.map (·.name) = store.order.toList := by
    rw [entries_table, List.map_map, ← h.names_iter]
    rfl
  rw [LabelTable.Once, hnames]
  exact h.once

/-- the table finds under a name what the map has for it -/
theorem Coherent.find?_table (h : store.Coherent) (name : Path) :
    store.table.find? name = (store.get? name).map (Bound.named name) := by
  have hmem : ∀ entry, entry ∈ store.table.entries.toList ↔ store.get? entry.name = some entry.bound := by
    intro entry
    rw [entries_table, List.mem_map]
    constructor
    · rintro ⟨⟨other, bound⟩, hlisted, rfl⟩
      exact (mem_iter_iff h).1 hlisted
    · intro hget
      exact ⟨_, (mem_iter_iff h).2 hget, rfl⟩
  cases hget : store.get? name with
  | some bound => exact LabelTable.find?_eq_some_of_mem h.once_table ((hmem (bound.named name)).2 hget)
  | none =>
    cases hfind : store.table.find? name with
    | none => rfl
    | some entry =>
      obtain ⟨hentry, rfl⟩ := LabelTable.mem_of_find?_eq_some hfind
      rw [(hmem entry).1 hentry] at hget
      cases hget

/-- a definition that is accepted is listed after the others -/
theorem Coherent.iter_of_not_mem (h : store.Coherent) (hmem : name ∉ store.entries) :
    (store.define name binding line).2.iter = store.iter ++ [(name, ⟨binding, line⟩)] := by
  rw [define_of_not_mem hmem, iter, iter, Array.toList_push, List.filterMap_append]
  unfold get?
  congr 1
  · refine List.filterMap_congr fun other hother => ?_
    have hne : name ≠ other := by
      rintro rfl
      exact hmem ((h.mem_order_iff _).1 hother)
    rw [Std.HashMap.getElem?_insert, if_neg (by simpa using hne)]
  · simp

/-- **A definition of the stores is one of the table:** they accept the same, and make the same of it. -/
theorem Coherent.define_eq (h : store.Coherent) (name : Path) (binding : Binding) (line : Nat) :
    store.table.define? name binding line =
      if (store.define name binding line).1 then some (store.define name binding line).2.table else none := by
  rw [LabelTable.define?, h.find?_table]
  by_cases hmem : name ∈ store.entries
  · obtain ⟨bound, hget⟩ := Option.ne_none_iff_exists'.1 (mt get?_eq_none_iff.1 (not_not_intro hmem))
    rw [define_of_mem hmem, hget]
    rfl
  · have hiter := @Coherent.iter_of_not_mem store name binding line h hmem
    rw [get?_eq_none_iff.2 hmem, define_iff.2 (get?_eq_none_iff.2 hmem), if_pos rfl, table, table, hiter]
    simp [Bound.named]

theorem Coherent.table_define (h : store.Coherent) (name : Path) (binding : Binding) (line : Nat) :
    (store.define name binding line).2.table = (store.table.define? name binding line).getD store.table := by
  rw [h.define_eq]
  cases haccepted : (store.define name binding line).1 with
  | true => rfl
  | false => rw [store_of_refused haccepted]; rfl

theorem table_defineAll (h : store.Coherent) (calls : List Entry) :
    (store.defineAll calls).table = store.table.defineAll calls := by
  induction calls generalizing store with
  | nil => rfl
  | cons call calls ih => rw [defineAll, ih (h.define _ _ _), h.table_define, LabelTable.defineAll]

theorem accepted_eq (h : store.Coherent) (calls : List Entry) :
    store.accepted calls = store.table.accepted calls := by
  induction calls generalizing store with
  | nil => rfl
  | cons call calls ih =>
    have hnext := ih (h.define call.name call.binding call.line)
    rw [accepted, LabelTable.accepted, h.define_eq]
    cases hdefine : store.define call.name call.binding call.line with
    | mk done next =>
      rw [hdefine] at hnext
      cases done with
      | true => exact congrArg (call :: ·) hnext
      | false =>
        have hsame : next = store := by
          have hrefused := @store_of_refused store call.name call.binding call.line (by rw [hdefine])
          rwa [hdefine] at hrefused
        rw [hsame] at hnext ⊢
        exact hnext

theorem Coherent.len_eq (h : store.Coherent) : store.len = store.table.size := by
  rw [len, LabelTable.size, ← Array.length_toList, ← Array.length_toList, entries_table, List.length_map,
    ← List.length_map Prod.fst, h.names_iter]

/-- **Names lead where they lead in the table.** -/
theorem Coherent.resolve_eq (h : store.Coherent) (start : Path) : store.resolve start = store.table.resolve start := by
  have hbinding : (fun name => (store.get? name).map (·.binding)) = store.table.binding? := by
    funext name
    rw [LabelTable.binding?, h.find?_table, Option.map_map]
    rfl
  rw [resolve, LabelTable.resolve, hbinding, h.len_eq]

/-! ## Definitions in a row -/

theorem iter_eq_entries (store : LabelStore) :
    store.iter = store.table.entries.toList.map fun entry => (entry.name, entry.bound) := by
  rw [entries_table, List.map_map]
  exact (List.map_id _).symm

theorem records_defineAll (calls : List Entry) : (empty.defineAll calls).Records calls := by
  have hcoherent := coherent_defineAll coherent_empty calls
  have htable : (empty.defineAll calls).table = LabelTable.empty.defineAll calls := table_defineAll coherent_empty calls
  have haccepted : empty.accepted calls = LabelTable.empty.accepted calls := accepted_eq coherent_empty calls
  have hentries : (empty.defineAll calls).table.entries.toList = empty.accepted calls := by
    rw [htable, haccepted]
    exact LabelTable.entries_defineAll LabelTable.empty calls
  have hget : ∀ name, (empty.defineAll calls).get? name =
      ((empty.defineAll calls).table.find? name).map Entry.bound := by
    intro name
    rw [hcoherent.find?_table, Option.map_map]
    exact Option.map_id'.symm
  have hfirst : ∀ name, (empty.defineAll calls).get? name = (calls.find? (·.name = name)).map Entry.bound := by
    intro name
    rw [hget, htable, LabelTable.find?_defineAll]
    rfl
  refine ⟨hcoherent, fun name binding line => ⟨define_iff, ?_⟩, fun _ _ _ => store_of_refused,
    fun name => ⟨hfirst name, ?_⟩, ?_, ?_, ?_, htable⟩
  · rw [hfirst]
    simp
  · rw [hget, LabelTable.find?, ← Array.find?_toList, hentries]
  · rw [iter_eq_entries, hentries]
  · rw [← hentries]
    exact hcoherent.once_table
  · rw [hcoherent.len_eq, LabelTable.size, ← Array.length_toList, hentries]

/-- **The label store is append-only.** Whatever definitions came before, the map and the array have the same names; a
definition is accepted iff its name was not bound, and changes nothing if it is refused; a name is found with its first
definition; the accepted definitions are listed once each, in their order, and their number is the length. Further
definitions change what a name resolves to iff that was a missing name and one of them binds it. -/
theorem definitions_only_add (calls : List Entry) :
    (empty.defineAll calls).Records calls ∧
      ∀ more start, (empty.defineAll (calls ++ more)).resolve start ≠ (empty.defineAll calls).resolve start ↔
        ∃ call ∈ more, (empty.defineAll calls).resolve start = .error (.missing call.name) := by
  refine ⟨records_defineAll calls, fun more start => ?_⟩
  have hcoherent := coherent_defineAll coherent_empty calls
  rw [defineAll_append, (coherent_defineAll hcoherent more).resolve_eq, hcoherent.resolve_eq,
    table_defineAll hcoherent more, LabelTable.resolve_ne_iff (LabelTable.keeps_defineAll _ more)]
  constructor
  · rintro ⟨last, hmissing, hbound⟩
    have hunbound := (LabelTable.resolve_eq_iff.1 hmissing).2
    obtain ⟨call, hcall, rfl⟩ := (LabelTable.binding?_defineAll_ne_none_iff hunbound).1 hbound
    exact ⟨call, hcall, hmissing⟩
  · rintro ⟨call, hcall, hmissing⟩
    have hunbound := (LabelTable.resolve_eq_iff.1 hmissing).2
    exact ⟨call.name, hmissing, (LabelTable.binding?_defineAll_ne_none_iff hunbound).2 ⟨call, hcall, rfl⟩⟩

/-- an alias of a name that is not bound, and a second definition of it -/
def pendingAlias : List Entry :=
  [⟨LabelTable.single 1, .aliasOf (LabelTable.single 2), 1⟩, ⟨LabelTable.single 1, .address 5, 2⟩]

theorem pendingAlias_waits :
    (empty.defineAll pendingAlias).get? (LabelTable.single 1) = some ⟨.aliasOf (LabelTable.single 2), 1⟩ ∧
      ((empty.defineAll pendingAlias).define (LabelTable.single 1) (.address 6) 3).1 = false ∧
      (empty.defineAll pendingAlias).resolve (LabelTable.single 1) = .error (.missing (LabelTable.single 2)) ∧
      (empty.defineAll (pendingAlias ++ [⟨LabelTable.single 2, .address 7, 4⟩])).resolve (LabelTable.single 1) ≠
        .error (.missing (LabelTable.single 2)) := by
  obtain ⟨hrecords, hresolve⟩ := definitions_only_add pendingAlias
  have hget : (empty.defineAll pendingAlias).get? (LabelTable.single 1) = some ⟨.aliasOf (LabelTable.single 2), 1⟩ :=
    (hrecords.get?_eq _).1
  have hmissing : (empty.defineAll pendingAlias).resolve (LabelTable.single 1) =
      .error (.missing (LabelTable.single 2)) := by
    rw [hrecords.coherent.resolve_eq, hrecords.table_eq]
    decide
  have hrefused : ((empty.defineAll pendingAlias).define (LabelTable.single 1) (.address 6) 3).1 = false := by
    rw [← Bool.not_eq_true, (hrecords.define_iff _ _ _).1, hget]
    exact nofun
  refine ⟨hget, hrefused, hmissing, ?_⟩
  rw [← hmissing]
  exact (hresolve [⟨LabelTable.single 2, .address 7, 4⟩] _).2 ⟨_, List.mem_singleton_self _, hmissing⟩

end LabelStore

end ByteMachine
