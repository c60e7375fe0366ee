/-
Where a name leads. Aliases make a chain of names (`LabelTable.target?`), and the walk that resolves a name goes along
this chain. The names it has met are bound and different, so it takes at most one turn more than there are names in the
table, and the bound that it is given is never what ends it.

- `Trail.follow_spec`: what the walk comes to from any point on its way, and in how many turns.
- `resolve_eq_iff`: a name resolves to what its chain comes to, and to nothing else.
- `resolve_follows_aliases`: addresses, missing names and cycles, for every table that definitions build.
-/
import Mathlib.Tactic
import ByteMachine.Proofs.Aliases.Chain
import ByteMachine.Proofs.Layout.Correspondence

namespace ByteMachine.LabelTable

/-! ## Chains of aliases -/

/-- the name that a name is an alias of -/
def target? (table : LabelTable) (name : Path) : Option Path :=
  match table.binding? name with
  | some (.aliasOf target) => some target
  | _ => none

/-- what the chain of a name comes to: a name that is bound to an address, a name that is not bound, or no end at all -/
def ComesTo (table : LabelTable) (name : Path) : Except Unresolved Word → Prop
  | .ok value => ∃ last, Chain.Reaches table.target? name last ∧ table.binding? last = some (.address value)
  | .error (.missing last) => Chain.Reaches table.target? name last ∧ table.binding? last = none
  | .error (.cycle again) => Chain.Endless table.target? name ∧ Chain.FirstTwice table.target? name again

/-- the walk that has met some names and stands at one, turn by turn and without a bound: how many turns it takes, and
how it ends -/
inductive Walks (table : LabelTable) : List Path → Path → Nat → Except Unresolved Word → Prop
  | again {visited : List Path} {name : Path} : name ∈ visited → Walks table visited name 1 (.error (.cycle name))
  | missing {visited : List Path} {name : Path} :
      name ∉ visited → table.binding? name = none → Walks table visited name 1 (.error (.missing name))
  | address {visited : List Path} {name : Path} {value : Word} :
      name ∉ visited → table.binding? name = some (.address value) → Walks table visited name 1 (.ok value)
  | aliasOf {visited : List Path} {name target : Path} {turns : Nat} {result : Except Unresolved Word} :
      name ∉ visited → table.binding? name = some (.aliasOf target) →
        Walks table (name :: visited) target turns result → Walks table visited name (turns + 1) result

/-- the table after definitions in order; one that is refused changes nothing -/
def defineAll (table : LabelTable) : List Entry → LabelTable
  | [] => table
  | entry :: entries => ((table.define? entry.name entry.binding entry.line).getD table).defineAll entries

/-- the tables have the same bindings, in whatever order and from whatever lines -/
def SameBindings (table other : LabelTable) : Prop :=
  ∀ name binding, (∃ line, ⟨name, binding, line⟩ ∈ table.entries.toList) ↔
    ∃ line, ⟨name, binding, line⟩ ∈ other.entries.toList

variable {table other : LabelTable} {start name last : Path} {visited : List Path} {fuel turns : Nat}
  {result : Except Unresolved Word}

theorem target?_of_aliasOf {target : Path} (h : table.binding? name = some (.aliasOf target)) :
    table.target? name = some target := by
  rw [target?, h]

theorem target?_of_address {value : Word} (h : table.binding? name = some (.address value)) :
    table.target? name = none := by
  rw [target?, h]

theorem target?_of_unbound (h : table.binding? name = none) : table.target? name = none := by
  rw [target?, h]

/-- a chain comes to one thing only -/
theorem ComesTo.unique {first second : Except Unresolved Word} (h : table.ComesTo name first)
    (h' : table.ComesTo name second) : first = second := by
  match first, second, h, h' with
  | .ok _, .ok _, ⟨last, hreach, hvalue⟩, ⟨last', hreach', hvalue'⟩ =>
    obtain rfl := Chain.end_unique hreach hreach' (target?_of_address hvalue) (target?_of_address hvalue')
    rw [hvalue] at hvalue'
    cases hvalue'
    rfl
  | .ok _, .error (.missing _), ⟨last, hreach, hvalue⟩, ⟨hreach', hunbound⟩ =>
    obtain rfl := Chain.end_unique hreach hreach' (target?_of_address hvalue) (target?_of_unbound hunbound)
    rw [hvalue] at hunbound
    cases hunbound
  | .ok _, .error (.cycle _), ⟨last, hreach, hvalue⟩, ⟨hendless, _⟩ =>
    exact absurd hendless (Chain.not_endless_of_end hreach (target?_of_address hvalue))
  | .error (.missing _), .ok _, ⟨hreach, hunbound⟩, ⟨last, hreach', hvalue⟩ =>
    obtain rfl := Chain.end_unique hreach hreach' (target?_of_unbound hunbound) (target?_of_address hvalue)
    rw [hvalue] at hunbound
    cases hunbound
  | .error (.missing _), .error (.missing _), ⟨hreach, hunbound⟩, ⟨hreach', hunbound'⟩ =>
    rw [Chain.end_unique hreach hreach' (target?_of_unbound hunbound) (target?_of_unbound hunbound')]
  | .error (.missing _), .error (.cycle _), ⟨hreach, hunbound⟩, ⟨hendless, _⟩ =>
    exact absurd hendless (Chain.not_endless_of_end hreach (target?_of_unbound hunbound))
  | .error (.cycle _), .ok _, ⟨hendless, _⟩, ⟨last, hreach, hvalue⟩ =>
    exact absurd hendless (Chain.not_endless_of_end hreach (target?_of_address hvalue))
  | .error (.cycle _), .error (.missing _), ⟨hendless, _⟩, ⟨hreach, hunbound⟩ =>
    exact absurd hendless (Chain.not_endless_of_end hreach (target?_of_unbound hunbound))
  | .error (.cycle _), .error (.cycle _), ⟨_, hfirst⟩, ⟨_, hfirst'⟩ =>
    rw [Chain.firstTwice_unique hfirst hfirst']

/-- the walk is one only -/
theorem Walks.unique {turns' : Nat} {result' : Except Unresolved Word} (h : table.Walks visited name turns result)
    (h' : table.Walks visited name turns' result') : turns = turns' ∧ result = result' := by
  induction h generalizing turns' with
  | again hmem => cases h' with
    | again => exact ⟨rfl, rfl⟩
    | missing hfresh | address hfresh | aliasOf hfresh => exact absurd hmem hfresh
  | missing hfresh hunbound => cases h' with
    | again hmem => exact absurd hmem hfresh
    | missing => exact ⟨rfl, rfl⟩
    | address _ hbound | aliasOf _ hbound => simp [hunbound] at hbound
  | address hfresh hvalue => cases h' with
    | again hmem => exact absurd hmem hfresh
    | missing _ hbound | aliasOf _ hbound => simp [hvalue] at hbound
    | address _ hvalue' =>
      rw [hvalue] at hvalue'
      cases hvalue'
      exact ⟨rfl, rfl⟩
  | aliasOf hfresh htarget _ ih => cases h' with
    | again hmem => exact absurd hmem hfresh
    | missing _ hbound | address _ hbound => simp [htarget] at hbound
    | aliasOf _ htarget' hrest =>
      rw [htarget] at htarget'
      cases htarget'
      obtain ⟨rfl, rfl⟩ := ih hrest
      exact ⟨rfl, rfl⟩

/-! ## The walk -/

/-- on the way from a start the walk has met some names, the last one first, and stands at a name -/
structure Trail (table : LabelTable) (start : Path) (visited : List Path) (name : Path) : Prop where
  here : Chain.after table.target? start visited.length = some name
  met : visited.reverse.map some = (List.range visited.length).map (Chain.after table.target? start)
  fresh : visited.Nodup
  bound : visited ⊆ table.entries.toList.map (·.name)

theorem trail_start (table : LabelTable) (start : Path) : table.Trail start [] start :=
  ⟨rfl, rfl, List.nodup_nil, List.nil_subset _⟩

theorem mem_names_of_binding? {binding : Binding} (h : table.binding? name = some binding) :
    name ∈ table.entries.toList.map (·.name) := by
  obtain ⟨entry, hfind, -⟩ := Option.map_eq_some_iff.1 h
  obtain ⟨hmem, rfl⟩ := mem_of_find?_eq_some hfind
  exact List.mem_map_of_mem hmem

/-- one alias further -/
theorem Trail.next (h : table.Trail start visited name) (hfresh : name ∉ visited) {target : Path}
    (htarget : table.binding? name = some (.aliasOf target)) : table.Trail start (name :: visited) target where
  here := by rw [List.length_cons, Chain.after, h.here, Option.bind_some, target?_of_aliasOf htarget]
  met := by rw [List.reverse_cons, List.map_append, h.met, List.length_cons, List.range_succ, List.map_append,
    List.map_singleton, List.map_singleton, h.here]
  fresh := List.nodup_cons.2 ⟨hfresh, h.fresh⟩
  bound := List.cons_subset.2 ⟨mem_names_of_binding? htarget, h.bound⟩

/-- different bound names are no more than the table has -/
theorem Trail.length_le (h : table.Trail start visited name) : visited.length ≤ table.size := by
  have hle := (h.fresh.subperm h.bound).length_le
  rwa [List.length_map, Array.length_toList] at hle

/-- a walk that is back at a name it has met is at the first that its chain visits twice -/
theorem Trail.firstTwice (h : table.Trail start visited name) (hmem : name ∈ visited) :
    Chain.FirstTwice table.target? start name := by
  have hback : some name ∈ (List.range visited.length).map (Chain.after table.target? start) := by
    rw [← h.met]
    exact List.mem_map_of_mem (List.mem_reverse.2 hmem)
  obtain ⟨i, hi, hname⟩ := List.mem_map.1 hback
  have hfresh : ((List.range visited.length).map (Chain.after table.target? start)).Nodup := by
    rw [← h.met]
    exact (List.nodup_reverse.2 h.fresh).map (Option.some_injective _)
  refine ⟨i, visited.length, List.mem_range.1 hi, hname, h.here, fun k l hkl hl heq => ?_⟩
  have hsame := List.inj_on_of_nodup_map hfresh (List.mem_range.2 (hkl.trans hl)) (List.mem_range.2 hl) heq
  exact absurd hsame hkl.ne

/-- **What a walk comes to.** A walk on its way is given enough turns if there is one for every name that it can still
meet and one more; then it ends as the walk without a bound does, with what the chain of its start comes to. -/
theorem Trail.follow_spec (h : table.Trail start visited name) (hfuel : table.size + 1 ≤ fuel + visited.length) :
    ∃ turns, turns + visited.length ≤ table.size + 1 ∧
      table.Walks visited name turns (follow table.binding? fuel visited name) ∧
      table.ComesTo start (follow table.binding? fuel visited name) := by
  have hlength := h.length_le
  induction fuel generalizing visited name with
  | zero => omega
  | succ fuel ih =>
    by_cases hmem : name ∈ visited
    · rw [follow, if_pos hmem]
      have hfirst := h.firstTwice hmem
      exact ⟨1, by omega, .again hmem, Chain.endless_of_firstTwice hfirst, hfirst⟩
    · rw [follow, if_neg hmem]
      have hreach : Chain.Reaches table.target? start name := ⟨visited.length, h.here⟩
      cases hbinding : table.binding? name with
      | none => exact ⟨1, by omega, .missing hmem hbinding, hreach, hbinding⟩
      | some binding =>
        cases binding with
        | address value => exact ⟨1, by omega, .address hmem hbinding, name, hreach, hbinding⟩
        | aliasOf target =>
          have hnext := h.next hmem hbinding
          have hfuel' : table.size + 1 ≤ fuel + (name :: visited).length := by
            rw [List.length_cons]
            omega
          obtain ⟨turns, hturns, hwalks, hcomes⟩ := ih hnext hfuel' hnext.length_le
          rw [List.length_cons] at hturns
          exact ⟨turns + 1, by omega, .aliasOf hmem hbinding hwalks, hcomes⟩

theorem resolve_spec (table : LabelTable) (name : Path) :
    ∃ turns ≤ table.size + 1, table.Walks [] name turns (table.resolve name) ∧
      table.ComesTo name (table.resolve name) :=
  (trail_start table name).follow_spec le_rfl

/-- **A name resolves to what its chain comes to.** -/
theorem resolve_eq_iff : table.resolve name = result ↔ table.ComesTo name result := by
  obtain ⟨-, -, -, hcomes⟩ := resolve_spec table name
  constructor
  · rintro rfl
    exact hcomes
  · exact hcomes.unique

/-! ## Tables with the same bindings -/

theorem once_define (honce : table.Once) (entry : Entry) :
    ((table.define? entry.name entry.binding entry.line).getD table).Once := by
  cases hdefine : table.define? entry.name entry.binding entry.line with
  | none => exact honce
  | some next => exact (entries_of_define? hdefine).2 honce

theorem once_defineAll (honce : table.Once) (entries : List Entry) : (table.defineAll entries).Once := by
  induction entries generalizing table with
  | nil => exact honce
  | cons entry entries ih => exact ih (once_define honce entry)

theorem binding?_eq_some_iff (honce : table.Once) {binding : Binding} :
    table.binding? name = some binding ↔ ∃ line, ⟨name, binding, line⟩ ∈ table.entries.toList := by
  constructor
  · intro h
    obtain ⟨entry, hfind, rfl⟩ := Option.map_eq_some_iff.1 h
    obtain ⟨hmem, rfl⟩ := mem_of_find?_eq_some hfind
    exact ⟨entry.line, hmem⟩
  · rintro ⟨line, hmem⟩
    have hfind := find?_eq_some_of_mem honce hmem
    rw [binding?, hfind, Option.map_some]

theorem SameBindings.binding?_eq (h : table.SameBindings other) (honce : table.Once) (honce' : other.Once) :
    table.binding? = other.binding? := by
  funext name
  apply Option.ext
  intro binding
  rw [binding?_eq_some_iff honce, binding?_eq_some_iff honce']
  exact h name binding

/-- what a name resolves to is a matter of the bindings alone -/
theorem resolve_congr (hbinding : table.binding? = other.binding?) : table.resolve = other.resolve := by
  have htarget : table.target? = other.target? := by
    funext name
    rw [target?, target?, hbinding]
  funext name
  rw [resolve_eq_iff]
  have hcomes := (@resolve_eq_iff other name _).1 rfl
  unfold ComesTo at hcomes ⊢
  rwa [htarget, hbinding]

theorem SameBindings.resolve_eq (h : table.SameBindings other) (honce : table.Once) (honce' : other.Once) :
    table.resolve = other.resolve :=
  resolve_congr (h.binding?_eq honce honce')

/-- **Names resolve along their aliases.** In a table that definitions build, a name resolves to an address if its chain
of aliases comes to a name bound to it, to a missing name if the chain comes to that unbound name, and to a cycle if the
chain has no end, and then to the first name that it visits twice. The walk ends after at most one turn more than there
are names, and the order in which the bindings were made does not matter. -/
theorem resolve_follows_aliases (calls : List Entry) (name : Path) :
    let table := empty.defineAll calls
    (∀ value, table.resolve name = .ok value ↔
      ∃ n last, Chain.after table.target? name n = some last ∧ table.binding? last = some (.address value)) ∧
    (∀ last, table.resolve name = .error (.missing last) ↔
      ∃ n, Chain.after table.target? name n = some last ∧ table.binding? last = none) ∧
    ((∃ again, table.resolve name = .error (.cycle again)) ↔ ∀ n, Chain.after table.target? name n ≠ none) ∧
    (∀ again, table.resolve name = .error (.cycle again) ↔ Chain.FirstTwice table.target? name again) ∧
    (∃ turns ≤ table.size + 1, table.Walks [] name turns (table.resolve name)) ∧
    (∀ turns result, table.Walks [] name turns result → turns ≤ table.size + 1 ∧ result = table.resolve name) ∧
    ∀ calls', table.SameBindings (empty.defineAll calls') → (empty.defineAll calls').resolve name = table.resolve name := by
  intro table
  obtain ⟨turns, hturns, hwalks, hcomes⟩ := resolve_spec table name
  refine ⟨fun value => ?_, fun last => ?_, ⟨?_, fun hendless => ?_⟩, fun again => ⟨fun h => ?_, fun h => ?_⟩,
    ⟨turns, hturns, hwalks⟩, fun turns' result hwalks' => ?_, fun calls' hsame => ?_⟩
  · rw [resolve_eq_iff]
    exact ⟨fun ⟨last, ⟨n, hn⟩, hvalue⟩ => ⟨n, last, hn, hvalue⟩, fun ⟨n, last, hn, hvalue⟩ => ⟨last, ⟨n, hn⟩, hvalue⟩⟩
  · rw [resolve_eq_iff]
    exact exists_and_right.symm
  · rintro ⟨again, h⟩
    exact (resolve_eq_iff.1 h).1
  · match hresolve : table.resolve name, hcomes with
    | .ok value, ⟨last, hreach, hvalue⟩ =>
      exact absurd hendless (Chain.not_endless_of_end hreach (target?_of_address hvalue))
    | .error (.missing last), ⟨hreach, hunbound⟩ =>
      exact absurd hendless (Chain.not_endless_of_end hreach (target?_of_unbound hunbound))
    | .error (.cycle again), _ => exact ⟨again, rfl⟩
  · exact (resolve_eq_iff.1 h).2
  · exact resolve_eq_iff.2 ⟨Chain.endless_of_firstTwice h, h⟩
  · obtain ⟨rfl, rfl⟩ := hwalks.unique hwalks'
    exact ⟨hturns, rfl⟩
  · have honce : empty.Once := List.nodup_nil
    exact congrFun (hsame.resolve_eq (once_defineAll honce calls) (once_defineAll honce calls')).symm name

def single (index : Nat) : Path := ⟨[⟨⟨index⟩, none⟩]⟩

/-- a tail of one alias, and a cycle of two that it leads into -/
def tailAndCycle : List Entry :=
  [⟨single 1, .aliasOf (single 2), 1⟩, ⟨single 2, .aliasOf (single 3), 2⟩, ⟨single 3, .aliasOf (single 2), 3⟩]

theorem tailAndCycle_resolves :
    (empty.defineAll tailAndCycle).resolve (single 1) = .error (.cycle (single 2)) ∧
      Chain.FirstTwice (empty.defineAll tailAndCycle).target? (single 1) (single 2) ∧
      (empty.defineAll tailAndCycle.reverse).resolve (single 1) = .error (.cycle (single 2)) := by
  obtain ⟨-, -, -, hcycle, -, -, horder⟩ := resolve_follows_aliases tailAndCycle (single 1)
  have hresolve : (empty.defineAll tailAndCycle).resolve (single 1) = .error (.cycle (single 2)) := by decide
  have hsame : (empty.defineAll tailAndCycle).SameBindings (empty.defineAll tailAndCycle.reverse) := by
    have hentries : (empty.defineAll tailAndCycle.reverse).entries.toList =
        (empty.defineAll tailAndCycle).entries.toList.reverse := by decide
    intro name binding
    simp only [hentries, List.mem_reverse]
  exact ⟨hresolve, (hcycle _).1 hresolve, (horder _ hsame).trans hresolve⟩

end ByteMachine.LabelTable
