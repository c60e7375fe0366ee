/-
The two stores of an interner. Its map and its array of names are inverse to each other (`Interner.Inverse`): a name has
a number iff the number has the name. Each name that is shown keeps this as long as there is a number left for it, so it
holds of every interner that fewer than 2 ^ 32 names were shown to. Then the map finds what a search through the array
would find, and the interner does what a symbol table does.

- `Inverse.intern`, `inverse_ofNames`: one name, and any number of them.
- `resolve?_intern`, `resolve?_internAll`: the number of a name leads back to it, and still does later.
- `Inverse.intern_eq`, `table_ofNames`: the interner as a symbol table.
-/
import Mathlib.Tactic
import ByteMachine.Proofs.Layout.Names
import ByteMachine.Scope.Interner

namespace ByteMachine

def Symbol.number (symbol : Symbol) : UInt32 := UInt32.ofNat symbol.index

/-- the table of names that were shown one after the other, and nothing else -/
def SymbolTable.ofNames (shown : List String) : SymbolTable := (empty.internAll shown).2

namespace Interner

/-- the interner that these names were shown to, one after the other, and nothing else -/
def ofNames (shown : List String) : Interner := empty.internAll shown

/-- the number that a name is given when it is shown after others -/
def idAfter (shown : List String) (name : String) : UInt32 := ((ofNames shown).intern name).1

/-- the map and the array are inverse to each other, and no two names share a number -/
structure Inverse (interner : Interner) : Prop where
  size_le : interner.names.size ≤ 2 ^ 32
  ids_iff : ∀ name id, interner.ids[name]? = some id ↔ interner.resolve? id = some name

variable {interner : Interner} {name : String} {id : UInt32} {shown more : List String}

theorem toNat_ofNat {n : Nat} (h : n < 2 ^ 32) : (UInt32.ofNat n).toNat = n := by
  rw [UInt32.toNat_ofNat', Nat.mod_eq_of_lt h]

/-! ## One name -/

theorem intern_of_some (h : interner.ids[name]? = some id) : interner.intern name = (id, interner) := by
  rw [intern, h]

theorem intern_of_none (h : interner.ids[name]? = none) :
    interner.intern name = (UInt32.ofNat interner.names.size,
      ⟨interner.names.push name, interner.ids.insert name (UInt32.ofNat interner.names.size)⟩) := by
  rw [intern, h]

/-- the map has the name from now on -/
theorem ids_intern (interner : Interner) (name : String) :
    (interner.intern name).2.ids[name]? = some (interner.intern name).1 := by
  cases h : interner.ids[name]? with
  | some id => rw [intern_of_some h, h]
  | none => rw [intern_of_none h, Std.HashMap.getElem?_insert_self]

/-- there is at most one name more -/
theorem size_intern_le (interner : Interner) (name : String) :
    (interner.intern name).2.names.size ≤ interner.names.size + 1 := by
  cases h : interner.ids[name]? with
  | some id =>
    rw [intern_of_some h]
    exact Nat.le_succ _
  | none => rw [intern_of_none h, Array.size_push]

/-- a number that has a name keeps it -/
theorem resolve?_mono (h : interner.resolve? id = some name) (shown : String) :
    (interner.intern shown).2.resolve? id = some name := by
  cases hshown : interner.ids[shown]? with
  | some _ => rwa [intern_of_some hshown]
  | none =>
    obtain ⟨hid, -⟩ := Array.getElem?_eq_some_iff.1 h
    rw [intern_of_none hshown, resolve?, Array.getElem?_push_lt hid, ← Array.getElem?_eq_getElem hid]
    exact h

/-- **A name that is shown keeps the stores inverse to each other,** as long as there is a number for it. -/
theorem Inverse.intern (h : interner.Inverse) (hroom : interner.names.size < 2 ^ 32) (shown : String) :
    (interner.intern shown).2.Inverse := by
  cases hshown : interner.ids[shown]? with
  | some _ => rwa [intern_of_some hshown]
  | none =>
    have hnew := toNat_ofNat hroom
    rw [intern_of_none hshown]
    refine ⟨by rwa [Array.size_push, Nat.succ_le_iff], fun name id => ?_⟩
    rw [Std.HashMap.getElem?_insert, resolve?, Array.getElem?_push]
    have hid : id.toNat = interner.names.size ↔ UInt32.ofNat interner.names.size = id := by
      rw [← UInt32.toNat_inj, hnew, eq_comm]
    have hold := h.ids_iff name id
    rw [resolve?] at hold
    by_cases hname : shown = name
    · -- no number had the new name
      have hnone : interner.names[id.toNat]? ≠ some name := by
        rw [ne_eq, ← hold, ← hname, hshown]
        exact nofun
      simp [hname, hid, hnone]
    · -- the new number had no name
      have hother : (if id.toNat = interner.names.size then some shown else interner.names[id.toNat]?) = some name ↔
          interner.names[id.toNat]? = some name := by
        split_ifs with hsize
        · rw [hsize, Array.getElem?_size]
          simp [hname]
        · rfl
      simp [hname, hold, hother]

theorem Inverse.resolve?_intern (h : interner.Inverse) (hroom : interner.names.size < 2 ^ 32) (name : String) :
    (interner.intern name).2.resolve? (interner.intern name).1 = some name :=
  ((h.intern hroom name).ids_iff _ _).1 (interner.ids_intern name)

/-! ## Names in a row -/

theorem size_internAll_le (interner : Interner) (names : List String) :
    (interner.internAll names).names.size ≤ interner.names.size + names.length := by
  induction names generalizing interner with
  | nil => exact le_rfl
  | cons name names ih =>
    have hname := interner.size_intern_le name
    have hnames := ih (interner.intern name).2
    rw [internAll, List.length_cons]
    omega

theorem Inverse.internAll (h : interner.Inverse) (hroom : interner.names.size + more.length ≤ 2 ^ 32) :
    (interner.internAll more).Inverse := by
  induction more generalizing interner with
  | nil => exact h
  | cons name more ih =>
    rw [List.length_cons] at hroom
    have hsize := interner.size_intern_le name
    exact ih (h.intern (by omega) name) (by omega)

theorem resolve?_internAll (h : interner.resolve? id = some name) (more : List String) :
    (interner.internAll more).resolve? id = some name := by
  induction more generalizing interner with
  | nil => exact h
  | cons shown more ih => exact ih (resolve?_mono h shown)

theorem internAll_append (interner : Interner) (names more : List String) :
    interner.internAll (names ++ more) = (interner.internAll names).internAll more := by
  induction names generalizing interner with
  | nil => rfl
  | cons name names ih => exact ih _

theorem inverse_empty : empty.Inverse := by
  refine ⟨Nat.zero_le _, fun name id => ?_⟩
  simp [empty, resolve?]

theorem size_ofNames_le (shown : List String) : (ofNames shown).names.size ≤ shown.length := by
  have hsize := empty.size_internAll_le shown
  rwa [show empty.names.size = 0 from rfl, Nat.zero_add] at hsize

/-- **The stores are inverse to each other** in every interner that no more names were shown to than there are numbers. -/
theorem inverse_ofNames (hfew : shown.length ≤ 2 ^ 32) : (ofNames shown).Inverse :=
  inverse_empty.internAll (by rwa [show empty.names.size = 0 from rfl, Nat.zero_add])

/-- the number that a name was given leads back to it, whatever was shown since -/
theorem resolve?_idAfter (hfew : shown.length < 2 ^ 32) (name : String) (later : List String) :
    (ofNames (shown ++ name :: later)).resolve? (idAfter shown name) = some name := by
  have hroom := (size_ofNames_le shown).trans_lt hfew
  rw [ofNames, internAll_append]
  exact resolve?_internAll ((inverse_ofNames hfew.le).resolve?_intern hroom name) later

/-- two names are given one number only if they are one name -/
theorem idAfter_eq_iff {later : List String} {x y : String} (hfew : (shown ++ x :: later).length < 2 ^ 32) :
    idAfter shown x = idAfter (shown ++ x :: later) y ↔ x = y := by
  have hbefore : shown.length < 2 ^ 32 := by
    rw [List.length_append] at hfew
    omega
  have hx := resolve?_idAfter hbefore x later
  constructor
  · intro hid
    have hy := resolve?_idAfter hfew y []
    rw [← hid, ofNames, internAll_append] at hy
    exact Option.some.inj ((resolve?_internAll hx [y]).symm.trans hy)
  · rintro rfl
    -- the map still has the name
    have hfound := ((inverse_ofNames hfew.le).ids_iff _ _).2 hx
    exact (congrArg Prod.fst (intern_of_some hfound)).symm

/-! ## The names without the map -/

namespace Inverse

theorem distinct (h : interner.Inverse) : interner.table.Distinct := by
  have hnumber : ∀ i (hi : i < interner.names.toList.length),
      interner.ids[interner.names.toList[i]]? = some (UInt32.ofNat i) := by
    intro i hi
    have hlt : i < 2 ^ 32 := hi.trans_le h.size_le
    rw [h.ids_iff, resolve?, toNat_ofNat hlt, ← Array.getElem?_toList, List.getElem?_eq_getElem hi]
  refine List.nodup_iff_injective_getElem.2 fun i j hij => Fin.ext ?_
  have hsame : some (UInt32.ofNat i.1) = some (UInt32.ofNat j.1) := by
    rw [← hnumber i i.2, ← hnumber j j.2]
    exact congrArg (interner.ids[·]?) hij
  have hnat := congrArg UInt32.toNat (Option.some.inj hsame)
  rwa [toNat_ofNat (i.2.trans_le h.size_le), toNat_ofNat (j.2.trans_le h.size_le)] at hnat

theorem names_iff (h : interner.Inverse) (symbol : Symbol) :
    interner.table.Names symbol name ↔
      symbol.index < 2 ^ 32 ∧ interner.ids[name]? = some symbol.number := by
  have hnames : interner.table.Names symbol name ↔ interner.names[symbol.index]? = some name := by
    rw [SymbolTable.Names, table, Array.getElem?_toList]
  constructor
  · intro hname
    obtain ⟨hindex, -⟩ := Array.getElem?_eq_some_iff.1 (hnames.1 hname)
    have hlt := hindex.trans_le h.size_le
    rw [h.ids_iff, resolve?, Symbol.number, toNat_ofNat hlt]
    exact ⟨hlt, hnames.1 hname⟩
  · rintro ⟨hlt, hid⟩
    rw [h.ids_iff, resolve?, Symbol.number, toNat_ofNat hlt] at hid
    exact hnames.2 hid

/-- **The interner does what its symbol table does:** it finds the same number, and has the same names afterwards. -/
theorem intern_eq (h : interner.Inverse) (name : String) :
    (interner.intern name).1 = (interner.table.intern name).1.number ∧
      (interner.intern name).2.table = (interner.table.intern name).2 := by
  cases hid : interner.ids[name]? with
  | some id =>
    have hsymbol : (⟨id.toNat⟩ : Symbol).number = id := UInt32.ofNat_toNat
    have hnames : interner.table.Names ⟨id.toNat⟩ name := (h.names_iff _).2 ⟨id.toNat_lt, by rw [hid, hsymbol]⟩
    rw [intern_of_some hid, SymbolTable.intern_of_names h.distinct hnames]
    exact ⟨hsymbol.symm, rfl⟩
  | none =>
    have hnew : interner.names.findIdx? (· = name) = none := by
      rw [Array.findIdx?_eq_none_iff]
      intro other hother
      obtain ⟨i, hi⟩ := List.mem_iff_getElem?.1 (Array.mem_toList_iff.2 hother)
      have hnumber := (h.names_iff ⟨i⟩).1 hi
      refine decide_eq_false fun hname => ?_
      rw [← hname, hnumber.2] at hid
      cases hid
    rw [intern_of_none hid, SymbolTable.intern, table, hnew]
    exact ⟨rfl, rfl⟩

end Inverse

theorem table_internAll (h : interner.Inverse) (hroom : interner.names.size + more.length ≤ 2 ^ 32) :
    (interner.internAll more).table = (interner.table.internAll more).2 := by
  induction more generalizing interner with
  | nil => rfl
  | cons name more ih =>
    rw [List.length_cons] at hroom
    have hsize := interner.size_intern_le name
    have hrest := ih (h.intern (by omega) name) (by omega)
    rw [(h.intern_eq name).2] at hrest
    exact hrest

theorem table_ofNames (hfew : shown.length ≤ 2 ^ 32) : (ofNames shown).table = SymbolTable.ofNames shown :=
  table_internAll inverse_empty (by rwa [show empty.names.size = 0 from rfl, Nat.zero_add])

end Interner

end ByteMachine
