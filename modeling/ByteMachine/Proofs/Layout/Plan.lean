/-
The layout that statements describe, line by line and without symbols, patches or a second reading.

A `Space` is the namespace that a line stands in, as text; a `Line` is a statement with its space and with the address of
its first byte. Each line says by itself which bindings it makes (`Line.bindings`) and which bytes it emits
(`Line.sites`), where a byte of an address is still a qualified name. The bindings of all lines together are the table
that such a name is looked up in (`Leads`), so it does not matter which line comes first.
-/
import Mathlib.Tactic
import ByteMachine.Statement

namespace ByteMachine.Layout

/-! ## Qualified names -/

/-- a namespace on the way down; one that is private has the number of its opening -/
structure Leg where
  name : String
  opening : Option Nat
  deriving DecidableEq, Repr

/-- a qualified name, from the root down -/
abbrev Route := List Leg

/-- a way down that was not opened privately -/
def plain (names : List String) : Route := names.map (⟨·, none⟩)

def Leg.text (leg : Leg) : String :=
  match leg.opening with
  | none => leg.name
  | some opening => leg.name ++ "#" ++ toString opening

def Route.text (route : Route) : String := ".".intercalate (route.map Leg.text)

/-! ## Namespaces -/

/-- the open namespaces, the one opened last first, each with the way down that its line opened, and how many private
ones were opened so far -/
structure Space where
  frames : List Route
  openings : Nat
  deriving DecidableEq, Repr

namespace Space

def anonymousName : String := "<anonymous>"

def initial : Space := ⟨[], 0⟩

/-- the namespace that is left when the last ones are closed -/
def above (space : Space) (levels : Nat) : Route := (space.frames.drop levels).reverse.flatten

def path (space : Space) : Route := space.above 0

/-- a name read from this space, or from `levels` above it -/
def qualify (space : Space) (name : Name) (levels : Nat) : Route :=
  match name.origin with
  | .root => plain name.parts
  | .above climbed => space.above (levels + climbed) ++ plain name.parts

/-- a private namespace below, which takes the next number -/
def enterPrivate (space : Space) (name : String) : Space :=
  ⟨[⟨name, some space.openings⟩] :: space.frames, space.openings + 1⟩

/-- the space that the next line stands in -/
def after (space : Space) : Statement → Space
  | .subroutine name _ => space.enterPrivate name
  | .scope (.enter name) => { space with frames := plain name.parts :: space.frames }
  | .scope (.enterPrivate name) => space.enterPrivate (name.getD anonymousName)
  | .scope .leave => { space with frames := space.frames.tail }
  | .scope (.reset path) => { space with frames := (path.parts.map fun name => plain [name]).reverse }
  | _ => space

end Space

/-! ## Bindings -/

/-- what a name is bound to -/
inductive Meaning where
  | address (value : Nat)
  | sameAs (target : Route)
  deriving DecidableEq, Repr

/-- the address that a name leads to, through as many other names as there are on the way -/
inductive Leads (table : List (Route × Meaning)) : Route → Nat → Prop
  | address {route : Route} {value : Nat} : (route, .address value) ∈ table → Leads table route value
  | sameAs {route target : Route} {value : Nat} :
      (route, .sameAs target) ∈ table → Leads table target value → Leads table route value

/-- a label that is public has a second name in the namespace with all numbers taken away, unless that is its name
already -/
def Space.publicBindings (space : Space) (name : String) : Visibility → List (Route × Meaning)
  | .concealed => []
  | .exposed newName =>
    let declared := space.path ++ plain [name]
    let shown := plain (space.path.map (·.name)) ++ plain ((newName.map (·.parts)).getD [name])
    if shown = declared then [] else [(shown, .sameAs declared)]

/-- the bindings that a statement makes where the next byte has the address -/
def Space.bindings (space : Space) (address : Nat) : Statement → List (Route × Meaning)
  | .label name visibility | .subroutine name visibility =>
    (space.path ++ plain [name], .address address) :: space.publicBindings name visibility
  | .exportName name newName =>
    [(space.above 1 ++ plain (newName.getD name).parts, .sameAs (space.path ++ plain name.parts))]
  | .useName name newName => [(space.path ++ plain (newName.getD name).parts, .sameAs (space.qualify name 1))]
  | _ => []

/-! ## Bytes -/

/-- one byte of the image: a value, or a half of the address that a name leads to -/
inductive Site where
  | byte (value : Byte)
  | half (route : Route) (half : Half)
  deriving DecidableEq, Repr

def halfOf (address : Nat) : Half → Nat
  | .low => address % 0x100
  | .high => address / 0x100

/-- the byte that stands at a site when the names are bound as in the table -/
inductive Site.Holds (table : List (Route × Meaning)) : Site → Byte → Prop
  | byte (value : Byte) : Holds table (.byte value) value
  | half {route : Route} {half : Half} {address : Nat} {value : Byte} :
      Leads table route address → value.toNat = halfOf address half → Holds table (.half route half) value

def Space.site (space : Space) : Operand → Site
  | .literal value => .byte value
  | .register r => .byte r.index
  | .address name half => .half (space.qualify name 0) half

def Space.sites (space : Space) : Statement → List Site
  | .data arguments => arguments.map fun argument => space.site argument.operand
  | .instruction op arguments => .byte op.code :: arguments.map fun argument => space.site argument.operand
  | _ => []

/-! ## Lines -/

/-- a statement where it stands: in its namespace, with the address of the next byte -/
structure Line where
  space : Space
  address : Nat
  statement : Statement
  deriving DecidableEq, Repr

def Line.bindings (line : Line) : List (Route × Meaning) := line.space.bindings line.address line.statement

def Line.sites (line : Line) : List Site := line.space.sites line.statement

def Line.declares (line : Line) : Option Route :=
  match line.statement with
  | .label name _ | .subroutine name _ => some (line.space.path ++ plain [name])
  | _ => none

/-- statements put in their places one after the other -/
def lay (space : Space) (address : Nat) : List Statement → List Line
  | [] => []
  | statement :: statements =>
    ⟨space, address, statement⟩ ::
      lay (space.after statement) (address + (space.sites statement).length) statements

def tableOf (lines : List Line) : List (Route × Meaning) := lines.flatMap Line.bindings

/-! ## Facts about the layout alone -/

/-- a line stands after the bytes of the lines before it -/
theorem address_of_lay (space : Space) (address : Nat) (statements : List Statement) (before : List Line)
    (line : Line) (after : List Line) (h : lay space address statements = before ++ line :: after) :
    line.address = address + (before.flatMap Line.sites).length := by
  induction statements generalizing space address before with
  | nil => simp [lay] at h
  | cons statement statements ih =>
    cases before with
    | nil =>
      obtain ⟨rfl, -⟩ := List.cons.inj h
      simp
    | cons first before =>
      obtain ⟨rfl, hrest⟩ := List.cons.inj h
      have hline := ih _ _ _ hrest
      rw [hline, List.flatMap_cons, List.length_append]
      exact Nat.add_assoc _ _ _

theorem mem_bindings_of_declares {line : Line} {route : Route} (h : line.declares = some route) :
    (route, .address line.address) ∈ line.bindings := by
  obtain ⟨space, address, statement⟩ := line
  cases statement <;> simp_all [Line.declares, Line.bindings, Space.bindings]

/-- where a name leads, a label stands -/
theorem Leads.exists_label {table : List (Route × Meaning)} {route : Route} {value : Nat} (h : Leads table route value) :
    ∃ label, (label, .address value) ∈ table := by
  induction h with
  | address hroute => exact ⟨_, hroute⟩
  | sameAs _ _ ih => exact ih

/-- where every name is bound once, it leads to one address -/
theorem Leads.unique {table : List (Route × Meaning)} (hnodup : (table.map (·.1)).Nodup) {route : Route} {a b : Nat}
    (ha : Leads table route a) (hb : Leads table route b) : a = b := by
  have hsame : ∀ {m m' : Meaning} {r : Route}, (r, m) ∈ table → (r, m') ∈ table → m = m' := by
    intro m m' r hm hm'
    exact (Prod.ext_iff.1 (List.inj_on_of_nodup_map hnodup hm hm' rfl)).2
  induction ha with
  | address hroute =>
    cases hb with
    | address hroute' => exact Meaning.address.inj (hsame hroute hroute')
    | sameAs hroute' _ => exact absurd (hsame hroute hroute') (by simp)
  | sameAs hroute _ ih =>
    cases hb with
    | address hroute' => exact absurd (hsame hroute hroute') (by simp)
    | sameAs hroute' htarget =>
      obtain rfl := Meaning.sameAs.inj (hsame hroute hroute')
      exact ih htarget

end ByteMachine.Layout
