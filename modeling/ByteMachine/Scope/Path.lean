/-
Qualified names. A path lists the namespaces from the root down; the empty path is the root. A segment made by a private
namespace carries a tag that no other private namespace of the same assembly has.

Written out, segments are separated by points, and a tag follows its name after a `#`.
-/
import ByteMachine.Scope.Symbol

namespace ByteMachine

/-- one namespace on the way down; private ones have a tag -/
structure Segment where
  name : Symbol
  tag : Option Nat
  deriving DecidableEq, Hashable, Repr

/-- a qualified name -/
structure Path where
  segments : List Segment
  deriving DecidableEq, Hashable, Repr

namespace Path

def root : Path := ⟨[]⟩

def isRoot (path : Path) : Bool := path.segments.isEmpty

/-- the path further down through namespaces without a tag -/
def join (path : Path) (names : List Symbol) : Path :=
  ⟨path.segments ++ names.map (⟨·, none⟩)⟩

/-- the path without its tags; a path through a nameless namespace has no public name -/
def demangle? (path : Path) (anonymous : Symbol) : Option Path :=
  if path.segments.any (·.name = anonymous) then none
  else some ⟨path.segments.map fun segment => { segment with tag := none }⟩

def renderSegment (table : SymbolTable) (segment : Segment) : String :=
  match segment.tag with
  | none => table.nameOf segment.name
  | some tag => table.nameOf segment.name ++ "#" ++ toString tag

def render (table : SymbolTable) (path : Path) : String :=
  ".".intercalate (path.segments.map (renderSegment table))

end Path

end ByteMachine
