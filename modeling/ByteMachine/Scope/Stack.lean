/-
The stack of open namespaces. One line may open several namespaces at once; they form one frame and are closed together.
The open segments lie in one list, and beside it stand the sizes of the frames, the innermost frame first.
-/
import ByteMachine.Scope.Path

namespace ByteMachine

/-- the open namespaces: their segments from the root down, the size of each frame (the innermost first), and the tag
of the next private namespace -/
structure Scope where
  segments : List Segment
  sizes : List Nat
  nextTag : Nat
  deriving DecidableEq, Repr

namespace Scope

def empty : Scope := ⟨[], [], 0⟩

def depth (scope : Scope) : Nat := scope.sizes.length

def current (scope : Scope) : Path := ⟨scope.segments⟩

/-- the namespace that is left when the innermost frames are closed; the root if there are no more of them -/
def ancestor (scope : Scope) (levels : Nat) : Path :=
  ⟨scope.segments.take ((scope.sizes.drop levels).foldr (· + ·) 0)⟩

/-- open namespaces without tags as one frame -/
def push (scope : Scope) (names : List Symbol) : Scope :=
  { scope with
    segments := scope.segments ++ names.map (⟨·, none⟩)
    sizes := names.length :: scope.sizes }

/-- open one private namespace with a tag of its own -/
def pushPrivate (scope : Scope) (name : Symbol) : Scope :=
  { segments := scope.segments ++ [⟨name, some scope.nextTag⟩]
    sizes := 1 :: scope.sizes
    nextTag := scope.nextTag + 1 }

def pop? (scope : Scope) : Option Scope :=
  match scope.sizes with
  | [] => none
  | size :: sizes =>
    some { scope with segments := scope.segments.take (scope.segments.length - size), sizes := sizes }

/-- close everything and open the named namespaces, each as a frame of its own; tags already given stay taken -/
def reset (scope : Scope) (names : List Symbol) : Scope :=
  names.foldl (fun scope name => scope.push [name]) { scope with segments := [], sizes := [] }

end Scope

end ByteMachine
