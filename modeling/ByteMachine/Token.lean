/-
The words of a source line. A comment runs from the first `#` to the end of the line; what is left is cut into its
maximal runs of characters that are not blank, and each word remembers the column of its first character.
-/
import ByteMachine.Text.Blank

namespace ByteMachine

/-- a word of a source line and the column of its first character, counted from one in characters -/
structure Token where
  text : String
  column : Nat
  deriving DecidableEq, Repr

namespace Token

def commentMark : Char := '#'

/-- the words of `cs`, whose first character stands in column `column`; `word` holds the characters of the word that is
being read, the last one first -/
def scan : (column : Nat) → (word : List Char) → (cs : List Char) → List Token
  | _, [], [] => []
  | column, w :: word, [] => [⟨String.ofList (w :: word).reverse, column - (w :: word).length⟩]
  | column, [], c :: cs => if Text.isBlank c then scan (column + 1) [] cs else scan (column + 1) [c] cs
  | column, w :: word, c :: cs =>
    if Text.isBlank c then
      ⟨String.ofList (w :: word).reverse, column - (w :: word).length⟩ :: scan (column + 1) [] cs
    else scan (column + 1) (c :: w :: word) cs

def ofLine (line : String) : List Token :=
  scan 1 [] (line.toList.takeWhile (· ≠ commentMark))

end Token

end ByteMachine
