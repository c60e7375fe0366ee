/-
White space in the sense of the Unicode property White_Space: ten ranges, twenty-five code points. Words of a source
line are separated by such characters, and a caret under a line starts after the leading ones.
-/

namespace ByteMachine.Text

/-- the ranges of the property, both ends included, in increasing order -/
def blankRanges : List (Nat × Nat) :=
  [(0x0009, 0x000d), (0x0020, 0x0020), (0x0085, 0x0085), (0x00a0, 0x00a0), (0x1680, 0x1680),
   (0x2000, 0x200a), (0x2028, 0x2029), (0x202f, 0x202f), (0x205f, 0x205f), (0x3000, 0x3000)]

/-- whether a character separates words -/
def isBlank (c : Char) : Bool :=
  blankRanges.any fun (first, last) => first ≤ c.toNat && c.toNat ≤ last

def dropTrailingBlanks (cs : List Char) : List Char :=
  (cs.reverse.dropWhile isBlank).reverse

def trimRight (text : String) : String :=
  String.ofList (dropTrailingBlanks text.toList)

def trim (text : String) : String :=
  String.ofList (dropTrailingBlanks (text.toList.dropWhile isBlank))

end ByteMachine.Text
