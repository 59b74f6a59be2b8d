import CaseSetup.Text.CodeRange

/-! # Blank characters

The Unicode property White_Space. It ends the fragment shown in a lexical error, and path segments
are trimmed by it; what may stand between two tokens is a smaller set. -/

namespace CaseSetup.Text

def blankRanges : List (Nat × Nat) :=
  [(0x9, 0xD), (0x20, 0x20), (0x85, 0x85), (0xA0, 0xA0), (0x1680, 0x1680), (0x2000, 0x200A),
   (0x2028, 0x2029), (0x202F, 0x202F), (0x205F, 0x205F), (0x3000, 0x3000)]

def isBlank (c : Char) : Bool := within blankRanges c

/-- The characters of `cs` between the first and the last one that is not blank. -/
def trimBlanks (cs : List Char) : List Char :=
  ((cs.dropWhile isBlank).reverse.dropWhile isBlank).reverse

/-- `s` without the blanks around it. -/
def trim (s : String) : String := .ofList (trimBlanks s.toList)

end CaseSetup.Text
