/-! # Closed ranges of code points -/

namespace CaseSetup.Text

/-- Is the code point of `c` in one of the closed ranges? -/
def within (ranges : List (Nat × Nat)) (c : Char) : Bool :=
  ranges.any fun (first, last) => first ≤ c.toNat && c.toNat ≤ last

end CaseSetup.Text
