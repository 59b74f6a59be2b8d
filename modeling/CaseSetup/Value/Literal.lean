import CaseSetup.Decimal.Style
import CaseSetup.Value.Basic

/-! # Literal forms of scalars

How a configuration text writes booleans, integers, floats and dictionary keys. -/

namespace CaseSetup

/-- Positional from `0.0001` up to below `10 ^ 16`, no plus sign; of two shortest decimals equally
near the larger is taken. -/
def literalStyle : NumberStyle where
  least := -4
  beyond := 16
  plus := false
  tie := .up

namespace Literal

def bool (b : Bool) : String := if b then "TRUE" else "FALSE"

def int (n : Int64) : String := toString n.toInt

def float (x : Float) : String := literalStyle.float x

end Literal

/-- Strings stand between quotes as they are. -/
def Key.text : Key → String
  | str s => s!"\"{s}\""
  | int n => Literal.int n
  | float x => Literal.float x
  | bool b => Literal.bool b

end CaseSetup
