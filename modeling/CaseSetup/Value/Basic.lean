import CaseSetup.Decimal.Bits
import CaseSetup.Entries

/-! # Values

`Value` is what a name is bound to. Negations, operations and references are kept as they were
written and evaluated on every read; all other values are literal when their parts are. -/

namespace CaseSetup

/-- The binary operators. -/
inductive Op
  | add
  | sub
  | mul
  | div
  | pow
  deriving DecidableEq, Repr

namespace Op

def symbol : Op → String
  | add => "+"
  | sub => "-"
  | mul => "*"
  | div => "/"
  | pow => "^"

/-- Higher binds tighter; every operator associates to the left. -/
def precedence : Op → Nat
  | add | sub => 1
  | mul | div => 2
  | pow => 3

end Op

/-- The key of a dictionary entry. Keys of different kinds differ, and two float keys are the same
only bit for bit. -/
inductive Key
  | str (s : String)
  | int (n : Int64)
  | float (x : FloatBits)
  | bool (b : Bool)
  deriving DecidableEq

inductive Value
  | bool (b : Bool)
  | int (n : Int64)
  | float (x : Float)
  | str (s : String)
  | list (items : List Value)
  | tuple (items : List Value)
  | dict (entries : List (Key × Value))
  | block (entries : List (String × Value))
  | neg (operand : Value)
  | binary (op : Op) (left right : Value)
  | var (name : String)
  deriving Inhabited

/-- The bindings of a document or of a nested block, in the order they were made. -/
abbrev Block := List (String × Value)

/-- The entries of a dictionary, in the order their keys were first given. -/
abbrev Dict := List (Key × Value)

namespace Value

def typeName : Value → String
  | bool _ => "boolean"
  | int _ => "integer"
  | float _ => "float"
  | str _ => "string"
  | list _ => "list"
  | tuple _ => "tuple"
  | dict _ => "dictionary"
  | block _ => "block"
  | neg _ | binary .. | var _ => "expression"

def isTuple : Value → Bool
  | tuple _ => true
  | _ => false

def asBlock? : Value → Option Block
  | block b => some b
  | _ => none

/-- Is this a number or an expression, which parentheses may hold alone? -/
def isArithmetic : Value → Bool
  | int _ | float _ | neg _ | binary .. | var _ => true
  | _ => false

mutual
/-- Is no expression left anywhere in the value? -/
def isLiteral : Value → Bool
  | bool _ | int _ | float _ | str _ => true
  | list items | tuple items => areLiteral items
  | dict entries => dictIsLiteral entries
  | block entries => blockIsLiteral entries
  | neg _ | binary .. | var _ => false
termination_by structural v => v

def areLiteral : List Value → Bool
  | [] => true
  | v :: vs => v.isLiteral && areLiteral vs
termination_by structural vs => vs

def dictIsLiteral : List (Key × Value) → Bool
  | [] => true
  | (_, v) :: es => v.isLiteral && dictIsLiteral es
termination_by structural es => es

def blockIsLiteral : List (String × Value) → Bool
  | [] => true
  | (_, v) :: es => v.isLiteral && blockIsLiteral es
termination_by structural es => es
end

end Value

end CaseSetup
