import CaseSetup.Text.Quoted
import CaseSetup.Value.Literal

/-! # Inspection text

The full structure of a value on one line, shown where a value of another type was wanted. -/

namespace CaseSetup

def Op.title : Op → String
  | add => "Add"
  | sub => "Sub"
  | mul => "Mul"
  | div => "Div"
  | pow => "Pow"

namespace Inspect

def bool (b : Bool) : String := s!"Bool({b})"

def int (n : Int64) : String := s!"Int({Literal.int n})"

def float (x : Float) : String := s!"Float({Literal.float x})"

def str (s : String) : String := s!"Str({Text.quoted s})"

def key : Key → String
  | .str s => str s
  | .int n => int n
  | .float x => float x
  | .bool b => bool b

end Inspect

mutual
def Value.inspect : Value → String
  | .bool b => Inspect.bool b
  | .int n => Inspect.int n
  | .float x => Inspect.float x
  | .str s => Inspect.str s
  | .list items => "List([" ++ inspectItems items ++ "])"
  | .tuple items => "Tuple([" ++ inspectItems items ++ "])"
  | .dict entries => "Dict(\x7b" ++ inspectDict entries ++ "\x7d)"
  | .block entries => "Block(Block \x7b entries: \x7b" ++ inspectBlock entries ++ "\x7d \x7d)"
  | .neg v => "Expr(Neg(" ++ v.inspect ++ "))"
  | .binary op l r =>
    "Expr(Binary \x7b op: " ++ op.title ++ ", lhs: " ++ l.inspect ++ ", rhs: " ++ r.inspect ++ " \x7d)"
  | .var name => "Expr(Var(" ++ Text.quoted name ++ "))"
termination_by structural v => v

def inspectItems : List Value → String
  | [] => ""
  | [v] => v.inspect
  | v :: vs => v.inspect ++ ", " ++ inspectItems vs
termination_by structural vs => vs

def inspectDict : List (Key × Value) → String
  | [] => ""
  | [(k, v)] => Inspect.key k ++ ": " ++ v.inspect
  | (k, v) :: es => Inspect.key k ++ ": " ++ v.inspect ++ ", " ++ inspectDict es
termination_by structural es => es

def inspectBlock : List (String × Value) → String
  | [] => ""
  | [(name, v)] => Text.quoted name ++ ": " ++ v.inspect
  | (name, v) :: es => Text.quoted name ++ ": " ++ v.inspect ++ ", " ++ inspectBlock es
termination_by structural es => es
end

end CaseSetup
