import CaseSetup.Scope
import CaseSetup.Value.Literal

/-! # Written form of configurations

One binding a line, nested blocks indented by a tab a level, expressions with parentheses only where
reading would otherwise build another tree. What is written reads back, so floats that are not
finite, strings with a quote and blocks inside other values are not written. -/

namespace CaseSetup

namespace Fault

def nonFinite (x : Float) : Fault :=
  ⟨.badValue s!"cannot write non-finite float {Literal.float x}",
    some "Only finite numbers can be read back", some 404⟩

def quoteInString (s : String) : Fault :=
  ⟨.badValue s!"cannot write string containing a double quote: {s}",
    some "String literals have no escapes", some 406⟩

def misplacedBlock : Fault := wrongType "a block can only be written directly after a name"

end Fault

namespace Literal

def finiteFloat (x : Float) : Except Fault String :=
  if x.isFinite then .ok (float x) else .error (.nonFinite x)

def quoted (s : String) : Except Fault String :=
  if '"' ∈ s.toList then .error (.quoteInString s) else .ok ("\"" ++ s ++ "\"")

def key : Key → Except Fault String
  | .str s => quoted s
  | k => .ok k.text

end Literal

/-- The texts with a comma and a space between them. -/
def commas : List String → String
  | [] => ""
  | [t] => t
  | t :: ts => t ++ ", " ++ commas ts

namespace Value

def isBinary : Value → Bool
  | binary .. => true
  | _ => false

/-- Does an operand of `op` need parentheses? On the right also when it binds as tightly. -/
def needsParens (op : Op) (right : Bool) : Value → Bool
  | binary o _ _ => o.precedence < op.precedence || (right && o.precedence = op.precedence)
  | _ => false

def parens (wanted : Bool) (t : String) : String := if wanted then "(" ++ t ++ ")" else t

mutual
/-- A value as it is written inside a line. -/
def written : Value → Except Fault String
  | bool b => .ok (Literal.bool b)
  | int n => .ok (Literal.int n)
  | float x => Literal.finiteFloat x
  | str s => Literal.quoted s
  | list items => do return "[" ++ commas (← writtenItems items) ++ "]"
  | tuple items => do return "(" ++ commas (← writtenItems items) ++ ")"
  | dict entries => do return "\x7b" ++ commas (← writtenEntries entries) ++ "\x7d"
  | block _ => .error .misplacedBlock
  | neg v => do return "-" ++ parens v.isBinary (← v.written)
  | binary op l r => do
    let a ← l.written
    let b ← r.written
    return parens (l.needsParens op false) a ++ " " ++ op.symbol ++ " " ++ parens (r.needsParens op true) b
  | var name => .ok name
termination_by structural v => v

def writtenItems : List Value → Except Fault (List String)
  | [] => .ok []
  | v :: vs => do
    let t ← v.written
    let ts ← writtenItems vs
    return t :: ts
termination_by structural vs => vs

def writtenEntries : List (Key × Value) → Except Fault (List String)
  | [] => .ok []
  | (k, v) :: es => do
    let a ← Literal.key k
    let t ← v.written
    let ts ← writtenEntries es
    return (a ++ ": " ++ t) :: ts
termination_by structural es => es
end

/-- Lists of two or more items stand without brackets after a name, unless all items are tuples. -/
def isBare (items : List Value) : Bool := 2 ≤ items.length && !items.all isTuple

/-- A value as it is written after `name =`. -/
def writtenRight : Value → Except Fault String
  | list items => if isBare items then commas <$> writtenItems items else (list items).written
  | v => v.written

end Value

def tabs (n : Nat) : String := .ofList (List.replicate n '\t')

mutual
def writtenBinding (depth : Nat) (name : String) : Value → Except Fault String
  | .block b => do
    return tabs depth ++ name ++ " \x7b\n" ++ (← writtenBlock (depth + 1) b) ++ tabs depth ++ "\x7d\n"
  | v => do return tabs depth ++ name ++ " = " ++ (← v.writtenRight) ++ "\n"
termination_by structural v => v

def writtenBlock (depth : Nat) : List (String × Value) → Except Fault String
  | [] => .ok ""
  | (name, v) :: es => do
    let t ← writtenBinding depth name v
    let ts ← writtenBlock depth es
    return t ++ ts
termination_by structural es => es
end

namespace Block

/-- The block as configuration text. -/
def written (b : Block) : Except Fault String := writtenBlock 0 b

/-- The block as configuration text, with every binding evaluated first if `evaluate` is set. -/
def serialize (b : Block) (evaluate : Bool) : Except Fault String := do
  if evaluate then (← b.evaluated).written else b.written

end Block

end CaseSetup
