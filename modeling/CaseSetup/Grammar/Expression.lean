import CaseSetup.Grammar.Cursor

/-! # Expressions

An expression is an operand followed by operators with their right operands. Unary minus binds
tightest, then `^`, then `*` and `/`, then `+` and `-`; all associate to the left. A number with a
sign glued to it acts, after an operand, as that operator and the number without the sign. The reader
climbs: the right operand of an operator takes all that binds more tightly, and the two are the left
operand of what follows. -/

namespace CaseSetup

def Token.op? : Token → Option Op
  | plus => some .add
  | minus => some .sub
  | star => some .mul
  | slash => some .div
  | caret => some .pow
  | _ => none

/-- The operation and operand that a glued sign and its number stand for. The magnitude of the
smallest integer is no integer, so that one is never split. -/
def Sign.split? (s : Sign) : Token → Option (Op × Value)
  | .int n => match s with
    | plus => some (.add, .int n)
    | minus => if n = Int64.minValue then none else some (.sub, .int (-n))
  | .float x => some (match s with | plus => .add | minus => .sub, .float x.abs)
  | _ => none

/-- What goes on with an expression after an operand. -/
inductive Infix
  | operator (o : Op)
  /-- A number with a sign glued to it: the operator is the sign, and its right operand starts with
  the magnitude. -/
  | signed (o : Op) (magnitude : Value)

def Infix.op : Infix → Op
  | operator o | signed o _ => o

def Sight.infix? (s : Sight) : Option Infix :=
  match s.token.bind Token.op? with
  | some o => some (.operator o)
  | none => (s.token.bind fun t => s.sign.bind (·.split? t)).map fun (o, v) => .signed o v

/-- The precedence of the operators that bind most loosely. -/
def lowest : Nat := 1

variable (e : Ending)

mutual
/-- A number, a name or an expression in parentheses. -/
def primary : Nat → Tokens → Except Stop (Value × Tokens)
  | 0, _ => .error .depth
  | n + 1, ts => match e.peek ts with
    | some (.int i) => do return (.int i, ← e.bump ts)
    | some (.float x) => do return (.float x, ← e.bump ts)
    | some (.name s) => do return (.var s, ← e.bump ts)
    | some .openParen => do
      let (v, ts) ← binary n lowest (← e.bump ts)
      return (v, ← e.expect .closeParen .closingParen ts)
    | _ => .error (e.unexpected ts .operand)
termination_by structural n => n

def unary : Nat → Tokens → Except Stop (Value × Tokens)
  | 0, _ => .error .depth
  | n + 1, ts =>
    if e.peek ts = some .minus then do
      let (v, ts) ← unary n (← e.bump ts)
      return (.neg v, ts)
    else primary n ts
termination_by structural n => n

/-- An expression whose operators bind at least as tightly as `p`. -/
def binary : Nat → Nat → Tokens → Except Stop (Value × Tokens)
  | 0, _, _ => .error .depth
  | n + 1, p, ts => do
    let (lhs, ts) ← unary n ts
    climb n p lhs ts
termination_by structural n => n

/-- The expression that `lhs` is the first operand of, as far as operators bind at least as tightly as `p`. -/
def climb : Nat → Nat → Value → Tokens → Except Stop (Value × Tokens)
  | 0, _, _, _ => .error .depth
  | n + 1, p, lhs, ts => match (e.front ts).infix? with
    | none => return (lhs, ts)
    | some x =>
      if x.op.precedence < p then return (lhs, ts)
      else do
        let ts ← e.bump ts
        let (rhs, ts) ← match x with
          | .operator o => binary n (o.precedence + 1) ts
          | .signed o v => climb n (o.precedence + 1) v ts
        climb n p (.binary x.op lhs rhs) ts
termination_by structural n => n
end

end CaseSetup
