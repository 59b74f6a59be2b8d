import CaseSetup.Block.Basic
import CaseSetup.Grammar.Item

/-! # Documents

A document is a sequence of assignments `name = value`, nested blocks and comments. No name is
bound twice in one block. -/

namespace CaseSetup

variable (e : Ending)

mutual
/-- The statements up to the end of the text, or to the brace that closes a nested block. -/
def statements (nested : Bool) : Nat → Block → Tokens → Except Stop (Block × Tokens)
  | 0, _, _ => .error .depth
  | n + 1, b, ts => match e.peek ts with
    | some (.comment _) => do statements nested n b (← e.bump ts)
    | some (.name s) => do
      let (v, us) ← assignment n ts
      match b.add s v with
      | .ok b => statements nested n b us
      | .error f =>
        .error (.fault (f.withHint s!"Second assignment of \"{s}\" on line {(e.front ts).pos.line}"))
    | none => if nested then .error (e.unexpected ts .nestedStatement) else return (b, ts)
    | some t =>
      if nested then
        if t = .closeBrace then return (b, ts) else .error (e.unexpected ts .nestedStatement)
      else .error (e.unexpected ts .statement)
termination_by structural n => n

/-- A name, and `=` with a right-hand side or a block in braces. -/
def assignment : Nat → Tokens → Except Stop (Value × Tokens)
  | 0, _ => .error .depth
  | n + 1, ts => do
    let ts ← e.bump ts
    if e.peek ts = some .equals then rightSide e n (← e.bump ts)
    else if e.peek ts = some .openBrace then
      let (b, ts) ← statements true n [] (← e.bump ts)
      return (.block b, ← e.expect .closeBrace .blockEnd ts)
    else .error (e.unexpected ts .assignment)
termination_by structural n => n
end

namespace Scan

/-- A depth that no reader of the scan uses up: every few calls take a token. -/
def depth (s : Scan) : Nat := 5 * s.tokens.length + 5

/-- The result of a reader run over the whole scan. -/
def read {α : Type} (s : Scan) (reader : Ending → Nat → Tokens → Except Stop (α × Tokens)) : Except Fault α :=
  match s.ending.resume s.tokens >>= reader s.ending s.depth with
  | .ok (a, _) => .ok a
  | .error (.fault f) => .error f
  | .error .depth => .error (.badValue "nested too deeply")

end Scan

/-- The document that `text` holds. -/
def Block.parse (text : String) : Except Fault Block :=
  (Scan.ofText text).read fun e n => statements e false n []

/-- The value that `text` holds, as it would stand after `name =`. -/
def Value.parse (text : String) : Except Fault Value :=
  (Scan.ofText text).read fun e n ts => do
    let (v, ts) ← rightSide e n ts
    if e.peek ts = none then return (v, ts) else .error (e.unexpected ts .valueEnd)

end CaseSetup
