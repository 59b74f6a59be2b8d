import CaseSetup.Grammar.Expression

/-! # Items and right-hand sides

An item may stand in a list, a tuple or a dictionary: a string, a boolean, a dictionary, a tuple of
two or more items, or an expression. A list stands only directly after a name, bare or in brackets. -/

namespace CaseSetup

def Token.key? : Token → Option Key
  | str s => some (.str s)
  | int n => some (.int n)
  | float x => some (.float x)
  | bool b => some (.bool b)
  | _ => none

variable (e : Ending)

def key (ts : Tokens) : Except Stop (Key × Tokens) :=
  match (e.peek ts).bind Token.key? with
  | some k => do return (k, ← e.bump ts)
  | none => .error (e.unexpected ts .key)

mutual
def item : Nat → Tokens → Except Stop (Value × Tokens)
  | 0, _ => .error .depth
  | n + 1, ts => match e.peek ts with
    | some (.str s) => do return (.str s, ← e.bump ts)
    | some (.bool b) => do return (.bool b, ← e.bump ts)
    | some .openBrace => dictionary n ts
    | some .openParen => group n ts
    | some .openBracket => .error (e.unexpected ts .item)
    | _ => binary e n lowest ts
termination_by structural n => n

/-- Items with a comma before each. -/
def moreItems : Nat → Tokens → Except Stop (List Value × Tokens)
  | 0, _ => .error .depth
  | n + 1, ts =>
    if e.peek ts = some .comma then do
      let (v, ts) ← item n (← e.bump ts)
      let (vs, ts) ← moreItems n ts
      return (v :: vs, ts)
    else return ([], ts)
termination_by structural n => n

/-- A tuple, or an expression that starts with one in parentheses. -/
def group : Nat → Tokens → Except Stop (Value × Tokens)
  | 0, _ => .error .depth
  | n + 1, ts => do
    let (first, ts) ← item n (← e.bump ts)
    if e.peek ts = some .comma then
      let (items, ts) ← moreItems n ts
      return (.tuple (first :: items), ← e.expect .closeParen .tupleEnd ts)
    else if first.isArithmetic then
      climb e n lowest first (← e.expect .closeParen .closingParen ts)
    else .error (e.unexpected ts .secondItem)
termination_by structural n => n

def dictionary : Nat → Tokens → Except Stop (Value × Tokens)
  | 0, _ => .error .depth
  | n + 1, ts => do
    let ts ← e.bump ts
    if e.peek ts = some .closeBrace then return (.dict [], ← e.bump ts) else entries n [] ts
termination_by structural n => n

/-- One or more entries and the closing brace. A repeated key takes the later value. -/
def entries : Nat → Dict → Tokens → Except Stop (Value × Tokens)
  | 0, _, _ => .error .depth
  | n + 1, d, ts => do
    let (k, ts) ← key e ts
    let (v, ts) ← item n (← e.expect .colon .keyColon ts)
    let d := Entries.put k v d
    if e.peek ts = some .comma then entries n d (← e.bump ts)
    else return (.dict d, ← e.expect .closeBrace .dictEnd ts)
termination_by structural n => n
end

/-- A list in brackets. -/
def list : Nat → Tokens → Except Stop (Value × Tokens)
  | 0, _ => .error .depth
  | n + 1, ts => do
    let ts ← e.bump ts
    if e.peek ts = some .closeBracket then return (.list [], ← e.bump ts)
    let (first, ts) ← item e n ts
    let (items, ts) ← moreItems e n ts
    return (.list (first :: items), ← e.expect .closeBracket .listEnd ts)

/-- What stands after `name =`. -/
def rightSide : Nat → Tokens → Except Stop (Value × Tokens)
  | 0, _ => .error .depth
  | n + 1, ts =>
    if e.peek ts = some .openBracket then list e n ts
    else do
      let (first, ts) ← item e n ts
      if e.peek ts = some .comma then
        let (items, ts) ← moreItems e n ts
        return (.list (first :: items), ts)
      else return (first, ts)

end CaseSetup
