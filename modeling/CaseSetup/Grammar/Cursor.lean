import CaseSetup.Token.Scan

/-! # Reading with one token of lookahead

A reader sees the token ahead and takes it or leaves it; behind the last token it sees the end of the
text, which cannot be taken. Taking a token looks at the one after it, so malformed text shows as soon
as the token before it is taken (`Ending.resume`). Readers carry a depth that falls with every call;
`Stop.depth` says that it was used up. -/

namespace CaseSetup

/-- What could have stood where a reader stopped. -/
inductive Expected
  | statement
  | nestedStatement
  | assignment
  | blockEnd
  | operand
  | closingParen
  | item
  | listEnd
  | tupleEnd
  | secondItem
  | key
  | keyColon
  | dictEnd
  | valueEnd
  deriving DecidableEq, Repr

def Expected.hint : Expected → String
  | statement => "Expected an assignment or a comment"
  | nestedStatement => "Expected an assignment, a comment or '\x7d'"
  | assignment => "Expected '=' or '\x7b' after a variable name"
  | blockEnd => "Expected '\x7d' to close the block"
  | operand => "Expected a number, a variable or '('"
  | closingParen => "Expected ')' to close the parenthesis"
  | item => "Lists cannot be nested inside other values"
  | listEnd => "Expected ',' or ']' in list"
  | tupleEnd => "Expected ',' or ')' in tuple"
  | secondItem => "Tuples need at least two items; only expressions may be parenthesized"
  | key => "Dictionary keys must be string, integer, float or boolean literals"
  | keyColon => "Expected ':' after dictionary key"
  | dictEnd => "Expected ',' or '\x7d' in dictionary"
  | valueEnd => "Expected end of input after value"

inductive Stop
  | fault (f : Fault)
  | depth
  deriving DecidableEq

/-- The tokens ahead of a reader. -/
abbrev Tokens := List Located

/-- What a reader sees: a token, the sign glued to it and where it starts, or the end of the text. -/
structure Sight where
  /-- The token, or none at the end of the text. -/
  token : Option Token
  sign : Option Sign
  pos : Position

/-- The fault of what is seen where `x` was expected. -/
def Sight.unexpected (s : Sight) (x : Expected) : Fault :=
  match s.token with
  | some t => ⟨.unexpected t.kind t.text s.pos.line (s.pos.column + 1), some x.hint, some 202⟩
  | none => ⟨.unexpected endKind endText s.pos.line (s.pos.column + 1), some x.hint, some 201⟩

def Located.seen (t : Located) : Sight := ⟨some t.token, t.sign, t.start⟩

namespace Ending

def seen (e : Ending) : Sight := ⟨none, none, e.pos⟩

/-- What is seen with the tokens `ts` ahead. -/
def front (e : Ending) : Tokens → Sight
  | t :: _ => t.seen
  | [] => e.seen

def peek (e : Ending) (ts : Tokens) : Option Token := (e.front ts).token

/-- The fault of what is ahead. -/
def unexpected (e : Ending) (ts : Tokens) (x : Expected) : Stop := .fault ((e.front ts).unexpected x)

/-- The tokens ahead once the token before `ts` is taken. -/
def resume (e : Ending) (ts : Tokens) : Except Stop Tokens :=
  match ts, e with
  | [], .malformed p m => .error (.fault (m.fault p))
  | ts, _ => .ok ts

/-- Take the token ahead. At the end of the text there is none, and the end stays ahead. -/
def bump (e : Ending) : Tokens → Except Stop Tokens
  | [] => .ok []
  | _ :: ts => e.resume ts

/-- Take the token `t`. -/
def expect (e : Ending) (t : Token) (x : Expected) (ts : Tokens) : Except Stop Tokens :=
  if e.peek ts = some t then e.bump ts else .error (e.unexpected ts x)

end Ending

end CaseSetup
