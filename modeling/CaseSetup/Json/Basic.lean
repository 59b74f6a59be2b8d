import CaseSetup.Decimal.Style

/-! # JSON trees and their text

Objects keep the order of their members, and may repeat a name. Text is compact, or pretty with two
spaces a level. -/

namespace CaseSetup

inductive Json
  | null
  | bool (b : Bool)
  | int (n : Int)
  /-- A finite number. -/
  | float (x : Float)
  | str (s : String)
  | arr (items : List Json)
  | obj (members : List (String × Json))

namespace Json

/-- Positional from `0.00001` up to below `10 ^ 16`, exponents always signed; of two shortest
decimals equally near the one that ends in an even digit is taken. -/
def numberStyle : NumberStyle where
  least := -5
  beyond := 16
  plus := true
  tie := .even

/-- JSON has no infinities and no NaN. -/
def ofFloat (x : Float) : Json := if x.isFinite then float x else null

def hexDigits (c : Char) : List Char :=
  [Nat.digitChar (c.toNat / 16), Nat.digitChar (c.toNat % 16)]

/-- A character as it stands between quotes. -/
def escape (c : Char) : List Char :=
  if c = '"' then ['\\', '"']
  else if c = '\\' then ['\\', '\\']
  else if c = '\x08' then ['\\', 'b']
  else if c = '\x0c' then ['\\', 'f']
  else if c = '\n' then ['\\', 'n']
  else if c = '\r' then ['\\', 'r']
  else if c = '\t' then ['\\', 't']
  else if c.toNat < 0x20 then ['\\', 'u', '0', '0'] ++ hexDigits c
  else [c]

def quoted (s : String) : String := .ofList ('"' :: s.toList.flatMap escape ++ ['"'])

def indent (depth : Nat) : String := .ofList (List.replicate (2 * depth) ' ')

mutual
def compact : Json → String
  | null => "null"
  | bool b => toString b
  | int n => toString n
  | float x => numberStyle.float x
  | str s => quoted s
  | arr items => "[" ++ compactItems items ++ "]"
  | obj members => "\x7b" ++ compactMembers members ++ "\x7d"
termination_by structural j => j

def compactItems : List Json → String
  | [] => ""
  | [j] => j.compact
  | j :: js => j.compact ++ "," ++ compactItems js
termination_by structural js => js

def compactMembers : List (String × Json) → String
  | [] => ""
  | [(k, j)] => quoted k ++ ":" ++ j.compact
  | (k, j) :: ms => quoted k ++ ":" ++ j.compact ++ "," ++ compactMembers ms
termination_by structural ms => ms
end

mutual
def pretty (depth : Nat) : Json → String
  | null => "null"
  | bool b => toString b
  | int n => toString n
  | float x => numberStyle.float x
  | str s => quoted s
  | arr [] => "[]"
  | arr items => "[\n" ++ prettyItems (depth + 1) items ++ "\n" ++ indent depth ++ "]"
  | obj [] => "\x7b\x7d"
  | obj members => "\x7b\n" ++ prettyMembers (depth + 1) members ++ "\n" ++ indent depth ++ "\x7d"
termination_by structural j => j

def prettyItems (depth : Nat) : List Json → String
  | [] => ""
  | [j] => indent depth ++ j.pretty depth
  | j :: js => indent depth ++ j.pretty depth ++ ",\n" ++ prettyItems depth js
termination_by structural js => js

def prettyMembers (depth : Nat) : List (String × Json) → String
  | [] => ""
  | [(k, j)] => indent depth ++ quoted k ++ ": " ++ j.pretty depth
  | (k, j) :: ms => indent depth ++ quoted k ++ ": " ++ j.pretty depth ++ ",\n" ++ prettyMembers depth ms
termination_by structural ms => ms
end

end Json

end CaseSetup
