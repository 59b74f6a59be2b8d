import CaseSetup.Text.Printable

/-! # Quoted text with escapes

Text shown to a person who looks for a mistake: every character that could not be seen, or would
attach to the one before it, is escaped by its code point. -/

namespace CaseSetup.Text

def escape (c : Char) : List Char :=
  if c = '\x00' then ['\\', '0']
  else if c = '\t' then ['\\', 't']
  else if c = '\r' then ['\\', 'r']
  else if c = '\n' then ['\\', 'n']
  else if c = '"' then ['\\', '"']
  else if c = '\\' then ['\\', '\\']
  else if isPrintable c && !extendsGrapheme c then [c]
  else ['\\', 'u', '{'] ++ Nat.toDigits 16 c.toNat ++ ['}']

def quoted (s : String) : String := .ofList ('"' :: s.toList.flatMap escape ++ ['"'])

end CaseSetup.Text
