import CaseSetup.Json.Basic
import CaseSetup.Token.Numeral
import Mathlib.Data.List.Forall2

/-! # JSON texts

Which texts are JSON, and which tree each one stands for. Objects keep their members in the order of
the text. A number with a fraction or an exponent is a float, any other an integer. -/

namespace CaseSetup

namespace Json

/-- The characters that may stand between the parts of a text. -/
def spaces : List Char := [' ', '\t', '\n', '\r']

def Spaces (cs : List Char) : Prop := ∀ c ∈ cs, c ∈ spaces

/-- What may follow a backslash, and the character that it stands for. -/
def escapes : List (Char × Char) :=
  [('"', '"'), ('\\', '\\'), ('/', '/'), ('b', '\x08'), ('f', '\x0c'), ('n', '\n'), ('r', '\r'), ('t', '\t')]

def hexValue? (c : Char) : Option Nat :=
  ['0', '1', '2', '3', '4', '5', '6', '7', '8', '9', 'a', 'b', 'c', 'd', 'e', 'f'].idxOf? c.toLower

/-- The number that four hexadecimal digits stand for. -/
def codeUnit? (a b c d : Char) : Option Nat := do
  return 0x1000 * (← hexValue? a) + 0x100 * (← hexValue? b) + 0x10 * (← hexValue? c) + (← hexValue? d)

/-- Is the number the first half of a character beyond the first plane? -/
def IsHigh (n : Nat) : Prop := 0xD800 ≤ n ∧ n < 0xDC00

def IsLow (n : Nat) : Prop := 0xDC00 ≤ n ∧ n < 0xE000

instance (n : Nat) : Decidable (IsHigh n) := inferInstanceAs (Decidable (_ ∧ _))

instance (n : Nat) : Decidable (IsLow n) := inferInstanceAs (Decidable (_ ∧ _))

/-- The character that two halves stand for. -/
def pairValue (high low : Nat) : Nat := 0x10000 + 0x400 * (high - 0xD800) + (low - 0xDC00)

/-- A character that stands for itself between quotes. -/
def IsPlain (c : Char) : Prop := 0x20 ≤ c.toNat ∧ c ≠ '"' ∧ c ≠ '\\'

instance (c : Char) : Decidable (IsPlain c) := inferInstanceAs (Decidable (_ ∧ _))

/-- The texts of one character between quotes. -/
inductive CharText : List Char → Char → Prop
  | plain {c : Char} : IsPlain c → CharText [c] c
  | escaped {d c : Char} : escapes.lookup d = some c → CharText ['\\', d] c
  | unit {a b c d x : Char} : codeUnit? a b c d = some x.toNat → CharText ['\\', 'u', a, b, c, d] x
  | pair {a b c d a' b' c' d' x : Char} {high low : Nat} :
    codeUnit? a b c d = some high → codeUnit? a' b' c' d' = some low → IsHigh high → IsLow low →
    x.toNat = pairValue high low → CharText ['\\', 'u', a, b, c, d, '\\', 'u', a', b', c', d'] x

/-- The texts of a string, with its quotes. -/
inductive StringText : List Char → String → Prop
  | quotes {css : List (List Char)} {cs : List Char} :
    List.Forall₂ CharText css cs → StringText ('"' :: (css.flatten ++ ['"'])) (.ofList cs)

/-- One or more digits. -/
def Digits (ds : List Char) : Prop := ds ≠ [] ∧ ∀ c ∈ ds, c.isDigit

instance (ds : List Char) : Decidable (Digits ds) := inferInstanceAs (Decidable (_ ∧ _))

/-- No plus sign in front, no zero in front of other digits, and digits on either side of a point. -/
def IsNumber (n : Numeral) : Prop :=
  n.sign ≠ some .plus ∧ Digits n.whole ∧ (n.whole.head? = some '0' → n.whole = ['0']) ∧
    (∀ ds ∈ n.fraction, Digits ds) ∧ ∀ x ∈ n.exponent, Digits x.2

instance (n : Numeral) : Decidable (IsNumber n) := inferInstanceAs (Decidable (_ ∧ _))

inductive ExponentText : List Char → Option (Bool × List Char) → Prop
  | none : ExponentText [] none
  | bare {e : Char} {ds : List Char} : e ∈ ['e', 'E'] → ExponentText (e :: ds) (some (false, ds))
  | plus {e : Char} {ds : List Char} : e ∈ ['e', 'E'] → ExponentText (e :: '+' :: ds) (some (false, ds))
  | minus {e : Char} {ds : List Char} : e ∈ ['e', 'E'] → ExponentText (e :: '-' :: ds) (some (true, ds))

/-- The texts of a number. -/
inductive NumberText : List Char → Numeral → Prop
  | chars {n : Numeral} {cs : List Char} : IsNumber n → ExponentText cs n.exponent →
    NumberText (Numeral.signChars n.sign ++ (n.whole ++ (Numeral.fractionChars n.fraction ++ cs))) n

/-- Integers keep their value, and floats are the nearest to it. -/
def ofNumeral (n : Numeral) : Json :=
  if n.isFloat then
    let x := n.magnitude.toFloat
    float (if n.sign = some .minus then -x else x)
  else
    let k : Int := Nat.ofDigitChars 10 n.whole 0
    int (if n.sign = some .minus then -k else k)

mutual
/-- The text stands for the tree. -/
inductive Denotes : List Char → Json → Prop
  | null : Denotes ['n', 'u', 'l', 'l'] null
  | true : Denotes ['t', 'r', 'u', 'e'] (bool true)
  | false : Denotes ['f', 'a', 'l', 's', 'e'] (bool false)
  | number {cs : List Char} {n : Numeral} : NumberText cs n → Denotes cs (ofNumeral n)
  | str {cs : List Char} {s : String} : StringText cs s → Denotes cs (str s)
  | emptyArr {ws : List Char} : Spaces ws → Denotes ('[' :: (ws ++ [']'])) (arr [])
  | arr {cs : List Char} {js : List Json} : Items cs js → Denotes ('[' :: (cs ++ [']'])) (arr js)
  | emptyObj {ws : List Char} : Spaces ws → Denotes ('\x7b' :: (ws ++ ['\x7d'])) (obj [])
  | obj {cs : List Char} {ms : List (String × Json)} : Members cs ms → Denotes ('\x7b' :: (cs ++ ['\x7d'])) (obj ms)

/-- The same with space around. -/
inductive Padded : List Char → Json → Prop
  | mk {ls cs rs : List Char} {j : Json} : Spaces ls → Denotes cs j → Spaces rs → Padded (ls ++ (cs ++ rs)) j

/-- One or more items with commas between. -/
inductive Items : List Char → List Json → Prop
  | last {cs : List Char} {j : Json} : Padded cs j → Items cs [j]
  | more {cs ds : List Char} {j : Json} {js : List Json} :
    Padded cs j → Items ds js → Items (cs ++ ',' :: ds) (j :: js)

inductive Member : List Char → String × Json → Prop
  | mk {ls cs rs ds : List Char} {s : String} {j : Json} :
    Spaces ls → StringText cs s → Spaces rs → Padded ds j → Member (ls ++ (cs ++ (rs ++ ':' :: ds))) (s, j)

/-- One or more members with commas between. -/
inductive Members : List Char → List (String × Json) → Prop
  | last {cs : List Char} {m : String × Json} : Member cs m → Members cs [m]
  | more {cs ds : List Char} {m : String × Json} {ms : List (String × Json)} :
    Member cs m → Members ds ms → Members (cs ++ ',' :: ds) (m :: ms)
end

/-- A whole text that stands for the tree. -/
abbrev TextOf (text : String) (j : Json) : Prop := Padded text.toList j

end Json

end CaseSetup
