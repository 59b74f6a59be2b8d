import CaseSetup.Decimal.Basic
import CaseSetup.Text.DecimalDigit
import CaseSetup.Token.Basic
import CaseSetup.Token.Pattern

/-! # Numerals

A numeral is an optional sign, digits, an optional point with the digits after it, and an optional
exponent `e5` or `e-5`. Two patterns say what a text is searched for, one for floats and one for
integers; `Numeral.scan` takes the numeral that was found apart. Decimal digits of any script are
taken, but only ASCII digits have a value. -/

namespace CaseSetup

structure Numeral where
  sign : Option Sign
  whole : List Char
  /-- The digits after the point, if there is a point. -/
  fraction : Option (List Char)
  /-- Whether the exponent is negative, and its digits. -/
  exponent : Option (Bool × List Char)
  deriving DecidableEq, Repr

namespace Numeral

open Text (isDecimalDigit)

def fractionChars : Option (List Char) → List Char
  | none => []
  | some ds => '.' :: ds

def exponentChars : Option (Bool × List Char) → List Char
  | none => []
  | some (negative, ds) => 'e' :: (if negative then '-' :: ds else ds)

def signChars : Option Sign → List Char
  | none => []
  | some s => [s.char]

def chars (n : Numeral) : List Char :=
  signChars n.sign ++ (n.whole ++ (fractionChars n.fraction ++ exponentChars n.exponent))

def scanSign : List Char → Option Sign × List Char
  | '-' :: cs => (some .minus, cs)
  | '+' :: cs => (some .plus, cs)
  | cs => (none, cs)

/-- A point belongs to the numeral if a digit stands on either side of it. -/
def scanFraction (whole : List Char) : List Char → Option (List Char) × List Char
  | '.' :: cs =>
    let ds := cs.takeWhile isDecimalDigit
    if whole = [] ∧ ds = [] then (none, '.' :: cs) else (some ds, cs.dropWhile isDecimalDigit)
  | cs => (none, cs)

/-- An `e` belongs to the numeral if digits follow, with at most a minus sign between. -/
def scanExponent : List Char → Option (Bool × List Char) × List Char
  | 'e' :: '-' :: cs =>
    let ds := cs.takeWhile isDecimalDigit
    if ds = [] then (none, 'e' :: '-' :: cs) else (some (true, ds), cs.dropWhile isDecimalDigit)
  | 'e' :: cs =>
    let ds := cs.takeWhile isDecimalDigit
    if ds = [] then (none, 'e' :: cs) else (some (false, ds), cs.dropWhile isDecimalDigit)
  | cs => (none, cs)

/-- The numeral at the front of the text with its parts, and what follows it. -/
def scan (cs : List Char) : Numeral × List Char :=
  let (sign, cs) := scanSign cs
  let whole := cs.takeWhile isDecimalDigit
  let (fraction, cs) := scanFraction whole (cs.dropWhile isDecimalDigit)
  let (exponent, cs) := scanExponent cs
  (⟨sign, whole, fraction, exponent⟩, cs)

/-- `[-+]?` -/
def signPattern : Pattern := .opt (.one fun c => c = '-' || c = '+')

/-- `\d+` -/
def digitsPattern : Pattern := .plus isDecimalDigit

/-- `e-?\d+` -/
def exponentPattern : Pattern := .seq (.char 'e') (.seq (.opt (.char '-')) digitsPattern)

/-- `\d+\.\d*|\.\d+` -/
def pointPattern : Pattern :=
  .alt (.seq digitsPattern (.seq (.char '.') (.many isDecimalDigit))) (.seq (.char '.') digitsPattern)

/-- `[-+]?(?:(?:\d+\.\d*|\.\d+)(?:e-?\d+)?|\d+e-?\d+)` -/
def floatPattern : Pattern :=
  .seq signPattern (.alt (.seq pointPattern (.opt exponentPattern)) (.seq digitsPattern exponentPattern))

/-- `[-+]?\d+` -/
def integerPattern : Pattern := .seq signPattern digitsPattern

/-- Floats have a point or an exponent. -/
def isFloat (n : Numeral) : Bool := n.fraction.isSome || n.exponent.isSome

def digits (n : Numeral) : List Char := n.whole ++ n.fraction.getD []

def exponentDigits (n : Numeral) : List Char := (n.exponent.map (·.2)).getD []

/-- The number without its sign. -/
def magnitude (n : Numeral) : Decimal :=
  let scale := -((n.fraction.getD []).length : Int)
  let e := (Nat.ofDigitChars 10 n.exponentDigits 0 : Int)
  let e := if (n.exponent.map (·.1)).getD false then -e else e
  ⟨Nat.ofDigitChars 10 n.digits 0, e + scale⟩

def toFloat? (n : Numeral) : Option Float :=
  if (n.digits ++ n.exponentDigits).all Char.isDigit then
    let x := n.magnitude.toFloat
    some (if n.sign = some .minus then -x else x)
  else none

def toInt? (n : Numeral) : Option Int64 :=
  if n.whole.all Char.isDigit then
    let i : Int := Nat.ofDigitChars 10 n.whole 0
    let i := if n.sign = some .minus then -i else i
    if Int64.minValue.toInt ≤ i ∧ i ≤ Int64.maxValue.toInt then some (Int64.ofInt i) else none
  else none

end Numeral

end CaseSetup
