import CaseSetup.Decimal.Shortest

/-! # Written forms of floating-point numbers

A `NumberStyle` says where positional notation ends, how an exponent is signed and which way a tie
between two shortest decimals goes. -/

namespace CaseSetup

open Decimal (Tie)

/-- Numbers `x` with `10 ^ least ≤ x < 10 ^ beyond`, and zero, are written positionally. -/
structure NumberStyle where
  least : Int
  beyond : Int
  /-- Is a positive exponent written with a plus sign? -/
  plus : Bool
  tie : Tie

namespace NumberStyle

/-- Digits with a point and at least one digit on either side of it. -/
def positional (digits : List Char) (exponent : Int) : List Char :=
  let decade := digits.length - 1 + exponent
  if 0 ≤ exponent then digits ++ List.replicate exponent.toNat '0' ++ ['.', '0']
  else if 0 ≤ decade then digits.take (decade.toNat + 1) ++ '.' :: digits.drop (decade.toNat + 1)
  else '0' :: '.' :: List.replicate (-decade - 1).toNat '0' ++ digits

def exponentSign (s : NumberStyle) (e : Int) : List Char :=
  if e < 0 then ['-'] else if s.plus then ['+'] else []

/-- One digit before the point, no point when that is the only digit. -/
def scientific (s : NumberStyle) (digits : List Char) (exponent : Int) : List Char :=
  let decade := digits.length - 1 + exponent
  let fraction := digits.drop 1
  digits.take 1 ++ (if fraction.isEmpty then [] else '.' :: fraction) ++
    'e' :: s.exponentSign decade ++ Nat.toDigits 10 decade.natAbs

def decimal (s : NumberStyle) (d : Decimal) : List Char :=
  let digits := Nat.toDigits 10 d.digits
  let decade := digits.length - 1 + d.exponent
  if s.least ≤ decade ∧ decade < s.beyond then positional digits d.exponent
  else s.scientific digits d.exponent

/-- The text of `± m * 2 ^ q`, a decimal reading back when it passes the test. -/
def finite (s : NumberStyle) (readsBack : Decimal → Bool) (m : Nat) (q : Int) : List Char :=
  s.decimal (Decimal.shortest s.tie readsBack m q)

open Float.Model in
def unpacked (s : NumberStyle) (readsBack : Decimal → Bool) : UnpackedFloat → List Char
  | .notANumber => ['N', 'a', 'N']
  | .infinity .positive => ['i', 'n', 'f']
  | .infinity .negative => ['-', 'i', 'n', 'f']
  | .zero .positive => ['0', '.', '0']
  | .zero .negative => ['-', '0', '.', '0']
  | .finite .positive m q _ => s.finite readsBack m q
  | .finite .negative m q _ => '-' :: s.finite readsBack m q

def float (s : NumberStyle) (x : Float) : String :=
  .ofList (s.unpacked (fun d => d.toFloat = x.abs) x.toModel.unpack)

def float32 (s : NumberStyle) (x : Float32) : String :=
  .ofList (s.unpacked (fun d => d.toFloat32 = x.abs) x.toModel.unpack)

end NumberStyle

end CaseSetup
