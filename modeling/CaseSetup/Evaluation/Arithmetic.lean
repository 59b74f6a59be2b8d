import CaseSetup.Fault
import CaseSetup.Value.Literal

/-! # Arithmetic on values

Integers stay integers except in a quotient and in a power with a negative exponent; a float on
either side makes the operation one on floats. An integer result outside 64 bits is a fault, never
wrapped or rounded. -/

namespace CaseSetup

namespace Fault

def overflow (a : Int64) (op : Op) (b : Int64) : Fault :=
  badValue s!"integer overflow in {Literal.int a} {op.symbol} {Literal.int b}"

def negationOverflow (n : Int64) : Fault := badValue s!"integer overflow negating {Literal.int n}"

def divisionByZero : Fault := badValue "division by zero"

def zeroToNegative : Fault := badValue "zero cannot be raised to a negative power"

def negativeToFraction : Fault := badValue "negative number cannot be raised to a fractional power"

def badOperand (op : Op) (v : Value) : Fault :=
  wrongType s!"unsupported operand type for {op.symbol}: {v.typeName}"

def badNegation (v : Value) : Fault := wrongType s!"bad operand type for unary -: {v.typeName}"

end Fault

namespace Arithmetic

/-- The integer of 64 bits with value `i`, if there is one. -/
def fit? (i : Int) : Option Int64 :=
  if Int64.minValue.toInt ≤ i ∧ i ≤ Int64.maxValue.toInt then some (.ofInt i) else none

/-- The power `a ^ n` if it can fit 64 bits. Only a base of magnitude at most one has a power
beyond the 63rd that fits, and its powers depend on the parity of the exponent. -/
def power? (a : Int) (n : Nat) : Option Int :=
  if a.natAbs ≤ 1 then some (Int.pow a (min n (2 - n % 2))) else if n < 64 then some (Int.pow a n) else none

/-- Is `x` a finite number without fraction? -/
def isWhole (x : Float) : Bool :=
  match x.toModel.unpack with
  | .zero _ => true
  | .finite _ m q _ => 0 ≤ q || m % Nat.pow 2 (-q).toNat = 0
  | _ => false

def floatOp (op : Op) (a b : Float) : Except Fault Float :=
  match op with
  | .add => .ok (a + b)
  | .sub => .ok (a - b)
  | .mul => .ok (a * b)
  | .div => if b == 0.0 then .error .divisionByZero else .ok (a / b)
  | .pow =>
    if a == 0.0 && b < 0.0 then .error .zeroToNegative
    else if a < 0.0 && !isWhole b then .error .negativeToFraction
    else .ok (a.pow b)

/-- The largest exponent of an integer power. -/
def maxExponent : Int := 4294967295

def intOp (op : Op) (a b : Int64) : Except Fault Value :=
  let exact (i : Option Int) : Except Fault Value :=
    match i.bind fit? with
    | some n => .ok (.int n)
    | none => .error (.overflow a op b)
  let float := (floatOp op (.ofInt a.toInt) (.ofInt b.toInt)).map Value.float
  match op with
  | .add => exact (some (a.toInt + b.toInt))
  | .sub => exact (some (a.toInt - b.toInt))
  | .mul => exact (some (a.toInt * b.toInt))
  | .div => float
  | .pow =>
    if b.toInt < 0 then float
    else if b.toInt ≤ maxExponent then exact (power? a.toInt b.toInt.toNat)
    else .error (.overflow a op b)

def toFloat (op : Op) : Value → Except Fault Float
  | .int n => .ok (.ofInt n.toInt)
  | .float x => .ok x
  | v => .error (.badOperand op v)

def apply (op : Op) (l r : Value) : Except Fault Value :=
  match l, r with
  | .int a, .int b => intOp op a b
  | l, r => do
    let a ← toFloat op l
    let b ← toFloat op r
    return .float (← floatOp op a b)

def negate : Value → Except Fault Value
  | .int n => match fit? (-n.toInt) with
    | some m => .ok (.int m)
    | none => .error (.negationOverflow n)
  | .float x => .ok (.float (-x))
  | v => .error (.badNegation v)

end Arithmetic

end CaseSetup
