/-! # Decimal numbers

`Decimal` is a natural number times a power of ten. Reading one as a floating-point number rounds to
the nearest, a tie to the even significand; beyond the largest finite number it gives infinity. -/

namespace CaseSetup

/-- The number `digits * 10 ^ exponent`. -/
structure Decimal where
  digits : Nat
  exponent : Int
  deriving DecidableEq, Repr

namespace Decimal

/-- The nearest double-precision number. -/
def toFloat (d : Decimal) : Float := .ofModel (.ofScientific d.digits d.exponent)

/-- The nearest single-precision number. -/
def toFloat32 (d : Decimal) : Float32 := .ofModel (.ofScientific d.digits d.exponent)

/-- The same number with no zero at the end of its digits. -/
def strip (d : Decimal) : Decimal :=
  if h : 0 < d.digits ∧ d.digits % 10 = 0 then strip ⟨d.digits / 10, d.exponent + 1⟩ else d
termination_by d.digits
decreasing_by exact Nat.div_lt_self h.1 (by decide)

/-- The number `m * 2 ^ q`, every digit of it. -/
def exact (m : Nat) (q : Int) : Decimal :=
  if 0 ≤ q then ⟨m * Nat.pow 2 q.toNat, 0⟩ else ⟨m * Nat.pow 5 (-q).toNat, q⟩

end Decimal

end CaseSetup
