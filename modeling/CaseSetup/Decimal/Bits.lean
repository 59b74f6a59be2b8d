/-! # Floats bit for bit

A `Float` is a number, and all NaNs are one. The bits tell them apart, and the two zeros too. -/

namespace CaseSetup

/-- A float as it is stored. -/
structure FloatBits where
  bits : UInt64
  deriving DecidableEq

namespace FloatBits

def ofFloat (x : Float) : FloatBits := ⟨x.toBits⟩

/-- The number that the bits stand for. -/
def toFloat (x : FloatBits) : Float := .ofBits x.bits

instance : Coe Float FloatBits := ⟨ofFloat⟩

instance : Coe FloatBits Float := ⟨toFloat⟩

end FloatBits

end CaseSetup
