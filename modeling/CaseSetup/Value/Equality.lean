import CaseSetup.Value.Basic

/-! # Equal values

Two values are equal when they have the same shape and equal parts, whatever the order of their
entries. Floats compare as numbers, so a value that holds a NaN does not equal itself. -/

namespace CaseSetup

namespace Value

mutual
/-- Equality up to the order of entries. -/
def same : Value → Value → Bool
  | bool a, bool b => a = b
  | int a, int b => a = b
  | float a, float b => a == b
  | str a, str b => a = b
  | list as, list bs => allSame as bs
  | tuple as, tuple bs => allSame as bs
  | dict as, dict bs => as.length = bs.length && dictWithin as bs
  | block as, block bs => as.length = bs.length && blockWithin as bs
  | neg a, neg b => a.same b
  | binary o a a', binary p b b' => o = p && a.same b && a'.same b'
  | var a, var b => a = b
  | _, _ => false
termination_by structural v => v

def allSame : List Value → List Value → Bool
  | [], [] => true
  | a :: as, b :: bs => a.same b && allSame as bs
  | _, _ => false
termination_by structural vs => vs

/-- Is every entry found in `bs` with an equal value? -/
def dictWithin : List (Key × Value) → Dict → Bool
  | [], _ => true
  | (k, a) :: as, bs => (match bs.lookup k with | some b => a.same b | none => false) && dictWithin as bs
termination_by structural es => es

def blockWithin : List (String × Value) → Block → Bool
  | [], _ => true
  | (k, a) :: as, bs => (match bs.lookup k with | some b => a.same b | none => false) && blockWithin as bs
termination_by structural es => es
end

end Value

namespace Block

def same (a b : Block) : Bool := (Value.block a).same (.block b)

end Block

end CaseSetup
