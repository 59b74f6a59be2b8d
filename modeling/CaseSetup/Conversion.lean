import CaseSetup.Fault
import CaseSetup.Value.Inspect

/-! # Typed values

A `Target` is a type that values can be converted to, and `Target.Carrier` the type itself. A
conversion fails at the first part, in stored order, that does not fit. -/

namespace CaseSetup

/-- The integer types, by their least and greatest element. -/
inductive IntKind
  | int32
  | int64
  | uint8
  | uint16
  | uint32
  | uint64
  | usize
  deriving DecidableEq, Repr

namespace IntKind

def name : IntKind → String
  | int32 => "i32"
  | int64 => "i64"
  | uint8 => "u8"
  | uint16 => "u16"
  | uint32 => "u32"
  | uint64 => "u64"
  | usize => "usize"

def least : IntKind → Int
  | int32 => Int32.minValue.toInt
  | int64 => Int64.minValue.toInt
  | _ => 0

def greatest : IntKind → Int
  | int32 => Int32.maxValue.toInt
  | int64 => Int64.maxValue.toInt
  | uint8 => UInt8.size - 1
  | uint16 => UInt16.size - 1
  | uint32 => UInt32.size - 1
  | uint64 | usize => UInt64.size - 1

/-- The integers of the kind. -/
def Range (k : IntKind) : Type := { i : Int // k.least ≤ i ∧ i ≤ k.greatest }

end IntKind

inductive Target
  | str
  | bool
  | float
  | float32
  | int (k : IntKind)
  | block
  | list (t : Target)
  | pair (s t : Target)
  /-- Names with values, from a block or a dictionary with string keys. -/
  | map (t : Target)
  deriving DecidableEq, Repr

/-- The values of a target. -/
def Target.Carrier : Target → Type
  | str => String
  | bool => Bool
  | float => Float
  | float32 => Float32
  | int k => k.Range
  | block => Block
  | list t => List t.Carrier
  | pair s t => s.Carrier × t.Carrier
  | map t => List (String × t.Carrier)

namespace Fault

/-- A value of another type than expected. -/
def mismatch (expected : String) (v : Value) (hint : String) (code : Nat) : Fault :=
  ⟨.wrongType s!"Expected {expected}, got {v.typeName} {v.inspect}", some hint, some code⟩

def notAString (v : Value) : Fault := mismatch "string" v "Use a quoted string in your config" 410

def notABoolean (v : Value) : Fault := mismatch "boolean" v "Use TRUE or FALSE in your config" 411

def notANumber (v : Value) : Fault := mismatch "number" v "Use a number value in your config" 412

def notAnInteger (v : Value) : Fault :=
  mismatch "integer" v "Write whole numbers without a decimal point" 413

def outOfRange (n : Int64) (k : IntKind) : Fault :=
  ⟨.wrongType s!"Number {Literal.int n} out of range for {k.name}",
    some s!"Use a number between {k.least} and {k.greatest}", some 414⟩

def notAList (v : Value) : Fault := mismatch "list" v "Use [a, b, ...] or a, b, ... in your config" 415

def notAPair (v : Value) : Fault := mismatch "pair" v "Use (a, b) format" 416

def notADictionary (v : Value) : Fault :=
  mismatch "dictionary" v "Use \x7b\"key\": value\x7d or a block" 417

def notAStringKey (k : Key) : Fault :=
  ⟨.wrongType s!"Expected string dictionary key, got {k.text}",
    some "Quote dictionary keys to use them by name", some 417⟩

def notABlockValue (v : Value) : Fault := mismatch "block" v "Use name \x7b ... \x7d in your config" 418

end Fault

namespace Value

def toStr : Value → Except Fault String
  | str s => .ok s
  | v => .error (.notAString v)

def toBool : Value → Except Fault Bool
  | bool b => .ok b
  | v => .error (.notABoolean v)

/-- Integers count as numbers, rounded to the nearest float. -/
def toNumber : Value → Except Fault Float
  | float x => .ok x
  | int n => .ok (.ofInt n.toInt)
  | v => .error (.notANumber v)

def toInt (k : IntKind) : Value → Except Fault k.Range
  | int n => if h : k.least ≤ n.toInt ∧ n.toInt ≤ k.greatest then .ok ⟨n.toInt, h⟩ else .error (.outOfRange n k)
  | v => .error (.notAnInteger v)

def toBlock : Value → Except Fault Block
  | block b => .ok b
  | v => .error (.notABlockValue v)

/-- The value as an element of the target. -/
def convert : (t : Target) → Value → Except Fault t.Carrier
  | .str, v => v.toStr
  | .bool, v => v.toBool
  | .float, v => v.toNumber
  | .float32, v => Float.toFloat32 <$> v.toNumber
  | .int k, v => v.toInt k
  | .block, v => v.toBlock
  | .list t, v => match v with
    | list vs | tuple vs => vs.mapM (convert t)
    | v => .error (.notAList v)
  | .pair s t, v => match v with
    | list [a, b] | tuple [a, b] => do
      let x ← convert s a
      let y ← convert t b
      return (x, y)
    | v => .error (.notAPair v)
  | .map t, v => match v with
    | dict es => es.mapM fun
      | (.str name, v) => (name, ·) <$> convert t v
      | (k, _) => .error (.notAStringKey k)
    | block es => es.mapM fun (name, v) => (name, ·) <$> convert t v
    | v => .error (.notADictionary v)

end Value

end CaseSetup
