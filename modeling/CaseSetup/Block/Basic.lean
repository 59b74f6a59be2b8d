import CaseSetup.Fault
import CaseSetup.Value.Basic

/-! # Blocks as ordered maps

Names are unique in a block and keep the order in which they were bound. -/

namespace CaseSetup.Block

def names (b : Block) : List String := Entries.keys b

def binds (b : Block) (name : String) : Bool := Entries.binds b name

/-- The value as it was written, not evaluated. -/
def raw (b : Block) (name : String) : Except Fault Value :=
  match b.lookup name with
  | some v => .ok v
  | none => .error (.missingName name)

/-- Bind a new name, after all others. -/
def add (b : Block) (name : String) (v : Value) : Except Fault Block :=
  if b.binds name then .error (.duplicateName name) else .ok (b ++ [(name, v)])

/-- Replace the value of a bound name where it stands. -/
def set (b : Block) (name : String) (v : Value) : Except Fault Block :=
  if b.binds name then .ok (Entries.replace name v b) else .error (.missingName name)

/-- The value of a bound name, and the block without it. -/
def remove (b : Block) (name : String) : Except Fault (Value × Block) :=
  match b.lookup name with
  | some v => .ok (v, Entries.erase name b)
  | none => .error (.missingName name)

end CaseSetup.Block
