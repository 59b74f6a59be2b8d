import CaseSetup.Block.Nested
import CaseSetup.Path

/-! # Changing blocks in place

A `Change` is made to the block at a `Spot` of a document. It either gives a new document, in which
all else is as before, or fails and gives none. -/

namespace CaseSetup

inductive Change
  | add (name : String) (v : Value)
  | set (name : String) (v : Value)
  /-- Replace the value at a dotted path. -/
  | setPath (path : String) (v : Value)
  | remove (name : String)
  | clear

/-- The block to change. -/
inductive Spot
  | here
  | child (name : String)
  /-- The nested block at a dotted path. -/
  | inside (path : String)

namespace Block

/-- Put the block that `f` makes of the one at the end of `names` in its place. -/
def modifyAt {α : Type} (f : Block → Except Fault (α × Block)) :
    List String → Block → Except Fault (α × Block)
  | [], b => f b
  | name :: names, b => do
    let (a, c) ← modifyAt f names (← b.child name)
    return (a, Entries.replace name (.block c) b)

/-- Replace the value at the end of the names. -/
def setAt (v : Value) : List String → Block → Except Fault Block
  | [], _ => .error (.missingName "")
  | [name], b => b.set name v
  | name :: names, b => do
    let c ← setAt v names (← b.child name)
    return Entries.replace name (.block c) b

def setPath (b : Block) (path : String) (v : Value) : Except Fault Block := do
  b.setAt v (← Path.names path)

end Block

def Spot.names : Spot → Except Fault (List String)
  | here => .ok []
  | child name => .ok [name]
  | inside path => Path.names path

namespace Change

/-- The block after the change, and the value it took out. -/
def apply (b : Block) : Change → Except Fault (Option Value × Block)
  | add name v => (none, ·) <$> b.add name v
  | set name v => (none, ·) <$> b.set name v
  | setPath path v => (none, ·) <$> b.setPath path v
  | remove name => (fun (v, b) => (some v, b)) <$> b.remove name
  | clear => .ok (none, [])

def applyAt (c : Change) (spot : Spot) (b : Block) : Except Fault (Option Value × Block) := do
  b.modifyAt c.apply (← spot.names)

end Change

end CaseSetup
