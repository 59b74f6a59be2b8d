import CaseSetup.Json.Basic
import CaseSetup.Writing

/-! # Configurations as JSON

Blocks and dictionaries become objects in the order of their entries, lists and tuples arrays, and
expressions the text they are written as. -/

namespace CaseSetup

def Fault.exportFailed (f : Fault) : Fault := ⟨.badValue s!"JSON export failed: {f.message}", none, some 405⟩

/-- The member name of a dictionary entry: strings as they are, all else as it is written. -/
def Key.member : Key → String
  | str s => s
  | bool b => toString b
  | k => k.text

mutual
def Value.toJson : Value → Except Fault Json
  | .bool b => .ok (.bool b)
  | .int n => .ok (.int n.toInt)
  | .float x => .ok (.ofFloat x)
  | .str s => .ok (.str s)
  | .list items | .tuple items => .arr <$> jsonItems items
  | .dict entries => .obj <$> jsonEntries entries
  | .block entries => .obj <$> jsonBindings entries
  | .neg v => .str <$> (Value.neg v).written
  | .binary op l r => .str <$> (Value.binary op l r).written
  | .var name => .ok (.str name)
termination_by structural v => v

def jsonItems : List Value → Except Fault (List Json)
  | [] => .ok []
  | v :: vs => do
    let j ← v.toJson
    let js ← jsonItems vs
    return j :: js
termination_by structural vs => vs

def jsonEntries : List (Key × Value) → Except Fault (List (String × Json))
  | [] => .ok []
  | (k, v) :: es => do
    let j ← v.toJson
    let js ← jsonEntries es
    return (k.member, j) :: js
termination_by structural es => es

def jsonBindings : List (String × Value) → Except Fault (List (String × Json))
  | [] => .ok []
  | (name, v) :: es => do
    let j ← v.toJson
    let js ← jsonBindings es
    return (name, j) :: js
termination_by structural es => es
end

namespace Block

/-- The block as it is written, as compact JSON. -/
def rawJson (b : Block) : Except Fault String := do return (← (Value.block b).toJson).compact

/-- The evaluated block as pretty JSON. -/
def exportJson (b : Block) : Except Fault String := do
  match (Value.block (← b.evaluated)).toJson with
  | .ok j => return j.pretty 0
  | .error f => .error (.exportFailed f)

end Block

end CaseSetup
