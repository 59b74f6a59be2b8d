import CaseSetup.Conversion
import CaseSetup.Scope

/-! # Queries by dotted path -/

namespace CaseSetup.Block

/-- The value at a dotted path. The hint of a missing name says what was looked up. -/
def getPath (b : Block) (path : String) : Except Fault Value :=
  (b.scope.lookup path).mapError fun f => match f.cause with
    | .missingName _ => f.withHint s!"While looking up '{path}'"
    | _ => f

/-- The typed value at a dotted path. -/
def getAs (b : Block) (t : Target) (path : String) : Except Fault t.Carrier := do
  let v ← b.getPath path
  (v.convert t).mapError (·.withHint s!"While converting '{path}'")

/-- Does the chain of names end in a bound one? -/
def hasNames (b : Block) : List String → Bool
  | [] => false
  | [name] => b.binds name
  | name :: names => match b.lookup name with
    | some (.block c) => hasNames c names
    | _ => false

/-- Is the path bound? Nothing is evaluated. -/
def has (b : Block) (path : String) : Bool :=
  match Path.names path with
  | .ok names => b.hasNames names
  | .error _ => false

/-- The typed value at a dotted path, or nothing if the path is not bound. -/
def getOptional (b : Block) (t : Target) (path : String) : Except Fault (Option t.Carrier) :=
  if b.has path then some <$> b.getAs t path else .ok none

/-- The typed value at a dotted path, or the default if there is any fault. -/
def getOr (b : Block) (t : Target) (path : String) (default : t.Carrier) : t.Carrier :=
  match b.getAs t path with
  | .ok x => x
  | .error _ => default

/-- The names bound in the block at a path; a blank path is the document. -/
def keys (b : Block) (path : String) : Except Fault (List String) :=
  if Path.isBlank path then .ok b.names
  else (fun (s : Scope) => s.block.names) <$> b.scope.descend path

end CaseSetup.Block
