import CaseSetup.Block.Nested
import CaseSetup.Evaluation.Basic
import CaseSetup.Path
import CaseSetup.Value.Equality

/-! # Scopes

A scope is a block of a document, together with the document: references written in the block are
looked up in it and then in the root. Reading a nested block gives its scope and evaluates nothing. -/

namespace CaseSetup

/-- The block reached from `root` by the names of `path`. -/
structure Scope where
  root : Block
  path : List String
  block : Block
  nested : root.nested? path = some block

/-- What a name is read as. -/
inductive Reading
  | value (v : Value)
  | scope (s : Scope)

namespace Scope

def isRoot (s : Scope) : Bool := s.path.isEmpty

def site (s : Scope) : Site := ⟨(s.path.map Step.entry).reverse, s.block⟩

/-- The value of a binding; that of a nested block has all its entries evaluated. -/
def value (s : Scope) (name : String) : Except Fault Value :=
  evaluateBinding (.root s.root) [] s.root.refs s.site name

/-- The value of `v` as if it were written in the scope. -/
def evaluate (s : Scope) (v : Value) : Except Fault Value :=
  v.evaluateWith (.root s.root) s.site
    (evaluateBinding (.root s.root) [] (s.root.refs ++ v.refs [.loose])) [.loose]

/-- The block of the scope with every binding evaluated. -/
def evaluatedBlock (s : Scope) : Except Fault Block :=
  s.block.mapM fun (name, _) => (name, ·) <$> s.value name

/-- Step into a nested block. -/
def child (s : Scope) (name : String) : Except Fault Scope :=
  match h : s.block.child name with
  | .ok c => .ok ⟨s.root, s.path ++ [name], c, Block.nested?_child s.nested (Block.child_eq_ok.1 h)⟩
  | .error f => .error f

def get (s : Scope) (name : String) : Except Fault Reading := do
  match ← s.block.raw name with
  | .block _ => .scope <$> s.child name
  | _ => .value <$> s.value name

/-- Step through nested blocks and evaluate the last name. -/
def follow (s : Scope) : List String → Except Fault Value
  | [] => .error (.missingName "")
  | [name] => s.value name
  | name :: names => do (← s.child name).follow names

/-- The value at a dotted path. -/
def lookup (s : Scope) (path : String) : Except Fault Value := do s.follow (← Path.names path)

/-- The nested block at a dotted path. -/
def descend (s : Scope) (path : String) : Except Fault Scope := do
  (← Path.names path).foldlM child s

end Scope

namespace Block

/-- The block as the root of a document. -/
def scope (b : Block) : Scope := ⟨b, [], b, rfl⟩

/-- The document with every binding evaluated. -/
def evaluated (b : Block) : Except Fault Block := b.scope.evaluatedBlock

end Block

namespace Reading

def get (r : Reading) (name : String) : Except Fault Reading :=
  match r with
  | scope s => s.get name
  | value v => .error (.wrongType s!"cannot read \"{name}\" from a {v.typeName}")

def scope? : Reading → Option Scope
  | scope s => some s
  | value _ => none

/-- The value read; a block is evaluated entry by entry. -/
def toValue : Reading → Except Fault Value
  | value v => .ok v
  | scope s => .block <$> s.evaluatedBlock

/-- Does the reading equal `v`? A nested block is compared as it was written. -/
def same : Reading → Value → Bool
  | value v, w => v.same w
  | scope s, .block b => Block.same s.block b
  | scope _, _ => false

end Reading

end CaseSetup
