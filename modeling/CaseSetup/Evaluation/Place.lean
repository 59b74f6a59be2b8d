import CaseSetup.Value.Basic

/-! # Places in a tree of values

A block is identified by where it stands, not by what it holds. `Value.refs` lists every binding of
every block in a value, however deep. -/

namespace CaseSetup

/-- From a value to a part of it. -/
inductive Step
  | entry (name : String)
  | key (k : Key)
  | item (i : Nat)
  | operand
  | left
  | right
  /-- From nowhere to a value that is no part of the document. -/
  | loose
  deriving DecidableEq

/-- The steps from the document root, the innermost first. -/
abbrev Place := List Step

/-- A binding: the place of its block, and its name. -/
structure Ref where
  place : Place
  name : String
  deriving DecidableEq

/-- A block and where it stands. -/
structure Site where
  place : Place
  block : Block

namespace Site

/-- The document as a whole. -/
def root (b : Block) : Site := ⟨[], b⟩

def ref (s : Site) (name : String) : Ref := ⟨s.place, name⟩

end Site

mutual
/-- The bindings in a value that stands at `p`. -/
def Value.refs (p : Place) : Value → List Ref
  | .bool _ | .int _ | .float _ | .str _ | .var _ => []
  | .list items | .tuple items => itemRefs p 0 items
  | .dict entries => keyRefs p entries
  | .block entries => entryRefs p entries
  | .neg v => v.refs (.operand :: p)
  | .binary _ l r => l.refs (.left :: p) ++ r.refs (.right :: p)
termination_by structural v => v

def itemRefs (p : Place) (i : Nat) : List Value → List Ref
  | [] => []
  | v :: vs => v.refs (.item i :: p) ++ itemRefs p (i + 1) vs
termination_by structural vs => vs

def keyRefs (p : Place) : List (Key × Value) → List Ref
  | [] => []
  | (k, v) :: es => v.refs (.key k :: p) ++ keyRefs p es
termination_by structural es => es

def entryRefs (p : Place) : List (String × Value) → List Ref
  | [] => []
  | (name, v) :: es => ⟨p, name⟩ :: v.refs (.entry name :: p) ++ entryRefs p es
termination_by structural es => es
end

/-- The bindings of a document. -/
def Block.refs (b : Block) : List Ref := entryRefs [] b

end CaseSetup
