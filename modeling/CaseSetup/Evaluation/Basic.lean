import CaseSetup.Block.Basic
import CaseSetup.Evaluation.Arithmetic
import CaseSetup.Evaluation.Place

/-! # Evaluation

Values are evaluated afresh on every read. A reference is looked up in the block it is written in,
then in the document root, and nowhere else; the entries of a nested block are written inside that
block. Reading a binding makes it active until its value is known, and an active binding cannot be
read again. The bindings not active are the `pending` ones, so evaluation ends when none is left. -/

namespace CaseSetup

namespace Fault

/-- The binding `name` was read while it was active; `active` starts with the first one read. -/
def circular (active : List String) (name : String) : Fault :=
  let chain := " -> ".intercalate (active ++ [name])
  ⟨.badValue s!"circular reference to \"{name}\"", some s!"Reference chain: {chain}", some 403⟩

def unresolved (name : String) : Fault :=
  (missingName name).withHint "Names resolve in the enclosing block, then in the document root"

end Fault

namespace Value

variable (root here : Site) (enter : Site → String → Except Fault Value)

mutual
/-- The value of what is written in the block `here` at the place `p`, where `enter` reads a binding. -/
def evaluateWith (p : Place) : Value → Except Fault Value
  | bool b => .ok (bool b)
  | int n => .ok (int n)
  | float x => .ok (float x)
  | str s => .ok (str s)
  | list items => list <$> evaluateItems p 0 items
  | tuple items => tuple <$> evaluateItems p 0 items
  | dict entries => dict <$> evaluateDict p entries
  | block b => block <$> b.mapM fun (name, _) => (name, ·) <$> enter ⟨p, b⟩ name
  | neg v => do Arithmetic.negate (← evaluateWith (.operand :: p) v)
  | binary op l r => do
    let a ← evaluateWith (.left :: p) l
    let b ← evaluateWith (.right :: p) r
    Arithmetic.apply op a b
  | var name =>
    if here.block.binds name then enter here name
    else if root.block.binds name then enter root name
    else .error (.unresolved name)
termination_by structural v => v

def evaluateItems (p : Place) (i : Nat) : List Value → Except Fault (List Value)
  | [] => .ok []
  | v :: vs => do
    let a ← evaluateWith (.item i :: p) v
    let as ← evaluateItems p (i + 1) vs
    return a :: as
termination_by structural vs => vs

def evaluateDict (p : Place) : List (Key × Value) → Except Fault Dict
  | [] => .ok []
  | (k, v) :: es => do
    let a ← evaluateWith (.key k :: p) v
    let as ← evaluateDict p es
    return (k, a) :: as
termination_by structural es => es
end

end Value

/-- The other pending bindings once `r` is active. -/
def without (r : Ref) (pending : List Ref) : List Ref := pending.filter (· ≠ r)

@[simp] theorem mem_without {r s : Ref} {pending : List Ref} :
    s ∈ without r pending ↔ s ∈ pending ∧ s ≠ r := by
  simp [without]

theorem length_without_lt {r : Ref} {pending : List Ref} (h : r ∈ pending) :
    (without r pending).length < pending.length :=
  List.length_filter_lt_length_iff_exists.2 ⟨r, h, by simp⟩

/-- The value of the binding `name` of `here`. -/
def evaluateBinding (root : Site) (active : List Ref) (pending : List Ref) (here : Site) (name : String) :
    Except Fault Value :=
  match here.block.lookup name with
  | none => .error (.missingName name)
  | some v =>
    if _h : here.ref name ∈ pending then
      v.evaluateWith root here
        (evaluateBinding root (here.ref name :: active) (without (here.ref name) pending))
        (.entry name :: here.place)
    else .error (.circular (active.reverse.map (·.name)) name)
termination_by pending.length
decreasing_by exact length_without_lt _h

end CaseSetup
