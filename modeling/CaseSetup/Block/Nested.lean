import CaseSetup.Block.Basic

/-! # Nested blocks

`child` is the block bound to a name, `nested?` the one at the end of a chain of names. -/

namespace CaseSetup

def Fault.notABlock (name : String) (v : Value) : Fault :=
  wrongType s!"\"{name}\" is a {v.typeName}, not a block"

namespace Block

def child (b : Block) (name : String) : Except Fault Block :=
  match b.lookup name with
  | some (.block c) => .ok c
  | some v => .error (.notABlock name v)
  | none => .error (.missingName name)

def nested? : Block → List String → Option Block
  | b, [] => some b
  | b, name :: names => match b.lookup name with
    | some (.block c) => nested? c names
    | _ => none

theorem child_eq_ok {b c : Block} {name : String} : b.child name = .ok c ↔ b.lookup name = some (.block c) := by
  unfold child
  split
  · rename_i h; simp [h]
  · rename_i v hv h
    simp only [reduceCtorEq, false_iff, h, Option.some.injEq]
    exact hv c
  · rename_i h; simp [h]

theorem nested?_append (b : Block) (ns ms : List String) :
    b.nested? (ns ++ ms) = (b.nested? ns).bind (·.nested? ms) := by
  induction ns generalizing b with
  | nil => rfl
  | cons n ns ih =>
    simp only [List.cons_append, nested?]
    split
    · exact ih _
    · rfl

theorem nested?_child {root b c : Block} {ns : List String} {name : String} (h : root.nested? ns = some b)
    (hc : b.lookup name = some (.block c)) : root.nested? (ns ++ [name]) = some c := by
  rw [nested?_append, h]; simp [nested?, hc]

end Block

end CaseSetup
