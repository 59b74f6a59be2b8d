import CaseSetup.Value.Basic

/-! # Induction on values

A value may be assumed of the members of its lists and entries when it is proved of the whole. -/

namespace CaseSetup

section

variable {P : Value → Prop} (bool : ∀ b, P (.bool b)) (int : ∀ n, P (.int n)) (float : ∀ x, P (.float x))
  (str : ∀ s, P (.str s)) (list : ∀ items, (∀ v ∈ items, P v) → P (.list items))
  (tuple : ∀ items, (∀ v ∈ items, P v) → P (.tuple items))
  (dict : ∀ entries, (∀ e ∈ entries, P e.2) → P (.dict entries))
  (block : ∀ entries, (∀ e ∈ entries, P e.2) → P (.block entries))
  (neg : ∀ operand, P operand → P (.neg operand))
  (binary : ∀ op left right, P left → P right → P (.binary op left right)) (var : ∀ name, P (.var name))

include bool int float str list tuple dict block neg binary var

set_option linter.unusedSectionVars false

mutual
theorem Value.induction : ∀ v, P v
  | .bool b => bool b
  | .int n => int n
  | .float x => float x
  | .str s => str s
  | .list items => list items (Value.induction_items items)
  | .tuple items => tuple items (Value.induction_items items)
  | .dict entries => dict entries (Value.induction_dict entries)
  | .block entries => block entries (Value.induction_block entries)
  | .neg v => neg v v.induction
  | .binary op l r => binary op l r l.induction r.induction
  | .var s => var s

theorem Value.induction_items : ∀ items : List Value, ∀ v ∈ items, P v
  | [] => fun _ h => absurd h List.not_mem_nil
  | v :: items => List.forall_mem_cons.2 ⟨v.induction, Value.induction_items items⟩

theorem Value.induction_dict : ∀ entries : List (Key × Value), ∀ e ∈ entries, P e.2
  | [] => fun _ h => absurd h List.not_mem_nil
  | (_, v) :: entries => List.forall_mem_cons.2 ⟨v.induction, Value.induction_dict entries⟩

theorem Value.induction_block : ∀ entries : List (String × Value), ∀ e ∈ entries, P e.2
  | [] => fun _ h => absurd h List.not_mem_nil
  | (_, v) :: entries => List.forall_mem_cons.2 ⟨v.induction, Value.induction_block entries⟩
end

end

end CaseSetup
