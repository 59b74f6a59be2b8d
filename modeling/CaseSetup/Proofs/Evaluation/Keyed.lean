import CaseSetup.Value.Basic

/-! # Values with distinct keys

Reading and every operation on blocks and dictionaries keep the names of a block and the keys of a
dictionary distinct, so every value that can be built is keyed. -/

namespace CaseSetup

mutual
/-- Is no name bound twice in a block and no key twice in a dictionary, however deep? -/
def Value.isKeyed : Value → Bool
  | .bool _ | .int _ | .float _ | .str _ | .var _ => true
  | .list items | .tuple items => itemsKeyed items
  | .dict entries => decide (Entries.keys entries).Nodup && dictKeyed entries
  | .block entries => decide (Entries.keys entries).Nodup && blockKeyed entries
  | .neg v => v.isKeyed
  | .binary _ l r => l.isKeyed && r.isKeyed
termination_by structural v => v

def itemsKeyed : List Value → Bool
  | [] => true
  | v :: vs => v.isKeyed && itemsKeyed vs
termination_by structural vs => vs

def dictKeyed : List (Key × Value) → Bool
  | [] => true
  | (_, v) :: es => v.isKeyed && dictKeyed es
termination_by structural es => es

def blockKeyed : List (String × Value) → Bool
  | [] => true
  | (_, v) :: es => v.isKeyed && blockKeyed es
termination_by structural es => es
end

theorem itemsKeyed_iff {vs : List Value} : itemsKeyed vs ↔ ∀ v ∈ vs, v.isKeyed := by
  induction vs with
  | nil => simp [itemsKeyed]
  | cons v vs ih => simp [itemsKeyed, ih]

theorem dictKeyed_iff {es : List (Key × Value)} : dictKeyed es ↔ ∀ e ∈ es, e.2.isKeyed := by
  induction es with
  | nil => simp [dictKeyed]
  | cons e es ih => simp [dictKeyed, ih]

theorem blockKeyed_iff {es : List (String × Value)} : blockKeyed es ↔ ∀ e ∈ es, e.2.isKeyed := by
  induction es with
  | nil => simp [blockKeyed]
  | cons e es ih => simp [blockKeyed, ih]

/-- Is the block, as a value, keyed? -/
def Block.isKeyed (b : Block) : Bool := (Value.block b).isKeyed

theorem Block.isKeyed_iff {b : Block} : b.isKeyed ↔ (Entries.keys b).Nodup ∧ ∀ e ∈ b, e.2.isKeyed := by
  simp [Block.isKeyed, Value.isKeyed, blockKeyed_iff]

theorem Value.isKeyed_dict {es : Dict} :
    (Value.dict es).isKeyed ↔ (Entries.keys es).Nodup ∧ ∀ e ∈ es, e.2.isKeyed := by
  simp [Value.isKeyed, dictKeyed_iff]

end CaseSetup
