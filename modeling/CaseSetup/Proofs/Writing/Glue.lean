import CaseSetup.Evaluation.Place
import CaseSetup.Proofs.Decimal.Parts

/-! # Minus signs glued to numbers

A negated number without sign is written with the minus sign right in front of its digits, and there
the sign is read as part of the number. `glue` makes that step everywhere in a tree; it changes
nothing else, in particular no name, no key and no order. -/

namespace CaseSetup

/-- Is this a number that is written without a sign? -/
def Value.isUnsigned : Value → Bool
  | .int n => 0 ≤ n.toInt
  | .float x => !FloatParts.isSigned x
  | _ => false

/-- Is this the integer zero, which has no negative? -/
def Value.isIntZero : Value → Bool
  | .int n => n = 0
  | _ => false

/-- The negation of `v` as it is read back, where `w` is `v` read back. -/
def glueNeg (v w : Value) : Value :=
  match v with
  | .int n => if 0 ≤ n.toInt then .int (-n) else .neg w
  | .float x => if FloatParts.isSigned x then .neg w else .float (-x)
  | _ => .neg w

mutual
/-- The value with every minus sign in front of a number without sign made part of the number. -/
def Value.glue : Value → Value
  | .bool b => .bool b
  | .int n => .int n
  | .float x => .float x
  | .str s => .str s
  | .list items => .list (glueItems items)
  | .tuple items => .tuple (glueItems items)
  | .dict entries => .dict (glueEntries entries)
  | .block b => .block (glueBlock b)
  | .neg v => glueNeg v v.glue
  | .binary op l r => .binary op l.glue r.glue
  | .var s => .var s
termination_by structural v => v

def glueItems : List Value → List Value
  | [] => []
  | v :: vs => v.glue :: glueItems vs
termination_by structural vs => vs

def glueEntries : List (Key × Value) → List (Key × Value)
  | [] => []
  | (k, v) :: es => (k, v.glue) :: glueEntries es
termination_by structural es => es

def glueBlock : List (String × Value) → List (String × Value)
  | [] => []
  | (s, v) :: b => (s, v.glue) :: glueBlock b
termination_by structural b => b
end

def Block.glue (b : Block) : Block := glueBlock b

section

variable (p : Value → Bool)

mutual
/-- Is the operand of some negation in the value one that `p` holds of? -/
def Value.Negates : Value → Prop
  | .bool _ | .int _ | .float _ | .str _ | .var _ => False
  | .list items | .tuple items => ItemsNegate items
  | .dict entries => EntriesNegate entries
  | .block b => BlockNegates b
  | .neg v => p v ∨ v.Negates
  | .binary _ l r => l.Negates ∨ r.Negates
termination_by structural v => v

def ItemsNegate : List Value → Prop
  | [] => False
  | v :: vs => v.Negates ∨ ItemsNegate vs
termination_by structural vs => vs

def EntriesNegate : List (Key × Value) → Prop
  | [] => False
  | (_, v) :: es => v.Negates ∨ EntriesNegate es
termination_by structural es => es

def BlockNegates : List (String × Value) → Prop
  | [] => False
  | (_, v) :: b => v.Negates ∨ BlockNegates b
termination_by structural b => b
end

end

def Block.Negates (p : Value → Bool) (b : Block) : Prop := BlockNegates p b

theorem glueNeg_eq_neg_iff (v w : Value) : (∃ u, glueNeg v w = .neg u) ↔ v.isUnsigned = false := by
  cases v with
  | int n => by_cases h : 0 ≤ n.toInt <;> simp [glueNeg, Value.isUnsigned, h]
  | float x => by_cases h : FloatParts.isSigned x <;> simp [glueNeg, Value.isUnsigned, h]
  | _ => simp [glueNeg, Value.isUnsigned]

theorem glueNeg_of_signed {v : Value} (h : v.isUnsigned = false) (w : Value) : glueNeg v w = .neg w := by
  cases v with
  | int n =>
    have hn : ¬ 0 ≤ n.toInt := by simpa [Value.isUnsigned] using h
    rw [glueNeg, if_neg hn]
  | float x =>
    have hx : FloatParts.isSigned x = true := by simpa [Value.isUnsigned] using h
    rw [glueNeg, if_pos hx]
  | _ => rfl

/-- A negation stays one, unless it is of a number without sign. -/
theorem glue_neg_cases (v : Value) :
    v.isUnsigned = false ∧ (Value.neg v).glue = .neg v.glue ∨
      (∃ n, v = .int n ∧ 0 ≤ n.toInt ∧ (Value.neg v).glue = .int (-n)) ∨
      ∃ x, v = .float x ∧ FloatParts.isSigned x = false ∧ (Value.neg v).glue = .float (-x) := by
  cases h : v.isUnsigned with
  | false => exact .inl ⟨rfl, by rw [Value.glue, glueNeg_of_signed h]⟩
  | true =>
    cases v with
    | int n =>
      have hn : 0 ≤ n.toInt := by simpa [Value.isUnsigned] using h
      exact .inr (.inl ⟨n, rfl, hn, by rw [Value.glue, glueNeg, if_pos hn]⟩)
    | float x =>
      have hx : FloatParts.isSigned x = false := by simpa [Value.isUnsigned] using h
      exact .inr (.inr ⟨x, rfl, hx, by rw [Value.glue, glueNeg, hx]; rfl⟩)
    | _ => cases h

/-- What holds of negations and numbers holds of a glued negation. -/
theorem glue_neg_of {P : Value → Prop} (v : Value) (hneg : P (.neg v.glue)) (hint : ∀ n, P (.int n))
    (hfloat : ∀ x, P (.float x)) : P (Value.neg v).glue := by
  rcases glue_neg_cases v with ⟨-, h⟩ | ⟨n, -, -, h⟩ | ⟨x, -, -, h⟩
  · exact h ▸ hneg
  · exact h ▸ hint _
  · exact h ▸ hfloat _

mutual
/-- Gluing leaves a value alone exactly if it negates no number without sign. -/
theorem Value.glue_eq_self_iff : ∀ v : Value, v.glue = v ↔ ¬ v.Negates Value.isUnsigned
  | .bool _ | .int _ | .float _ | .str _ | .var _ => by simp [Value.glue, Value.Negates]
  | .list items | .tuple items => by simp [Value.glue, Value.Negates, glueItems_eq_self_iff items]
  | .dict entries => by simp [Value.glue, Value.Negates, glueEntries_eq_self_iff entries]
  | .block b => by simp [Value.glue, Value.Negates, glueBlock_eq_self_iff b]
  | .binary _ l r => by simp [Value.glue, Value.Negates, Value.glue_eq_self_iff l, Value.glue_eq_self_iff r]
  | .neg v => by
    cases hv : v.isUnsigned with
    | true =>
      have hne : ¬ ∃ u, glueNeg v v.glue = .neg u := by
        rw [glueNeg_eq_neg_iff, hv]
        simp
      have hne : glueNeg v v.glue ≠ .neg v := fun h => hne ⟨v, h⟩
      simp [Value.glue, Value.Negates, hne, hv]
    | false => simp [Value.glue, Value.Negates, glueNeg_of_signed hv, hv, Value.glue_eq_self_iff v]

theorem glueItems_eq_self_iff : ∀ vs : List Value, glueItems vs = vs ↔ ¬ ItemsNegate Value.isUnsigned vs
  | [] => by simp [glueItems, ItemsNegate]
  | v :: vs => by simp [glueItems, ItemsNegate, Value.glue_eq_self_iff v, glueItems_eq_self_iff vs]

theorem glueEntries_eq_self_iff :
    ∀ es : List (Key × Value), glueEntries es = es ↔ ¬ EntriesNegate Value.isUnsigned es
  | [] => by simp [glueEntries, EntriesNegate]
  | (k, v) :: es => by simp [glueEntries, EntriesNegate, Value.glue_eq_self_iff v, glueEntries_eq_self_iff es]

theorem glueBlock_eq_self_iff : ∀ b : List (String × Value), glueBlock b = b ↔ ¬ BlockNegates Value.isUnsigned b
  | [] => by simp [glueBlock, BlockNegates]
  | (s, v) :: b => by simp [glueBlock, BlockNegates, Value.glue_eq_self_iff v, glueBlock_eq_self_iff b]
end

end CaseSetup
