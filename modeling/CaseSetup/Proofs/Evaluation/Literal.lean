import CaseSetup.Proofs.Evaluation.Correctness
import CaseSetup.Proofs.Evaluation.Keyed
import CaseSetup.Proofs.Induction

/-! # Literal values

A value without expressions means itself, wherever it is written. So a document without expressions
is its own evaluated form. -/

namespace CaseSetup

namespace Value

theorem areLiteral_iff {vs : List Value} : areLiteral vs ↔ ∀ v ∈ vs, v.isLiteral := by
  induction vs with
  | nil => simp [areLiteral]
  | cons v vs ih => simp [areLiteral, ih]

theorem dictIsLiteral_iff {es : Dict} : dictIsLiteral es ↔ ∀ e ∈ es, e.2.isLiteral := by
  induction es with
  | nil => simp [dictIsLiteral]
  | cons e es ih => simp [dictIsLiteral, ih]

theorem blockIsLiteral_iff {b : Block} : blockIsLiteral b ↔ ∀ e ∈ b, e.2.isLiteral := by
  induction b with
  | nil => simp [blockIsLiteral]
  | cons e b ih => simp [blockIsLiteral, ih]

end Value

open Value

variable {root here : Block}

theorem MeansItems.self {vs : List Value} (h : ∀ v ∈ vs, Means root here v v) : MeansItems root here vs vs := by
  induction vs with
  | nil => exact .nil
  | cons v vs ih =>
    obtain ⟨hv, hvs⟩ := List.forall_mem_cons.1 h
    exact .cons hv (ih hvs)

theorem MeansDict.self {es : Dict} (h : ∀ e ∈ es, Means root here e.2 e.2) : MeansDict root here es es := by
  induction es with
  | nil => exact .nil
  | cons e es ih =>
    obtain ⟨he, hes⟩ := List.forall_mem_cons.1 h
    exact .cons he (ih hes)

theorem MeansBlock.self {b : Block} (h : ∀ e ∈ b, Means root here e.2 e.2) : MeansBlock root here b b := by
  induction b with
  | nil => exact .nil
  | cons e b ih =>
    obtain ⟨he, hb⟩ := List.forall_mem_cons.1 h
    exact .cons he (ih hb)

/-- A literal value means itself. -/
theorem Means.of_isLiteral {v : Value} (h : v.isLiteral) : Means root here v v := by
  induction v using Value.induction generalizing here with
  | bool b => exact .bool b
  | int n => exact .int n
  | float x => exact .float x
  | str s => exact .str s
  | list vs ih => exact .list (.self fun v hv => ih v hv (areLiteral_iff.1 h v hv))
  | tuple vs ih => exact .tuple (.self fun v hv => ih v hv (areLiteral_iff.1 h v hv))
  | dict es ih => exact .dict (.self fun e he => ih e he (dictIsLiteral_iff.1 h e he))
  | block b ih => exact .block (.self fun e he => ih e he (blockIsLiteral_iff.1 h e he))
  | neg | binary | var => cases h

/-- A literal document evaluates to itself. -/
theorem Block.evaluated_of_isLiteral {b : Block} (h : (Value.block b).isLiteral) (hb : b.isKeyed) :
    b.evaluated = .ok b :=
  (b.scope.evaluatedBlock_eq_ok_iff hb).2 (.self fun e he => .of_isLiteral (blockIsLiteral_iff.1 h e he))

end CaseSetup
