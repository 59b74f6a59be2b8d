import CaseSetup.Proofs.Evaluation.Meaning
import CaseSetup.Proofs.Outcome
import CaseSetup.Proofs.Related

/-! # Induction on derivations

What is proved of the parts of a derivation may be assumed when it is proved of the whole: of each
item of a list with its result, and of each entry with its. -/

namespace CaseSetup

section

variable {root : Block} {P : (here : Block) → (v w : Value) → Means root here v w → Prop}
  (bool : ∀ here b, P here (.bool b) (.bool b) (.bool b)) (int : ∀ here n, P here (.int n) (.int n) (.int n))
  (float : ∀ here x, P here (.float x) (.float x) (.float x)) (str : ∀ here s, P here (.str s) (.str s) (.str s))
  (list : ∀ here vs ws (h : MeansItems root here vs ws),
    List.Forall₂ (fun v w => ∃ h, P here v w h) vs ws → P here (.list vs) (.list ws) (.list h))
  (tuple : ∀ here vs ws (h : MeansItems root here vs ws),
    List.Forall₂ (fun v w => ∃ h, P here v w h) vs ws → P here (.tuple vs) (.tuple ws) (.tuple h))
  (dict : ∀ here es fs (h : MeansDict root here es fs),
    Entries.Related (fun _ v w => ∃ h, P here v w h) es fs → P here (.dict es) (.dict fs) (.dict h))
  (block : ∀ here b c (h : MeansBlock root b b c),
    Entries.Related (fun _ v w => ∃ h, P b v w h) b c → P here (.block b) (.block c) (.block h))
  (neg : ∀ here v a w (h : Means root here v a) (hw : Arithmetic.negate a = .ok w),
    P here v a h → P here (.neg v) w (.neg h hw))
  (binary : ∀ here op l r a b w (hl : Means root here l a) (hr : Means root here r b)
    (hw : Arithmetic.apply op a b = .ok w), P here l a hl → P here r b hr →
    P here (.binary op l r) w (.binary hl hr hw))
  (near : ∀ here name v w (hl : here.lookup name = some v) (h : Means root here v w),
    P here v w h → P here (.var name) w (.near hl h))
  (far : ∀ here name v w (hn : here.lookup name = none) (hl : root.lookup name = some v) (h : Means root root v w),
    P root v w h → P here (.var name) w (.far hn hl h))

include bool int float str list tuple dict block neg binary near far

set_option linter.unusedSectionVars false

mutual
theorem Means.induction {here : Block} {v w : Value} : ∀ h : Means root here v w, P here v w h
  | .bool b => bool here b
  | .int n => int here n
  | .float x => float here x
  | .str s => str here s
  | .list h => list here _ _ h (Means.induction_items h)
  | .tuple h => tuple here _ _ h (Means.induction_items h)
  | .dict h => dict here _ _ h (Means.induction_dict h)
  | .block h => block here _ _ h (Means.induction_block h)
  | .neg h hw => neg here _ _ _ h hw h.induction
  | .binary hl hr hw => binary here _ _ _ _ _ _ hl hr hw hl.induction hr.induction
  | .near hl h => near here _ _ _ hl h h.induction
  | .far hn hl h => far here _ _ _ hn hl h h.induction

theorem Means.induction_items {here : Block} {vs ws : List Value} :
    MeansItems root here vs ws → List.Forall₂ (fun v w => ∃ h, P here v w h) vs ws
  | .nil => .nil
  | .cons h hs => .cons ⟨h, h.induction⟩ (Means.induction_items hs)

theorem Means.induction_dict {here : Block} {es fs : Dict} :
    MeansDict root here es fs → Entries.Related (fun _ v w => ∃ h, P here v w h) es fs
  | .nil => .nil
  | .cons h hs => .cons ⟨h, h.induction⟩ (Means.induction_dict hs)

theorem Means.induction_block {here es fs : Block} :
    MeansBlock root here es fs → Entries.Related (fun _ v w => ∃ h, P here v w h) es fs
  | .nil => .nil
  | .cons h hs => .cons ⟨h, h.induction⟩ (Means.induction_block hs)
end

end

section

variable {root here : Block}

theorem meansItems_iff {vs ws : List Value} :
    MeansItems root here vs ws ↔ List.Forall₂ (Means root here) vs ws := by
  constructor
  · intro h
    induction vs generalizing ws with
    | nil => cases h; exact .nil
    | cons v vs ih =>
      cases h with
      | cons h hs => exact .cons h (ih hs)
  · intro h
    induction h with
    | nil => exact .nil
    | cons h _ ih => exact .cons h ih

theorem meansDict_iff {es fs : Dict} :
    MeansDict root here es fs ↔ Entries.Related (fun _ => Means root here) es fs := by
  constructor
  · intro h
    induction es generalizing fs with
    | nil => cases h; exact .nil
    | cons e es ih =>
      cases h with
      | cons h hs => exact .cons h (ih hs)
  · intro h
    induction h with
    | nil => exact .nil
    | @cons e f _ _ hef _ ih =>
      obtain ⟨k, v⟩ := e
      obtain ⟨k', w⟩ := f
      obtain ⟨rfl, hvw⟩ := hef
      exact .cons hvw ih

theorem meansBlock_iff {es fs : Block} :
    MeansBlock root here es fs ↔ Entries.Related (fun _ => Means root here) es fs := by
  constructor
  · intro h
    induction es generalizing fs with
    | nil => cases h; exact .nil
    | cons e es ih =>
      cases h with
      | cons h hs => exact .cons h (ih hs)
  · intro h
    induction h with
    | nil => exact .nil
    | @cons e f _ _ hef _ ih =>
      obtain ⟨name, v⟩ := e
      obtain ⟨name', w⟩ := f
      obtain ⟨rfl, hvw⟩ := hef
      exact .cons hvw ih

end

/-! ## Results of operators -/

/-- An integer or a float. -/
def Value.IsNumber (v : Value) : Prop := (∃ n, v = .int n) ∨ ∃ x, v = .float x

namespace Arithmetic

theorem isNumber_of_negate {v w : Value} (h : negate v = .ok w) : v.IsNumber ∧ w.IsNumber := by
  cases v with
  | int n =>
    rw [negate] at h
    split at h
    · cases h
      exact ⟨.inl ⟨_, rfl⟩, .inl ⟨_, rfl⟩⟩
    · cases h
  | float x =>
    cases h
    exact ⟨.inr ⟨_, rfl⟩, .inr ⟨_, rfl⟩⟩
  | _ => cases h

theorem isNumber_of_toFloat {op : Op} {v : Value} {x : Float} (h : toFloat op v = .ok x) : v.IsNumber := by
  cases v with
  | int n => exact .inl ⟨n, rfl⟩
  | float x => exact .inr ⟨x, rfl⟩
  | _ => cases h

theorem isNumber_of_intOp {op : Op} {a b : Int64} {w : Value} (h : intOp op a b = .ok w) : w.IsNumber := by
  have hfloat {x : Except Fault Float} (h : x.map Value.float = .ok w) : w.IsNumber := by
    cases x with
    | ok x =>
      cases h
      exact .inr ⟨_, rfl⟩
    | error => cases h
  cases op with
  | add | sub | mul =>
    simp only [intOp] at h
    split at h
    · cases h
      exact .inl ⟨_, rfl⟩
    · cases h
  | div => exact hfloat h
  | pow =>
    simp only [intOp] at h
    split at h
    · exact hfloat h
    split at h
    · split at h
      · cases h
        exact .inl ⟨_, rfl⟩
      · cases h
    · cases h

/-- Operators take numbers and give numbers. -/
theorem isNumber_of_apply {op : Op} {l r w : Value} (h : apply op l r = .ok w) :
    l.IsNumber ∧ r.IsNumber ∧ w.IsNumber := by
  unfold apply at h
  split at h
  · exact ⟨.inl ⟨_, rfl⟩, .inl ⟨_, rfl⟩, isNumber_of_intOp h⟩
  · simp only [Outcome.bind_eq_ok, Outcome.pure_eq_ok] at h
    obtain ⟨a, ha, b, hb, c, -, rfl⟩ := h
    exact ⟨isNumber_of_toFloat ha, isNumber_of_toFloat hb, .inr ⟨c, rfl⟩⟩

end Arithmetic

end CaseSetup
