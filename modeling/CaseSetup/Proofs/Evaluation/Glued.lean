import CaseSetup.Block.Query
import CaseSetup.Proofs.Walk
import CaseSetup.Proofs.Writing.Glue

/-! # Evaluation with glued signs

A document and the same document with its minus signs glued have the same bindings at the same
places, and every binding evaluates alike in both, faults included. -/

namespace CaseSetup

open Value

/-- The same block, glued. -/
def Site.glue (s : Site) : Site := ⟨s.place, s.block.glue⟩

@[simp] theorem Site.ref_glue (s : Site) (name : String) : s.glue.ref name = s.ref name := rfl

theorem Block.lookup_glue (b : Block) (name : String) : b.glue.lookup name = (b.lookup name).map Value.glue := by
  induction b with
  | nil => rfl
  | cons e b ih =>
    obtain ⟨s, v⟩ := e
    have ih : List.lookup name (glueBlock b) = (List.lookup name b).map Value.glue := ih
    rw [Block.glue, glueBlock, Entries.lookup_cons, Entries.lookup_cons, ih]
    split <;> rfl

@[simp] theorem Block.binds_glue (b : Block) (name : String) : b.glue.binds name = b.binds name := by
  rw [Block.binds, Block.binds, Entries.binds, Entries.binds, lookup_glue, Option.isSome_map]

mutual
/-- Gluing keeps every binding where it is. -/
theorem Value.refs_glue (p : Place) : ∀ v : Value, v.glue.refs p = v.refs p
  | .bool _ | .int _ | .float _ | .str _ | .var _ => by rw [Value.glue]
  | .list items | .tuple items => by
    rw [Value.glue, Value.refs, Value.refs]
    exact itemRefs_glue p 0 items
  | .dict entries => by
    rw [Value.glue, Value.refs, Value.refs]
    exact keyRefs_glue p entries
  | .block b => by
    rw [Value.glue, Value.refs, Value.refs]
    exact entryRefs_glue p b
  | .binary _ l r => by
    rw [Value.glue, Value.refs, Value.refs, Value.refs_glue _ l, Value.refs_glue _ r]
  | .neg v => by
    rcases glue_neg_cases v with ⟨-, h⟩ | ⟨n, rfl, -, h⟩ | ⟨x, rfl, -, h⟩
    · rw [h, Value.refs, Value.refs, Value.refs_glue _ v]
    · rw [h]
      rfl
    · rw [h]
      rfl

theorem itemRefs_glue (p : Place) : ∀ (i : Nat) (vs : List Value), itemRefs p i (glueItems vs) = itemRefs p i vs
  | _, [] => by rw [glueItems]
  | i, v :: vs => by
    rw [glueItems, itemRefs, itemRefs, Value.refs_glue _ v, itemRefs_glue p (i + 1) vs]

theorem keyRefs_glue (p : Place) : ∀ es : List (Key × Value), keyRefs p (glueEntries es) = keyRefs p es
  | [] => by rw [glueEntries]
  | (k, v) :: es => by
    rw [glueEntries, keyRefs, keyRefs, Value.refs_glue _ v, keyRefs_glue p es]

theorem entryRefs_glue (p : Place) : ∀ b : List (String × Value), entryRefs p (glueBlock b) = entryRefs p b
  | [] => by rw [glueBlock]
  | (s, v) :: b => by
    rw [glueBlock, entryRefs, entryRefs, Value.refs_glue _ v, entryRefs_glue p b]
end

@[simp] theorem Block.refs_glue (b : Block) : b.glue.refs = b.refs := entryRefs_glue [] b

/-- A walk over the names of a block does not see the values. -/
theorem mapM_glueBlock {α : Type} (f : String → Except Fault α) (b : List (String × Value)) :
    (glueBlock b).mapM (fun e => f e.1) = b.mapM fun e => f e.1 := by
  induction b with
  | nil => rfl
  | cons e b ih => rw [glueBlock, List.mapM_cons, List.mapM_cons, ih]

/-- Negating an integer without sign never overflows. -/
theorem negate_int {n : Int64} (hn : 0 ≤ n.toInt) : Arithmetic.negate (.int n) = .ok (.int (-n)) := by
  have hlt := n.toInt_lt
  have hfit : Arithmetic.fit? (-n.toInt) = some (-n) := by
    have hrange : Int64.minValue.toInt ≤ -n.toInt ∧ -n.toInt ≤ Int64.maxValue.toInt := by
      have hmin : Int64.minValue.toInt = -2 ^ 63 := rfl
      have hmax : Int64.maxValue.toInt = 2 ^ 63 - 1 := rfl
      omega
    rw [Arithmetic.fit?, if_pos hrange, Int64.ofInt_neg, Int64.ofInt_toInt]
  rw [Arithmetic.negate, hfit]

section

variable {root here : Site} {enter enter' : Site → String → Except Fault Value}

mutual
/-- A value evaluates as before if every binding of a glued block does. -/
theorem evaluateWith_glue (he : ∀ s name, enter' s.glue name = enter s name) (p : Place) :
    ∀ v : Value, v.glue.evaluateWith root.glue here.glue enter' p = v.evaluateWith root here enter p
  | .bool _ | .int _ | .float _ | .str _ => by
    rw [Value.glue]
    rfl
  | .list items | .tuple items => by
    rw [Value.glue, evaluateWith, evaluateWith, evaluateItems_glue he p 0 items]
  | .dict entries => by
    rw [Value.glue, evaluateWith, evaluateWith, evaluateDict_glue he p entries]
  | .block b => by
    have hsite (name : String) : enter' ⟨p, glueBlock b⟩ name = enter ⟨p, b⟩ name := he ⟨p, b⟩ name
    have hwalk := mapM_glueBlock (fun name => (name, ·) <$> enter' ⟨p, glueBlock b⟩ name) b
    simp only [hsite] at hwalk
    rw [Value.glue, evaluateWith, evaluateWith]
    simp only [hsite]
    rw [hwalk]
  | .neg v => by
    rcases glue_neg_cases v with ⟨-, h⟩ | ⟨n, rfl, hn, h⟩ | ⟨x, rfl, -, h⟩
    · rw [h, evaluateWith, evaluateWith, evaluateWith_glue he _ v]
    · rw [h]
      exact (negate_int hn).symm
    · rw [h]
      rfl
  | .binary op l r => by
    rw [Value.glue, evaluateWith, evaluateWith, evaluateWith_glue he _ l, evaluateWith_glue he _ r]
  | .var name => by
    have hhere : here.glue.block.binds name = here.block.binds name := Block.binds_glue _ _
    have hroot : root.glue.block.binds name = root.block.binds name := Block.binds_glue _ _
    rw [Value.glue, evaluateWith, evaluateWith, hhere, hroot, he, he]

theorem evaluateItems_glue (he : ∀ s name, enter' s.glue name = enter s name) (p : Place) :
    ∀ (i : Nat) (vs : List Value),
      evaluateItems root.glue here.glue enter' p i (glueItems vs) = evaluateItems root here enter p i vs
  | _, [] => by
    rw [glueItems]
    rfl
  | i, v :: vs => by
    rw [glueItems, evaluateItems, evaluateItems, evaluateWith_glue he _ v, evaluateItems_glue he p (i + 1) vs]

theorem evaluateDict_glue (he : ∀ s name, enter' s.glue name = enter s name) (p : Place) :
    ∀ es : List (Key × Value),
      evaluateDict root.glue here.glue enter' p (glueEntries es) = evaluateDict root here enter p es
  | [] => by
    rw [glueEntries]
    rfl
  | (k, v) :: es => by
    rw [glueEntries, evaluateDict, evaluateDict, evaluateWith_glue he _ v, evaluateDict_glue he p es]
end

/-- Every binding evaluates as before. -/
theorem evaluateBinding_glue (active pending : List Ref) (name : String) :
    evaluateBinding root.glue active pending here.glue name = evaluateBinding root active pending here name := by
  induction active, pending, here, name using evaluateBinding.induct with
  | case1 active pending here name hl =>
    have hl' : here.glue.block.lookup name = none := by rw [Site.glue, Block.lookup_glue, hl]; rfl
    rw [evaluateBinding, evaluateBinding, hl, hl']
  | case2 active pending here name v hl hp ih =>
    have hl' : here.glue.block.lookup name = some v.glue := by rw [Site.glue, Block.lookup_glue, hl]; rfl
    rw [evaluateBinding, evaluateBinding, hl, hl']
    simp only [Site.ref_glue, hp, ↓reduceDIte]
    exact evaluateWith_glue ih _ v
  | case3 active pending here name v hl hp =>
    have hl' : here.glue.block.lookup name = some v.glue := by rw [Site.glue, Block.lookup_glue, hl]; rfl
    rw [evaluateBinding, evaluateBinding, hl, hl']
    simp only [Site.ref_glue, hp, ↓reduceDIte]

end

/-- A block stays a block, and nothing else becomes one. -/
theorem glue_block_cases (v : Value) :
    (∃ b, v = .block b ∧ v.glue = .block (glueBlock b)) ∨ (∀ b, v ≠ .block b) ∧ ∀ b, v.glue ≠ .block b := by
  cases v with
  | block b => exact .inl ⟨b, rfl, by rw [Value.glue]⟩
  | neg v =>
    exact .inr ⟨by simp, glue_neg_of (P := fun w => ∀ b, w ≠ .block b) v (by simp) (by simp) (by simp)⟩
  | _ => exact .inr ⟨by simp, by simp [Value.glue]⟩

namespace Block

theorem child_glue (b : Block) (name : String) :
    Outcome.Agree (fun c c' => c' = Block.glue c) (b.child name) (b.glue.child name) := by
  have hlookup := lookup_glue b name
  cases hl : b.lookup name with
  | none =>
    rw [hl] at hlookup
    rw [child, child, hl, hlookup]
    exact .error rfl rfl
  | some v =>
    rw [hl, Option.map_some] at hlookup
    rcases glue_block_cases v with ⟨c, rfl, hc⟩ | ⟨hv, hv'⟩
    · rw [hc] at hlookup
      rw [child_eq_ok.2 hl, child_eq_ok.2 hlookup]
      exact .ok rfl
    · rw [child_of_not_block hl hv, child_of_not_block hlookup hv']
      exact .error rfl rfl

theorem nested?_glue {b c : Block} {names : List String} (h : b.nested? names = some c) :
    b.glue.nested? names = some c.glue := by
  induction names generalizing b with
  | nil =>
    obtain rfl : b = c := Option.some.inj h
    rfl
  | cons name names ih =>
    rw [nested?] at h ⊢
    split at h
    · rename_i d hl
      rw [lookup_glue, hl, Option.map_some, Value.glue]
      exact ih h
    · cases h

end Block

namespace Scope

/-- The same scope of the glued document. -/
def glue (s : Scope) : Scope := ⟨s.root.glue, s.path, s.block.glue, Block.nested?_glue s.nested⟩

theorem value_glue (s : Scope) (name : String) : s.glue.value name = s.value name := by
  show evaluateBinding (Site.root s.root).glue [] s.root.glue.refs s.site.glue name = _
  rw [evaluateBinding_glue, Block.refs_glue]
  rfl

theorem evaluatedBlock_glue (s : Scope) : s.glue.evaluatedBlock = s.evaluatedBlock := by
  have hwalk := mapM_glueBlock (fun name => (name, ·) <$> s.value name) s.block
  show (glueBlock s.block).mapM (fun e => (e.1, ·) <$> s.glue.value e.1) = _
  simp only [value_glue]
  exact hwalk

theorem child_glue (s : Scope) (name : String) :
    Outcome.Agree (fun c c' => c' = Scope.glue c) (s.child name) (s.glue.child name) := by
  have h : Outcome.Agree (fun c c' => c' = Block.glue c) (s.block.child name) (s.glue.block.child name) :=
    Block.child_glue s.block name
  generalize hx : s.block.child name = x at h
  generalize hy : s.glue.block.child name = y at h
  cases h with
  | ok hc =>
    subst hc
    obtain ⟨_, hx⟩ := child_eq_of_ok hx
    obtain ⟨_, hy⟩ := child_eq_of_ok hy
    rw [hx, hy]
    exact .ok rfl
  | error hk hc =>
    rw [child_eq_of_error hx, child_eq_of_error hy]
    exact .error hk hc

theorem follow_glue (s : Scope) (names : List String) : Outcome.Agree Eq (s.follow names) (s.glue.follow names) := by
  induction names generalizing s with
  | nil => exact .refl _
  | cons name names ih =>
    cases names with
    | nil =>
      rw [follow, follow, value_glue]
      exact .refl _
    | cons name' names =>
      rw [follow, follow]
      · refine (child_glue s name).bind ?_
        rintro c _ rfl
        exact ih c
      · simp
      · simp

end Scope

namespace Block

/-- Reading a path in the glued document gives the same value or a fault of the same kind and code. -/
theorem getPath_glue (b : Block) (path : String) : Outcome.Agree Eq (b.getPath path) (b.glue.getPath path) := by
  have h : Outcome.Agree Eq (b.scope.lookup path) (b.glue.scope.lookup path) := by
    refine (Outcome.Agree.refl (Path.names path)).bind ?_
    rintro names _ rfl
    exact b.scope.follow_glue names
  refine h.mapError (fun f => ?_) fun f => ?_
  · split <;> rfl
  · split <;> rfl

theorem evaluated_glue (b : Block) : b.glue.evaluated = b.evaluated := b.scope.evaluatedBlock_glue

end Block

end CaseSetup
