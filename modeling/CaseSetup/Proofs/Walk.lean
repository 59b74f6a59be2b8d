import CaseSetup.Proofs.Path
import CaseSetup.Scope

/-! # Walking through nested blocks

A walk is a chain of `child` steps. The names of the chain decide where it ends, and it gets there
exactly if each of them is bound to a nested block. A path is read by a walk along all its names but
the last. -/

namespace CaseSetup

namespace Block

theorem nested?_cons_eq_some {b d : Block} {name : String} {names : List String} :
    b.nested? (name :: names) = some d ↔
      ∃ c : Block, b.lookup name = some (.block c) ∧ c.nested? names = some d := by
  rw [nested?]
  split
  · rename_i c hc
    simp [hc]
  · rename_i hc
    simp only [reduceCtorEq, false_iff, not_exists, not_and]
    exact fun c h => absurd h (hc c)

theorem nested?_one {b c : Block} {name : String} :
    b.nested? [name] = some c ↔ b.lookup name = some (.block c) := by
  rw [nested?_cons_eq_some]
  constructor
  · rintro ⟨d, hd, h⟩
    obtain rfl : d = c := Option.some.inj h
    exact hd
  · exact fun h => ⟨c, h, rfl⟩

/-- A name is free, bound to a nested block, or bound to a value that is none. -/
theorem lookup_cases (b : Block) (name : String) : b.lookup name = none ∨
    (∃ c : Block, b.lookup name = some (.block c)) ∨ ∃ v, b.lookup name = some v ∧ ∀ c, v ≠ .block c := by
  cases b.lookup name with
  | none => exact .inl rfl
  | some v =>
    cases v with
    | block c => exact .inr (.inl ⟨c, rfl⟩)
    | _ => exact .inr (.inr ⟨_, rfl, nofun⟩)

theorem child_of_free {b : Block} {name : String} (hl : b.lookup name = none) :
    b.child name = .error (.missingName name) := by
  unfold child
  rw [hl]

theorem child_of_not_block {b : Block} {name : String} {v : Value} (hl : b.lookup name = some v)
    (hv : ∀ c, v ≠ .block c) : b.child name = .error (.notABlock name v) := by
  unfold child
  rw [hl]
  cases v with
  | block c => exact absurd rfl (hv c)
  | _ => rfl

end Block

namespace Scope

/-- Step into one nested block after another. -/
def walk (s : Scope) (names : List String) : Except Fault Scope := names.foldlM child s

theorem walk_nil (s : Scope) : s.walk [] = .ok s := rfl

theorem walk_cons (s : Scope) (name : String) (names : List String) :
    s.walk (name :: names) = s.child name >>= fun t => t.walk names := rfl

theorem walk_append (s : Scope) (ms ns : List String) :
    s.walk (ms ++ ns) = s.walk ms >>= fun t => t.walk ns :=
  List.foldlM_append

variable {s t : Scope} {name : String} {names : List String}

/-- Where a scope stands decides its block. -/
theorem eq_of_path (hroot : s.root = t.root) (hpath : s.path = t.path) : s = t := by
  obtain ⟨r, p, b, hb⟩ := s
  obtain ⟨r', p', b', hb'⟩ := t
  obtain rfl : r = r' := hroot
  obtain rfl : p = p' := hpath
  obtain rfl : b = b' := Option.some.inj (hb.symm.trans hb')
  rfl

/-- A step from a scope is a step from its block, in the same document. -/
theorem child_eq_of_ok {c : Block} (h : s.block.child name = .ok c) :
    ∃ hn, s.child name = .ok ⟨s.root, s.path ++ [name], c, hn⟩ := by
  refine ⟨Block.nested?_child s.nested (Block.child_eq_ok.1 h), ?_⟩
  unfold child
  split
  · rename_i d hd
    obtain rfl : d = c := Except.ok.inj (hd.symm.trans h)
    rfl
  · rename_i f hf
    cases hf.symm.trans h

theorem child_eq_of_error {f : Fault} (h : s.block.child name = .error f) :
    s.child name = .error f := by
  unfold child
  split
  · rename_i d hd
    cases hd.symm.trans h
  · rename_i g hg
    rw [Except.error.inj (hg.symm.trans h)]

theorem child_eq_ok : s.child name = .ok t ↔ t.root = s.root ∧ t.path = s.path ++ [name] := by
  constructor
  · intro h
    unfold child at h
    split at h
    · cases h
      exact ⟨rfl, rfl⟩
    · cases h
  · rintro ⟨hroot, hpath⟩
    have hl : s.block.lookup name = some (.block t.block) := by
      have hn := t.nested
      rw [hroot, hpath, Block.nested?_append, s.nested] at hn
      exact Block.nested?_one.1 hn
    obtain ⟨hn, hchild⟩ := child_eq_of_ok (Block.child_eq_ok.2 hl)
    exact hchild.trans (congrArg Except.ok (eq_of_path hroot.symm hpath.symm))

theorem walk_eq_ok : s.walk names = .ok t ↔ t.root = s.root ∧ t.path = s.path ++ names := by
  induction names generalizing s with
  | nil =>
    rw [walk_nil, List.append_nil]
    constructor
    · rintro h
      cases h
      exact ⟨rfl, rfl⟩
    · rintro ⟨hroot, hpath⟩
      exact congrArg Except.ok <| eq_of_path hroot.symm hpath.symm
  | cons name names ih =>
    simp only [walk_cons, Outcome.bind_eq_ok, child_eq_ok, ih]
    constructor
    · rintro ⟨u, ⟨hroot, hpath⟩, hroot', hpath'⟩
      exact ⟨hroot'.trans hroot, by rw [hpath', hpath, List.append_assoc, List.singleton_append]⟩
    · rintro ⟨hroot, hpath⟩
      have hn := t.nested
      have hpath' : t.path = (s.path ++ [name]) ++ names := by rw [hpath, List.append_assoc, List.singleton_append]
      rw [hroot, hpath', Block.nested?_append] at hn
      obtain ⟨c, hc, -⟩ := Option.bind_eq_some_iff.1 hn
      exact ⟨⟨s.root, s.path ++ [name], c, hc⟩, ⟨rfl, rfl⟩, hroot, hpath'⟩

theorem follow_concat (s : Scope) (names : List String) (name : String) :
    s.follow (names ++ [name]) = s.walk names >>= fun t => t.value name := by
  induction names generalizing s with
  | nil => rfl
  | cons n names ih =>
    have hne : names ++ [name] ≠ [] := List.append_ne_nil_of_right_ne_nil _ (List.cons_ne_nil _ _)
    rw [List.cons_append, follow, walk_cons, bind_assoc]
    · exact bind_congr fun t => ih t
    · exact hne

theorem follow_append (s : Scope) (ms : List String) {ns : List String} (hne : ns ≠ []) :
    s.follow (ms ++ ns) = s.walk ms >>= fun t => t.follow ns := by
  rw [← List.dropLast_concat_getLast hne, ← List.append_assoc, follow_concat, walk_append, bind_assoc]
  exact bind_congr fun t => (t.follow_concat _ _).symm

end Scope

namespace Block

/-- From the root of a document the names alone say which scope is reached. -/
theorem walk_eq_ok {r : Block} {t : Scope} {names : List String} :
    r.scope.walk names = .ok t ↔ t.root = r ∧ t.path = names :=
  Scope.walk_eq_ok

theorem exists_walk {r b : Block} {names : List String} (h : r.nested? names = some b) :
    ∃ t : Scope, r.scope.walk names = .ok t ∧ t.block = b :=
  ⟨⟨r, names, b, h⟩, walk_eq_ok.2 ⟨rfl, rfl⟩, rfl⟩

end Block

end CaseSetup
