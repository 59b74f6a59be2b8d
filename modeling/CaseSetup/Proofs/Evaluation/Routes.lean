import CaseSetup.Block.Query
import CaseSetup.Proofs.Evaluation.Correctness
import CaseSetup.Proofs.Walk

/-! # Ways to read a binding

A binding is read name by name, by a walk to its block, or by its path. The ways differ in what they
evaluate, and in which bindings are active meanwhile, but they give the same values. -/

namespace CaseSetup

namespace Scope

/-- Read one name after the other, and then the value of the last reading. -/
def readAlong (s : Scope) (names : List String) : Except Fault Value := do
  (← names.foldlM Reading.get (.scope s)).toValue

variable {s : Scope} {name : String} {names : List String} {v w : Value} {c : Block}

theorem readAlong_cons (s : Scope) (name : String) (names : List String) : s.readAlong (name :: names) =
    s.get name >>= fun r => names.foldlM Reading.get r >>= Reading.toValue := by
  rw [readAlong, List.foldlM_cons, bind_assoc]
  rfl

/-- Nothing can be read from a value. -/
theorem foldlM_get_value (v : Value) (hne : names ≠ []) :
    ∃ err, names.foldlM Reading.get (.value v) >>= Reading.toValue = .error err := by
  obtain ⟨name, rest, rfl⟩ := List.exists_cons_of_ne_nil hne
  exact ⟨_, rfl⟩

/-! ## One name -/

theorem get_of_free (hl : s.block.lookup name = none) : s.get name = .error (.missingName name) := by
  simp [get, Block.raw, hl, bind, Except.bind]

/-- A nested block is read as its scope; nothing is evaluated. -/
theorem get_of_block (hl : s.block.lookup name = some (.block c)) : s.get name = Reading.scope <$> s.child name := by
  simp [get, Block.raw, hl, bind, Except.bind]

theorem get_of_not_block (hl : s.block.lookup name = some v) (hv : ∀ c, v ≠ .block c) :
    s.get name = Reading.value <$> s.value name := by
  cases v with
  | block c => exact absurd rfl (hv c)
  | _ => simp [get, Block.raw, hl, bind, Except.bind]

/-- The value of a name is what its reading evaluates to. To evaluate the binding of a nested block makes
it active; the entries of its scope are read with nothing active. -/
theorem get_toValue_eq_ok_iff (hr : s.root.isKeyed) :
    s.get name >>= Reading.toValue = .ok w ↔ s.value name = .ok w := by
  rcases s.block.lookup_cases name with hl | ⟨c, hl⟩ | ⟨v, hl, hv⟩
  · rw [get_of_free hl, value_eq_ok_iff hr, hl]
    simp
  · obtain ⟨hn, hchild⟩ := child_eq_of_ok (Block.child_eq_ok.2 hl)
    have hread : s.get name >>= Reading.toValue =
        Value.block <$> evaluatedBlock ⟨s.root, s.path ++ [name], c, hn⟩ := by
      rw [get_of_block hl, hchild]
      rfl
    have hblock (e : Block) : evaluatedBlock ⟨s.root, s.path ++ [name], c, hn⟩ = .ok e ↔
        MeansBlock s.root c c e := evaluatedBlock_eq_ok_iff (s := ⟨s.root, s.path ++ [name], c, hn⟩) hr
    rw [hread, Outcome.map_eq_ok, value_eq_ok_iff hr, hl]
    constructor
    · rintro ⟨e, he, rfl⟩
      exact ⟨_, rfl, .block ((hblock e).1 he)⟩
    · rintro ⟨_, ⟨rfl⟩, hm⟩
      cases hm with
      | block hm => exact ⟨_, (hblock _).2 hm, rfl⟩
  · rw [get_of_not_block hl hv]
    cases s.value name <;> rfl

/-- Reading along a chain of names is a walk to the last of them. -/
theorem readAlong_concat_eq_ok_iff (hr : s.root.isKeyed) : s.readAlong (names ++ [name]) = .ok w ↔
    (s.walk names >>= fun t => t.value name) = .ok w := by
  induction names generalizing s with
  | nil =>
    rw [List.nil_append, readAlong_cons, walk_nil]
    exact get_toValue_eq_ok_iff hr
  | cons n names ih =>
    rw [List.cons_append, readAlong_cons, walk_cons, bind_assoc]
    rcases s.block.lookup_cases n with hl | ⟨c, hl⟩ | ⟨v, hl, hv⟩
    · rw [get_of_free hl, child_eq_of_error (Block.child_of_free hl)]
      simp
    · obtain ⟨hn, hchild⟩ := child_eq_of_ok (Block.child_eq_ok.2 hl)
      rw [get_of_block hl, hchild]
      exact ih (s := ⟨s.root, s.path ++ [n], c, hn⟩) hr
    · -- a value that is no block ends the walk, and reading on from its value fails as well
      rw [get_of_not_block hl hv, child_eq_of_error (Block.child_of_not_block hl hv)]
      have hne : names ++ [name] ≠ [] := by simp
      cases s.value n with
      | error err => simp
      | ok u =>
        obtain ⟨err, herr⟩ := foldlM_get_value u hne
        exact iff_of_false (fun h => nomatch herr.symm.trans h) nofun

theorem lookup_append_point (s : Scope) {p q : String} {ms ns : List String} (hp : Path.names p = .ok ms)
    (hq : Path.names q = .ok ns) : s.lookup (p ++ "." ++ q) = s.descend p >>= fun t => t.lookup q := by
  have hne : ns ≠ [] := by
    obtain ⟨ks, k, rfl⟩ := Path.exists_concat hq
    simp
  simp only [lookup, descend, Path.names_append_point hp hq, hp, hq]
  exact s.follow_append ms hne

end Scope

namespace Block

variable {r : Block}

/-- To get a path is to look it up from the root; only the hint of a fault differs. -/
theorem getPath_eq_ok_iff_lookup {path : String} {w : Value} :
    r.getPath path = .ok w ↔ r.scope.lookup path = .ok w := by
  unfold getPath
  cases r.scope.lookup path <;> simp [Except.mapError]

/-- Whichever way a binding is read, name by name, by a walk to its block or by its path, it has the same
value if any. A path in two parts is looked up in the block that the first part leads to. -/
theorem reads_agree (hr : r.isKeyed) :
    (∀ names name v, r.scope.readAlong (names ++ [name]) = .ok v ↔
      (r.scope.walk names >>= fun t => t.value name) = .ok v) ∧
    (∀ names name v, (∀ n ∈ names ++ [name], Path.Segment n) →
      (r.getPath (".".intercalate (names ++ [name])) = .ok v ↔
        (r.scope.walk names >>= fun t => t.value name) = .ok v)) ∧
    ∀ (s : Scope) p q ms ns, Path.names p = .ok ms → Path.names q = .ok ns →
      s.lookup (p ++ "." ++ q) = s.descend p >>= fun t => t.lookup q := by
  refine ⟨fun names name v => Scope.readAlong_concat_eq_ok_iff hr, fun names name v hsegments => ?_,
    fun s p q ms ns => s.lookup_append_point⟩
  have hnames := Path.names_intercalate (by simp) hsegments
  rw [getPath_eq_ok_iff_lookup, Scope.lookup, hnames, ← Scope.follow_concat]
  rfl

/-- A binding two blocks down, and one that stands for a block but is none. -/
theorem reads_agree_nested :
    let r : Block := [("n", .int 2), ("m", .block [("k", .block [("x", .binary .add (.var "n") (.int 1))])]),
      ("alias", .var "m")]
    r.isKeyed ∧ (∀ n ∈ ["m", "k"] ++ ["x"], Path.Segment n) ∧
      r.scope.readAlong ["m", "k", "x"] = .ok (.int 3) ∧ r.getPath "m.k.x" = .ok (.int 3) ∧
      (∀ v, r.scope.readAlong ["alias", "k"] ≠ .ok v) ∧
      Path.names "m" = .ok ["m"] ∧ Path.names "k.x" = .ok ["k", "x"] ∧
      (r.scope.descend "m" >>= fun t => t.lookup "k.x") = .ok (.int 3) := by
  intro r
  have hr : r.isKeyed := by decide
  have hsegments : ∀ n ∈ ["m", "k"] ++ ["x"], Path.Segment n := by decide +kernel
  obtain ⟨halong, hpath, hparts⟩ := reads_agree hr
  have hvalue : r.getPath "m.k.x" = .ok (.int 3) := by with_unfolding_all rfl
  have hm : Path.names "m" = .ok ["m"] := by decide +kernel
  have hkx : Path.names "k.x" = .ok ["k", "x"] := by decide +kernel
  refine ⟨hr, hsegments, ?_, hvalue, fun v hv => ?_, hm, hkx, ?_⟩
  · exact (halong ["m", "k"] "x" (.int 3)).2 ((hpath ["m", "k"] "x" (.int 3) hsegments).1 hvalue)
  · have hv := (halong ["alias"] "k" v).1 hv
    cases hv
  · rw [← hparts r.scope "m" "k.x" _ _ hm hkx]
    exact getPath_eq_ok_iff_lookup.1 hvalue

end Block

end CaseSetup
