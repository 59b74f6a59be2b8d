import CaseSetup.Block.Query
import CaseSetup.Proofs.Block.Change
import CaseSetup.Proofs.Block.InPlace
import CaseSetup.Proofs.Path

/-! # Which paths there are

Each operation on a path walks through the document in its own way: to read, to write, to ask whether
the path is bound. They all stop at the same name, if any, and never look at a value on the way. -/

namespace CaseSetup

/-- A write through a chain of names gives what a walk along the names and a write to its last block give. -/
theorem Scope.modifyAt_eq_walk {α : Type} (f : Block → Except Fault (α × Block)) (s : Scope) (names : List String) :
    (·.1) <$> s.block.modifyAt f names = s.walk names >>= fun t => (·.1) <$> f t.block := by
  induction names generalizing s with
  | nil => rfl
  | cons name names ih =>
    rw [Block.modifyAt, walk_cons]
    cases hc : s.block.child name with
    | error err =>
      rw [child_eq_of_error hc]
      rfl
    | ok c =>
      obtain ⟨hn, hchild⟩ := child_eq_of_ok hc
      have ih : (·.1) <$> c.modifyAt f names = _ := ih ⟨s.root, s.path ++ [name], c, hn⟩
      rw [hchild]
      refine Eq.trans ?_ ih
      simp only [bind, Except.bind]
      cases c.modifyAt f names <;> rfl

namespace Scope

variable {s t : Scope} {name : String} {names post : List String} {v : Value}

theorem follow_of_free (hl : t.block.lookup name = none) (post : List String) :
    t.follow (name :: post) = .error (.missingName name) := by
  rcases post with _ | ⟨p, ps⟩
  · show evaluateBinding _ _ _ t.site name = _
    rw [evaluateBinding, show t.site.block.lookup name = none from hl]
  · rw [← List.singleton_append, follow_append _ _ (List.cons_ne_nil p ps), walk_cons,
      child_eq_of_error (Block.child_of_free hl)]
    rfl

theorem follow_of_not_block (hl : t.block.lookup name = some v) (hv : ∀ d, v ≠ .block d) (hpost : post ≠ []) :
    t.follow (name :: post) = .error (.notABlock name v) := by
  rw [← List.singleton_append, follow_append _ _ hpost, walk_cons,
    child_eq_of_error (Block.child_of_not_block hl hv)]
  rfl

end Scope

namespace Block

variable {b c : Block} {name : String} {names : List String} {path : String} {v : Value} {err : Fault}

/-- Why a path is not bound, and what reading it reports: it is malformed, a name on it is free, or a name
before the last is bound to a value that is no block. -/
inductive Unbound (b : Block) (path : String) : Fault → Prop
  | malformed : Path.names path = .error (.badPath path) → Unbound b path (.badPath path)
  | free {c : Block} {pre post : List String} {name : String} : Path.names path = .ok (pre ++ name :: post) →
      b.nested? pre = some c → c.lookup name = none →
      Unbound b path ((Fault.missingName name).withHint s!"While looking up '{path}'")
  | notABlock {c : Block} {pre post : List String} {name : String} {v : Value} :
      Path.names path = .ok (pre ++ name :: post) → post ≠ [] → b.nested? pre = some c →
      c.lookup name = some v → (∀ d, v ≠ .block d) → Unbound b path (.notABlock name v)

/-- A chain of names that leads to no block has a first name that leads to none. -/
theorem exists_stop (h : b.nested? names = none) : ∃ pre name post c, names = pre ++ name :: post ∧
    b.nested? pre = some c ∧ ∀ d : Block, c.lookup name ≠ some (.block d) := by
  induction names generalizing b with
  | nil => cases h
  | cons n names ih =>
    by_cases hb : ∃ d : Block, b.lookup n = some (.block d)
    · obtain ⟨d, hd⟩ := hb
      have hnone : d.nested? names = none := by
        rw [nested?, hd] at h
        exact h
      obtain ⟨pre, name, post, c, rfl, hpre, hc⟩ := ih hnone
      exact ⟨n :: pre, name, post, c, rfl, nested?_cons_eq_some.2 ⟨d, hd, hpre⟩, hc⟩
    · exact ⟨[], n, names, b, rfl, rfl, not_exists.1 hb⟩

/-- A chain of names is bound if all but the last lead to a block that binds the last. -/
theorem hasNames_concat_iff : b.hasNames (names ++ [name]) = true ↔
    ∃ c, b.nested? names = some c ∧ c.binds name = true := by
  induction names generalizing b with
  | nil => exact ⟨fun h => ⟨b, rfl, h⟩, fun ⟨c, hc, h⟩ => Option.some.inj hc ▸ h⟩
  | cons n names ih =>
    have hne : names ++ [name] ≠ [] := by simp
    rw [List.cons_append, hasNames, nested?]
    · rcases b.lookup_cases n with hl | ⟨c, hl⟩ | ⟨v, hl, hv⟩
      · simp [hl]
      · rw [hl]
        exact ih
      · rw [hl]
        split
        · exact absurd (Option.some.inj ‹_›) (hv _)
        · simp
    · exact hne

theorem has_eq_true_iff : b.has path = true ↔ ∃ names name c, Path.names path = .ok (names ++ [name]) ∧
    b.nested? names = some c ∧ c.binds name = true := by
  unfold has
  cases hp : Path.names path with
  | error err => simp
  | ok ns =>
    obtain ⟨names, name, rfl⟩ := Path.exists_concat hp
    dsimp only
    rw [hasNames_concat_iff]
    constructor
    · rintro ⟨c, hc⟩
      exact ⟨names, name, c, rfl, hc⟩
    · rintro ⟨ms, n, c, heq, hc⟩
      obtain ⟨rfl, hn⟩ := List.append_inj' (Except.ok.inj heq) rfl
      obtain rfl := List.singleton_inj.1 hn
      exact ⟨c, hc⟩

/-! ## The operations on paths -/

theorem exists_set_iff : (∃ b', b.set name v = .ok b') ↔ b.binds name = true := by
  unfold set
  split <;> simp [*]

theorem exists_setPath_iff : (∃ b', b.setPath path v = .ok b') ↔ b.has path = true := by
  rw [has_eq_true_iff]
  unfold setPath
  constructor
  · rintro ⟨b', h⟩
    obtain ⟨ns, hns, h⟩ := Outcome.bind_eq_ok.1 h
    obtain ⟨names, name, rfl⟩ := Path.exists_concat hns
    rw [setAt_append_one, Outcome.map_eq_ok] at h
    obtain ⟨⟨_, _⟩, h, -⟩ := h
    obtain ⟨c, c', hc, hset, -⟩ := nested?_modifyAt h
    obtain ⟨d, hd, -⟩ := Outcome.map_eq_ok.1 hset
    exact ⟨names, name, c, hns, hc, exists_set_iff.1 ⟨d, hd⟩⟩
  · rintro ⟨names, name, c, hns, hc, hbinds⟩
    obtain ⟨t, ht, rfl⟩ := exists_walk hc
    obtain ⟨d, hd⟩ : ∃ d, t.block.set name v = .ok d := exists_set_iff.2 hbinds
    have hmodify : (·.1) <$> b.modifyAt (fun m => ((), ·) <$> m.set name v) names = .ok () := by
      refine (Scope.modifyAt_eq_walk _ b.scope names).trans ?_
      rw [ht]
      show (·.1) <$> ((), ·) <$> t.block.set name v = _
      rw [hd]
      rfl
    obtain ⟨⟨_, b'⟩, hb', -⟩ := Outcome.map_eq_ok.1 hmodify
    refine ⟨b', Outcome.bind_eq_ok.2 ⟨_, hns, ?_⟩⟩
    rw [setAt_append_one, hb']
    rfl

theorem unbound_of_not_has (h : b.has path = false) : ∃ err, b.Unbound path err := by
  cases hp : Path.names path with
  | error err =>
    obtain rfl := Path.names_eq_error hp
    exact ⟨_, .malformed hp⟩
  | ok ns =>
    obtain ⟨names, name, rfl⟩ := Path.exists_concat hp
    cases hn : b.nested? names with
    | some c =>
      have hfree : c.lookup name = none := by
        refine binds_eq_false_iff.1 (Bool.eq_false_iff.2 fun hbinds => ?_)
        rw [has_eq_true_iff.2 ⟨names, name, c, hp, hn, hbinds⟩] at h
        cases h
      exact ⟨_, .free hp hn hfree⟩
    | none =>
      obtain ⟨pre, n, post, c, rfl, hpre, hc⟩ := exists_stop hn
      rw [List.append_assoc, List.cons_append] at hp
      rcases c.lookup_cases n with hl | ⟨d, hl⟩ | ⟨v, hl, hv⟩
      · exact ⟨_, .free hp hpre hl⟩
      · exact absurd hl (hc d)
      · exact ⟨_, .notABlock hp (by simp) hpre hl hv⟩

theorem Unbound.getPath (h : b.Unbound path err) : b.getPath path = .error err := by
  have hlookup {pre post : List String} {name : String} {c : Block}
      (hp : Path.names path = .ok (pre ++ name :: post)) (hpre : b.nested? pre = some c) :
      ∃ t : Scope, t.block = c ∧ b.scope.lookup path = t.follow (name :: post) := by
    obtain ⟨t, ht, hc⟩ := exists_walk hpre
    refine ⟨t, hc, ?_⟩
    rw [Scope.lookup, hp]
    show b.scope.follow _ = _
    rw [Scope.follow_append _ _ (List.cons_ne_nil name post), ht]
    rfl
  unfold Block.getPath
  cases h with
  | malformed hp =>
    rw [Scope.lookup, hp]
    rfl
  | free hp hpre hl =>
    obtain ⟨t, rfl, ht⟩ := hlookup hp hpre
    rw [ht, Scope.follow_of_free hl]
    rfl
  | notABlock hp hpost hpre hl hv =>
    obtain ⟨t, rfl, ht⟩ := hlookup hp hpre
    rw [ht, Scope.follow_of_not_block hl hv hpost]
    rfl

/-- A path that is not bound is the only one for which there is nothing, and no fault. -/
theorem getOptional_eq_none_iff (t : Target) : b.getOptional t path = .ok none ↔ b.has path = false := by
  unfold getOptional
  split
  · rename_i h
    rw [h]
    cases b.getAs t path <;> simp
  · rename_i h
    simpa using h

/-- The operations on paths agree on which paths there are: a path leads to the same block for reading and
for changing, or to the same fault; it can be set exactly if it is bound; and what is reported for one that
is not bound depends on the names of the path and the blocks on its way alone. -/
theorem paths_agree (b : Block) (path : String) :
    (∀ {α : Type} (f : Block → Except Fault (α × Block)),
      (·.1) <$> (do b.modifyAt f (← (Spot.inside path).names)) =
        b.scope.descend path >>= fun t => (·.1) <$> f t.block) ∧
    (∀ {α : Type} (f : Block → Except Fault (α × Block)) x b',
      (do b.modifyAt f (← (Spot.inside path).names)) = .ok (x, b') →
        ∃ t t', b.scope.descend path = .ok t ∧ b'.scope.descend path = .ok t' ∧ f t.block = .ok (x, t'.block)) ∧
    (Path.isBlank path = false → b.keys path = (fun t => t.block.names) <$> b.scope.descend path) ∧
    (Path.isBlank path = true → b.keys path = .ok b.names ∧ b.scope.descend path = .error (.badPath path)) ∧
    (∀ v, (∃ b', b.setPath path v = .ok b') ↔ b.has path = true) ∧
    (∀ t : Target, b.getOptional t path = .ok none ↔ b.has path = false) ∧
    (b.has path = false → ∃ err, b.Unbound path err ∧ b.getPath path = .error err) := by
  refine ⟨fun f => ?_, fun f x b' h => ?_, fun hblank => ?_, fun hblank => ?_, fun v => exists_setPath_iff,
    getOptional_eq_none_iff, fun h => ?_⟩
  · show (·.1) <$> (Path.names path >>= fun names => b.modifyAt f names) = _
    unfold Scope.descend
    cases Path.names path with
    | error err => rfl
    | ok names => exact Scope.modifyAt_eq_walk f b.scope names
  · obtain ⟨names, hnames, h⟩ := Outcome.bind_eq_ok.1 h
    have hnames : Path.names path = .ok names := hnames
    obtain ⟨m, m', hm, hf, hm'⟩ := nested?_modifyAt h
    obtain ⟨t, ht, rfl⟩ := exists_walk hm
    obtain ⟨t', ht', rfl⟩ := exists_walk hm'
    unfold Scope.descend
    rw [hnames]
    exact ⟨t, t', ht, ht', hf⟩
  · unfold keys
    rw [hblank]
    rfl
  · unfold keys Scope.descend
    rw [hblank, Path.names_of_isBlank hblank]
    exact ⟨rfl, rfl⟩
  · obtain ⟨err, herr⟩ := unbound_of_not_has h
    exact ⟨err, herr, herr.getPath⟩

/-- A path with blanks around its name, and one that goes on after a name that stands for a block. -/
theorem paths_agree_alias :
    let b : Block := [("m", .block [("k", .int 1)]), ("alias", .var "m")]
    let f : Block → Except Fault (Option Value × Block) := fun c => (Change.set "k" (.int 2)).apply c
    let b' : Block := [("m", .block [("k", .int 2)]), ("alias", .var "m")]
    (do b.modifyAt f (← (Spot.inside " m ").names)) = .ok (none, b') ∧
      (∃ t t', b.scope.descend " m " = .ok t ∧ b'.scope.descend " m " = .ok t' ∧
        f t.block = .ok (none, t'.block)) ∧
      Path.isBlank " m " = false ∧ b.keys " m " = .ok ["k"] ∧
      Path.isBlank " " = true ∧ b.keys " " = .ok ["m", "alias"] ∧
      b.has "alias.k" = false ∧ b.Unbound "alias.k" (.notABlock "alias" (.var "m")) ∧
      b.getPath "alias.k" = .error (.notABlock "alias" (.var "m")) := by
  intro b f b'
  have hnames : (Spot.inside " m ").names = .ok ["m"] := by decide +kernel
  have hmodify : (do b.modifyAt f (← (Spot.inside " m ").names)) = .ok (none, b') := by
    rw [hnames]
    rfl
  have hm : Path.isBlank " m " = false := by decide +kernel
  have hblank : Path.isBlank " " = true := by decide +kernel
  have hnot : b.has "alias.k" = false := by decide +kernel
  obtain ⟨-, hmodified, hkeys, -⟩ := paths_agree b " m "
  obtain ⟨-, -, -, hroot, -⟩ := paths_agree b " "
  obtain ⟨-, -, -, -, -, -, hunbound⟩ := paths_agree b "alias.k"
  have hget : b.getPath "alias.k" = .error (.notABlock "alias" (.var "m")) := by with_unfolding_all rfl
  obtain ⟨err, hwhy, herr⟩ := hunbound hnot
  obtain rfl : err = _ := Except.error.inj (herr.symm.trans hget)
  refine ⟨hmodify, hmodified f none b' hmodify, hm, ?_, hblank, (hroot hblank).1, hnot, hwhy, hget⟩
  rw [hkeys hm]
  rfl

end Block

end CaseSetup
