import CaseSetup.Proofs.Evaluation.Correctness
import CaseSetup.Proofs.Evaluation.Derivation
import CaseSetup.Proofs.Induction
import CaseSetup.Proofs.Walk

/-! # Single reads and the whole document

The whole document evaluates exactly if each binding that is no nested block can be read by itself,
and then a read gives what stands at its place in the evaluated document. A binding is read with
nothing active, and as a part of the document with its blocks around it active: that makes no
difference, because both give what the value means. -/

namespace CaseSetup

variable {root here b c e : Block}

theorem MeansBlock.lookup (h : MeansBlock root here b c) {name : String} {v : Value}
    (hl : b.lookup name = some v) : ∃ w, c.lookup name = some w ∧ Means root here v w :=
  (meansBlock_iff.1 h).lookup hl

/-- The nested blocks of a result are the results of the nested blocks. -/
theorem MeansBlock.nested (h : MeansBlock root b b c) {names : List String} {b' : Block}
    (hn : b.nested? names = some b') : ∃ c', c.nested? names = some c' ∧ MeansBlock root b' b' c' := by
  induction names generalizing b c with
  | nil =>
    obtain rfl : b = b' := Option.some.inj hn
    exact ⟨c, rfl, h⟩
  | cons name names ih =>
    obtain ⟨d, hd, hn⟩ := Block.nested?_cons_eq_some.1 hn
    obtain ⟨w, hw, hm⟩ := h.lookup hd
    cases hm with
    | block hm =>
      obtain ⟨c', hc', hm'⟩ := ih hm hn
      exact ⟨c', Block.nested?_cons_eq_some.2 ⟨_, hw, hc'⟩, hm'⟩

/-- A block has a result if every value in it, and in the blocks nested in it, has one. -/
theorem exists_meansBlock (hb : b.isKeyed)
    (h : ∀ names b', b.nested? names = some b' → ∀ name v, b'.lookup name = some v → v.asBlock? = none →
      ∃ w, Means root b' v w) : ∃ c, MeansBlock root b b c := by
  -- by induction on the tree: an entry is a value that can be read, or a block to which this applies
  suffices hall : ∀ v : Value, ∀ b : Block, v = .block b → b.isKeyed →
      (∀ names b', b.nested? names = some b' → ∀ name v, b'.lookup name = some v → v.asBlock? = none →
        ∃ w, Means root b' v w) → ∃ c, MeansBlock root b b c from hall (.block b) b rfl hb h
  clear h hb
  intro v
  induction v using Value.induction with
  | block entries ih =>
    rintro b hv hb h
    obtain rfl : entries = b := Value.block.inj hv
    obtain ⟨hd, hkeyed⟩ := Block.isKeyed_iff.1 hb
    have hentry : ∀ e ∈ entries, ∃ w, Means root entries e.2 w := by
      rintro ⟨name, v⟩ he
      have hl := Entries.lookup_of_mem hd he
      cases hblock : v.asBlock? with
      | none => exact h [] entries rfl name v hl hblock
      | some d =>
        obtain rfl : v = .block d := by
          cases v with
          | block d' => exact congrArg Value.block (Option.some.inj hblock)
          | _ => cases hblock
        obtain ⟨c, hc⟩ := ih _ he d rfl (hkeyed _ he) fun names b' hn =>
          h (name :: names) b' (Block.nested?_cons_eq_some.2 ⟨d, hl, hn⟩)
        exact ⟨.block c, .block hc⟩
    obtain ⟨c, hc⟩ := Entries.exists_related (R := fun _ => Means root entries) hentry
    exact ⟨c, meansBlock_iff.2 hc⟩
  | _ => rintro b hv; cases hv

namespace Block

/-- The document evaluates exactly if each value that is no nested block can be read in its block,
and then each read gives what the evaluated document holds at the same place. -/
theorem evaluated_iff_reads {r : Block} (hr : r.isKeyed) :
    ((∃ e, r.evaluated = .ok e) ↔
      ∀ names s, r.scope.walk names = .ok s → ∀ name v, s.block.lookup name = some v → v.asBlock? = none →
        ∃ w, s.value name = .ok w) ∧
    ∀ e, r.evaluated = .ok e → ∀ names s, r.scope.walk names = .ok s → ∀ name, s.block.binds name →
      ∃ c w, e.nested? names = some c ∧ c.lookup name = some w ∧ s.value name = .ok w := by
  have heval (e : Block) : r.evaluated = .ok e ↔ MeansBlock r r r e := r.scope.evaluatedBlock_eq_ok_iff hr
  have hstored (e : Block) (he : r.evaluated = .ok e) (names : List String) (s : Scope)
      (hs : r.scope.walk names = .ok s) (name : String) (hb : s.block.binds name) :
      ∃ c w, e.nested? names = some c ∧ c.lookup name = some w ∧ s.value name = .ok w := by
    obtain ⟨rfl, rfl⟩ := walk_eq_ok.1 hs
    obtain ⟨v, hl⟩ := binds_eq_true_iff.1 hb
    obtain ⟨c, hc, hm⟩ := ((heval e).1 he).nested s.nested
    obtain ⟨w, hw, hmw⟩ := hm.lookup hl
    exact ⟨c, w, hc, hw, (Scope.value_eq_ok_iff hr).2 ⟨v, hl, hmw⟩⟩
  refine ⟨⟨?_, ?_⟩, hstored⟩
  · rintro ⟨e, he⟩ names s hs name v hl -
    obtain ⟨c, w, -, -, hw⟩ := hstored e he names s hs name (binds_eq_true_iff.2 ⟨v, hl⟩)
    exact ⟨w, hw⟩
  · intro h
    have hmeans (names : List String) (b : Block) (hn : r.nested? names = some b) (name : String) (v : Value)
        (hl : b.lookup name = some v) (hv : v.asBlock? = none) : ∃ w, Means r b v w := by
      obtain ⟨s, hs, rfl⟩ := exists_walk hn
      obtain ⟨w, hw⟩ := h names s hs name v hl hv
      obtain ⟨rfl, -⟩ := walk_eq_ok.1 hs
      obtain ⟨v', hl', hm⟩ := (Scope.value_eq_ok_iff hr).1 hw
      obtain rfl : v = v' := Option.some.inj (hl.symm.trans hl')
      exact ⟨w, hm⟩
    obtain ⟨e, he⟩ := exists_meansBlock hr hmeans
    exact ⟨e, (heval e).2 he⟩

/-- A name of the root that the block in between binds too, and a block that refers to itself. -/
theorem evaluated_iff_reads_nested :
    let r : Block := [("n", .int 2),
      ("m", .block [("n", .int 3), ("k", .block [("x", .binary .add (.var "n") (.var "n"))])])]
    let q : Block := [("m", .block [("x", .var "m")])]
    r.isKeyed ∧ (∃ s, r.scope.walk ["m", "k"] = .ok s ∧ s.value "x" = .ok (.int 4)) ∧
      q.isKeyed ∧ ∀ e, q.evaluated ≠ .ok e := by
  intro r q
  have hr : r.isKeyed := by decide
  have hq : q.isKeyed := by decide
  refine ⟨hr, ?_, hq, fun e he => ?_⟩
  · have hn : r.nested? ["m", "k"] = some [("x", .binary .add (.var "n") (.var "n"))] := rfl
    obtain ⟨s, hs, hb⟩ := exists_walk hn
    have he : r.evaluated = .ok [("n", .int 2), ("m", .block [("n", .int 3), ("k", .block [("x", .int 4)])])] := by
      with_unfolding_all rfl
    obtain ⟨c, w, hc, hw, hvalue⟩ := (evaluated_iff_reads hr).2 _ he _ s hs "x" (by rw [hb]; rfl)
    cases hc
    cases hw
    exact ⟨s, hs, hvalue⟩
  · have hn : q.nested? ["m"] = some [("x", .var "m")] := rfl
    obtain ⟨s, hs, hb⟩ := exists_walk hn
    obtain ⟨w, hw⟩ := (evaluated_iff_reads hq).1.1 ⟨e, he⟩ _ s hs "x" (.var "m") (by rw [hb]; rfl) rfl
    obtain ⟨hroot, hpath⟩ := walk_eq_ok.1 hs
    have hs' : s = ⟨q, ["m"], [("x", .var "m")], rfl⟩ := Scope.eq_of_path hroot hpath
    have hfail : Scope.value ⟨q, ["m"], [("x", .var "m")], rfl⟩ "x" = .error (.circular ["x", "m"] "x") := by
      with_unfolding_all rfl
    rw [hs', hfail] at hw
    cases hw

end Block

end CaseSetup
