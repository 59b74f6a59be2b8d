import CaseSetup.Proofs.Block.Change
import CaseSetup.Proofs.Evaluation.Correctness
import CaseSetup.Proofs.Evaluation.Frame

/-! # Blocks in between

A name is looked up in its own block and in the root, never in the blocks between the two. Yet an
evaluation can get into a block in between: by a reference to the binding of the root that holds it,
which evaluates all there is in it. But then it evaluates the block it started from, too, so it comes
back to where it began and has no result. -/

namespace CaseSetup

variable {r r' b c : Block} {name : String} {names : List String}

theorem Leads.entry (hl : b.lookup name = some (.block c)) {n : String} {v : Value} (hn : c.lookup n = some v) :
    Leads r (b, name) (c, n) := by
  have he : Refers r b (.block c) (c, n) := .entry (e := (n, v)) (Entries.mem_of_lookup hn)
  exact ⟨.block c, hl, he⟩

/-- A binding that holds a block leads to every binding in it, however deep. -/
theorem Leads.nested (hb : b.nested? (name :: names) = some c) {n : String} {v : Value}
    (hn : c.lookup n = some v) : Relation.TransGen (Leads r) (b, name) (c, n) := by
  induction names generalizing b name with
  | nil => exact .single (.entry (Block.nested?_one.1 hb) hn)
  | cons name' names ih =>
    obtain ⟨d, hd, hnest⟩ := Block.nested?_cons_eq_some.1 hb
    obtain ⟨d', hd', -⟩ := Block.nested?_cons_eq_some.1 hnest
    exact .head (.entry hd hd') (ih hnest)

/-- A result in a nested block does not depend on the binding of the root that holds the block. -/
theorem Means.of_same_around {s : Block} {v w : Value} (hr : r.isKeyed) (hs : s.isKeyed)
    (hn : r.nested? (name :: names) = some s) (hsame : ∀ n, n ≠ name → r'.lookup n = r.lookup n)
    {n : String} (hl : s.lookup n = some v) (h : Means r s v w) : Means r' s v w := by
  refine h.of_kept hr hs ((Block.isKeyed_iff.1 hs).2 _ (Entries.mem_of_lookup hl)) (.inl rfl) fun m u hm hu => ?_
  have hne : m ≠ name := by
    rintro rfl
    -- from the binding being read to the one that holds its block, and back
    obtain ⟨q, hq, hback⟩ := hm
    have hstep : Leads r (s, n) q := ⟨v, hl, hq⟩
    have hround : Relation.TransGen (Leads r) (s, n) (r, m) := .head' hstep hback
    have hcycle : Relation.TransGen (Leads r) (s, n) (s, n) := hround.trans (Leads.nested hn hl)
    exact (Grounded.of_lookup hl h.grounded).not_leads_self hcycle
  rw [hsame m hne, hu]

namespace Block

/-- No change of a block between the root and a nested block changes what is read in the nested
block, as long as the binding on the way to it stays. -/
theorem value_of_changed_between {α : Type} {f : Block → Except Fault (α × Block)} {x : α}
    {above below : List String} {kept : String} (hr : r.isKeyed) (habove : above ≠ [])
    (hf : ∀ m m', r.nested? above = some m → f m = .ok (x, m') → m'.lookup kept = m.lookup kept ∧ m'.isKeyed)
    (h : r.modifyAt f above = .ok (x, r')) {s : Scope} (hs : r.scope.walk (above ++ kept :: below) = .ok s) :
    ∃ s', r'.scope.walk (above ++ kept :: below) = .ok s' ∧ s'.block = s.block ∧
      ∀ name v, s.value name = .ok v ↔ s'.value name = .ok v := by
  obtain ⟨rfl, hpath⟩ := walk_eq_ok.1 hs
  have hr' : r'.isKeyed := isKeyed_modifyAt (fun m m' hn hm _ => (hf m m' hn hm).2) hr h
  have hn : s.root.nested? (above ++ kept :: below) = some s.block := hpath ▸ s.nested
  have hn' : r'.nested? (above ++ kept :: below) = some s.block := by
    obtain ⟨m, m', hm, hfm, hm'⟩ := nested?_modifyAt h
    rw [nested?_append, hm, Option.bind_some] at hn
    rw [nested?_append, hm', Option.bind_some]
    obtain ⟨c, hc, hbelow⟩ := nested?_cons_eq_some.1 hn
    exact nested?_cons_eq_some.2 ⟨c, (hf m m' hm hfm).1.trans hc, hbelow⟩
  obtain ⟨s', hs', hblock⟩ := exists_walk hn'
  obtain ⟨rfl, -⟩ := walk_eq_ok.1 hs'
  refine ⟨s', hs', hblock, fun name v => ?_⟩
  obtain ⟨top, above, rfl⟩ := List.exists_cons_of_ne_nil habove
  have hsame (n : String) (hne : n ≠ top) : s'.root.lookup n = s.root.lookup n := lookup_modifyAt h hne
  have hkeyed : s.block.isKeyed := Scope.isKeyed_block hr
  rw [Scope.value_eq_ok_iff hr, Scope.value_eq_ok_iff hr', hblock]
  constructor
  · rintro ⟨u, hl, hm⟩
    exact ⟨u, hl, hm.of_same_around hr hkeyed hn hsame hl⟩
  · rintro ⟨u, hl, hm⟩
    exact ⟨u, hl, hm.of_same_around hr' hkeyed hn' (fun n hne => (hsame n hne).symm) hl⟩

/-- In `a.m` a binding is added, one replaced and the order changed, and `a.m.s` reads `n` from the
root as before. -/
theorem value_of_changed_between_sum :
    let s : Block := [("x", .binary .add (.var "n") (.int 1))]
    let document (m : Block) : Block := [("n", .int 2), ("a", .block [("n", .int 3), ("m", .block m)])]
    let m : Block := [("n", .int 5), ("s", .block s)]
    let m' : Block := [("y", .var "y"), ("s", .block s), ("n", .int 7)]
    (document m).isKeyed ∧
      (document m).modifyAt (fun _ => .ok ((), m')) ["a", "m"] = .ok ((), document m') ∧
      ∃ t t', (document m).scope.walk ["a", "m", "s"] = .ok t ∧ t.value "x" = .ok (.int 3) ∧
        (document m').scope.walk ["a", "m", "s"] = .ok t' ∧ t'.value "x" = .ok (.int 3) := by
  intro s document m m'
  have hr : (document m).isKeyed := by decide
  have h : (document m).modifyAt (fun _ => .ok ((), m')) ["a", "m"] = .ok ((), document m') := rfl
  let t : Scope := ⟨document m, ["a", "m", "s"], s, rfl⟩
  have ht : (document m).scope.walk ["a", "m", "s"] = .ok t := walk_eq_ok.2 ⟨rfl, rfl⟩
  have hvalue : t.value "x" = .ok (.int 3) := by with_unfolding_all rfl
  have hkept (n n' : Block) (hn : (document m).nested? ["a", "m"] = some n)
      (hn' : (.ok ((), m') : Except Fault (Unit × Block)) = .ok ((), n')) :
      n'.lookup "s" = n.lookup "s" ∧ n'.isKeyed := by
    cases hn
    cases hn'
    exact ⟨rfl, by decide⟩
  have ht' : (document m).scope.walk (["a", "m"] ++ "s" :: []) = .ok t := ht
  obtain ⟨t', ht', -, hsame⟩ := value_of_changed_between hr (by simp) hkept h ht'
  exact ⟨hr, h, t, t', ht, hvalue, ht', (hsame _ _).1 hvalue⟩

end Block

end CaseSetup
