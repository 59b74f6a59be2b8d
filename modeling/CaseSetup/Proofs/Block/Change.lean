import CaseSetup.Block.Change
import CaseSetup.Proofs.Entries
import CaseSetup.Proofs.Evaluation.Keyed
import CaseSetup.Proofs.Walk

/-! # A change of a nested block

A change inside a nested block replaces one binding of each block around it, that of the block next
on the way. All other bindings of these blocks stay. -/

namespace CaseSetup.Block

variable {α : Type} {f : Block → Except Fault (α × Block)} {x : α} {name : String} {names : List String}
  {b b' : Block} {v : Value}

theorem isKeyed_replace (hb : b.isKeyed) (hv : v.isKeyed) : isKeyed (Entries.replace name v b) := by
  obtain ⟨hd, hes⟩ := isKeyed_iff.1 hb
  refine isKeyed_iff.2 ⟨by rwa [Entries.keys_replace], fun e he => ?_⟩
  rcases Entries.mem_replace he with rfl | he
  · exact hv
  · exact hes e he

theorem isKeyed_append (hb : b.isKeyed) (hv : v.isKeyed) (hname : name ∉ Entries.keys b) :
    isKeyed (b ++ [(name, v)]) := by
  obtain ⟨hd, hes⟩ := isKeyed_iff.1 hb
  have hd' := Entries.nodup_put (k := name) (v := v) hd
  rw [Entries.put_of_not_mem hname] at hd'
  refine isKeyed_iff.2 ⟨hd', fun e he => ?_⟩
  rcases List.mem_append.1 he with he | he
  · exact hes e he
  · obtain rfl := List.mem_singleton.1 he
    exact hv

theorem modifyAt_cons_eq_ok : modifyAt f (name :: names) b = .ok (x, b') ↔
    ∃ c c', b.lookup name = some (.block c) ∧ modifyAt f names c = .ok (x, c') ∧
      b' = Entries.replace name (.block c') b := by
  simp only [modifyAt, Outcome.bind_eq_ok, Outcome.pure_eq_ok, child_eq_ok, Prod.exists, Prod.mk.injEq]
  constructor
  · rintro ⟨c, hc, y, c', hm, rfl, rfl⟩
    exact ⟨c, c', hc, hm, rfl⟩
  · rintro ⟨c, c', hc, hm, rfl⟩
    exact ⟨c, hc, x, c', hm, rfl, rfl⟩

theorem lookup_modifyAt (h : modifyAt f (name :: names) b = .ok (x, b')) {n : String} (hn : n ≠ name) :
    b'.lookup n = b.lookup n := by
  obtain ⟨c, c', hc, -, rfl⟩ := modifyAt_cons_eq_ok.1 h
  rw [Entries.lookup_replace (binds_eq_true_iff.2 ⟨_, hc⟩), if_neg hn]

/-- The block at the end of the names is the changed one. -/
theorem nested?_modifyAt (h : modifyAt f names b = .ok (x, b')) :
    ∃ m m', b.nested? names = some m ∧ f m = .ok (x, m') ∧ b'.nested? names = some m' := by
  induction names generalizing b b' with
  | nil => exact ⟨b, b', rfl, h, rfl⟩
  | cons name names ih =>
    obtain ⟨c, c', hc, hm, rfl⟩ := modifyAt_cons_eq_ok.1 h
    obtain ⟨m, m', hnest, hf, hnest'⟩ := ih hm
    refine ⟨m, m', nested?_cons_eq_some.2 ⟨c, hc, hnest⟩, hf, nested?_cons_eq_some.2 ⟨c', ?_, hnest'⟩⟩
    rw [Entries.lookup_replace (binds_eq_true_iff.2 ⟨_, hc⟩), if_pos rfl]

theorem isKeyed_modifyAt (hf : ∀ m m', b.nested? names = some m → f m = .ok (x, m') → m.isKeyed → m'.isKeyed)
    (hb : b.isKeyed) (h : modifyAt f names b = .ok (x, b')) : b'.isKeyed := by
  induction names generalizing b b' with
  | nil => exact hf b b' rfl h hb
  | cons name names ih =>
    obtain ⟨c, c', hc, hm, rfl⟩ := modifyAt_cons_eq_ok.1 h
    have hkeyed : Block.isKeyed c := (isKeyed_iff.1 hb).2 _ (Entries.mem_of_lookup hc)
    refine isKeyed_replace hb (ih (fun m m' hn => ?_) hkeyed hm)
    exact hf m m' (nested?_cons_eq_some.2 ⟨c, hc, hn⟩)

end CaseSetup.Block
