import CaseSetup.Proofs.Evaluation.Derivation
import CaseSetup.Proofs.Evaluation.Keyed
import CaseSetup.Proofs.Evaluation.Reference

/-! # What a result depends on

To evaluate a value, the bindings are read that it refers to, those that their values refer to, and
so on. In another root the value keeps its result if all of these that stand in the root keep their
values there, or get others with the same results. -/

namespace CaseSetup

variable {root root' here b : Block} {r : Binding}

/-- To evaluate `v`, the binding `r` is read, directly or on the way. -/
def Reaches (root here : Block) (v : Value) (r : Binding) : Prop :=
  ∃ q, Refers root here v q ∧ Relation.ReflTransGen (Leads root) q r

namespace Reaches

theorem of_refers {v : Value} (h : Refers root here v r) : Reaches root here v r := ⟨r, h, .refl⟩

/-- A part of a value reaches no more than the value. -/
theorem of_part {u v : Value} (hpart : ∀ q, Refers root here u q → Refers root here v q)
    (h : Reaches root here u r) : Reaches root here v r := by
  obtain ⟨q, hq, hr⟩ := h
  exact ⟨q, hpart q hq, hr⟩

/-- What the value of a binding reaches is reached through the binding. -/
theorem of_lookup {u v : Value} {name : String} (hl : b.lookup name = some u) (hv : Refers root here v (b, name))
    (h : Reaches root b u r) : Reaches root here v r := by
  obtain ⟨q, hq, hr⟩ := h
  exact ⟨(b, name), hv, .head ⟨u, hl, hq⟩ hr⟩

end Reaches

/-- The block is the same in both documents, or it is the root of each. -/
def Seen (root root' here here' : Block) : Prop := here' = here ∨ here = root ∧ here' = root'

/-- A result depends on the bindings of the root that are reached, and on no others; and of these it
depends on their results alone. -/
theorem Means.of_redefined {here' : Block} {v w : Value} (h : Means root here v w) (hr : root.isKeyed)
    (hh : here.isKeyed) (hv : v.isKeyed) (hseen : Seen root root' here here')
    (hkept : ∀ name u, Reaches root here v (root, name) → root.lookup name = some u →
      ∃ u', root'.lookup name = some u' ∧ (u' = u ∨ ∀ w, Means root root u w → Means root' root' u' w)) :
    Means root' here' v w := by
  induction h using Means.induction generalizing here' with
  | bool here b => exact .bool b
  | int here n => exact .int n
  | float here x => exact .float x
  | str here s => exact .str s
  | list here vs ws _ ih =>
    refine .list (meansItems_iff.2 (forall₂_imp_of_mem ih fun v w hm ⟨_, ih⟩ => ?_))
    exact ih hh (itemsKeyed_iff.1 hv v hm) hseen fun n u hn => hkept n u (hn.of_part fun _ => .listItem hm)
  | tuple here vs ws _ ih =>
    refine .tuple (meansItems_iff.2 (forall₂_imp_of_mem ih fun v w hm ⟨_, ih⟩ => ?_))
    exact ih hh (itemsKeyed_iff.1 hv v hm) hseen fun n u hn => hkept n u (hn.of_part fun _ => .tupleItem hm)
  | dict here es fs _ ih =>
    refine .dict (meansDict_iff.2 (ih.imp fun k v w hm ⟨_, ih⟩ => ?_))
    exact ih hh ((Value.isKeyed_dict.1 hv).2 _ hm) hseen fun n u hn => hkept n u (hn.of_part fun _ => .dictValue hm)
  | block here b c _ ih =>
    obtain ⟨hd, hes⟩ := Block.isKeyed_iff.1 hv
    refine .block (meansBlock_iff.2 (ih.imp fun name v w hm ⟨_, ih⟩ => ?_))
    refine ih hv (hes _ hm) (.inl rfl) fun n u hn => hkept n u ?_
    exact hn.of_lookup (Entries.lookup_of_mem hd hm) (.entry hm)
  | neg here v a w _ hw ih => exact .neg (ih hh hv hseen fun n u hn => hkept n u (hn.of_part fun _ => .operand)) hw
  | binary here op l r a b w _ _ hw ihl ihr =>
    obtain ⟨hl, hr⟩ := Bool.and_eq_true_iff.1 hv
    refine .binary (ihl hh hl hseen fun n u hn => ?_) (ihr hh hr hseen fun n u hn => ?_) hw
    · exact hkept n u (hn.of_part fun _ => .left)
    · exact hkept n u (hn.of_part fun _ => .right)
  | near here name v w hl hm ih =>
    have hread : Refers root here (.var name) (here, name) := .near hl
    have hm' := ih hh ((Block.isKeyed_iff.1 hh).2 _ (Entries.mem_of_lookup hl)) hseen fun n u hn =>
      hkept n u (hn.of_lookup hl hread)
    rcases hseen with rfl | ⟨rfl, rfl⟩
    · exact .near hl hm'
    · obtain ⟨u', hl', rfl | hsame⟩ := hkept name v (.of_refers hread) hl
      · exact .near hl' hm'
      · exact .near hl' (hsame w hm)
  | far here name v w hn hl hm ih =>
    have hread : Refers root here (.var name) (root, name) := .far hn hl
    have hm' := ih hr ((Block.isKeyed_iff.1 hr).2 _ (Entries.mem_of_lookup hl)) (.inr ⟨rfl, rfl⟩) fun n u hn =>
      hkept n u (hn.of_lookup hl hread)
    rcases hseen with rfl | ⟨rfl, -⟩
    · obtain ⟨u', hl', rfl | hsame⟩ := hkept name v (.of_refers hread) hl
      · exact .far hn hl' hm'
      · exact .far hn hl' (hsame w hm)
    · cases hn.symm.trans hl

theorem Means.of_kept {here' : Block} {v w : Value} (h : Means root here v w) (hr : root.isKeyed) (hh : here.isKeyed)
    (hv : v.isKeyed) (hseen : Seen root root' here here')
    (hkept : ∀ name u, Reaches root here v (root, name) → root.lookup name = some u → root'.lookup name = some u) :
    Means root' here' v w :=
  h.of_redefined hr hh hv hseen fun name u hn hl => ⟨u, hkept name u hn hl, .inl rfl⟩

end CaseSetup
