import CaseSetup.Proofs.Entries
import CaseSetup.Proofs.Evaluation.Meaning
import Mathlib.Logic.Relation

/-! # References between bindings

`Refers root here v r`: to evaluate `v`, written in the block `here`, the binding `r` is read. All
of a value is evaluated, so a value with a result reads only bindings with results, and no binding
with a result leads back to itself (`not_leads_self`). -/

namespace CaseSetup

/-- A binding by what its block holds, and its name. -/
abbrev Binding := Block × String

inductive Refers (root : Block) : Block → Value → Binding → Prop
  | listItem {here : Block} {vs : List Value} {v : Value} {r : Binding} :
    v ∈ vs → Refers root here v r → Refers root here (.list vs) r
  | tupleItem {here : Block} {vs : List Value} {v : Value} {r : Binding} :
    v ∈ vs → Refers root here v r → Refers root here (.tuple vs) r
  | dictValue {here : Block} {es : Dict} {e : Key × Value} {r : Binding} :
    e ∈ es → Refers root here e.2 r → Refers root here (.dict es) r
  | entry {here b : Block} {e : String × Value} : e ∈ b → Refers root here (.block b) (b, e.1)
  | operand {here : Block} {v : Value} {r : Binding} : Refers root here v r → Refers root here (.neg v) r
  | left {here : Block} {op : Op} {l l' : Value} {r : Binding} :
    Refers root here l r → Refers root here (.binary op l l') r
  | right {here : Block} {op : Op} {l l' : Value} {r : Binding} :
    Refers root here l' r → Refers root here (.binary op l l') r
  | near {here : Block} {name : String} {v : Value} :
    here.lookup name = some v → Refers root here (.var name) (here, name)
  | far {here : Block} {name : String} {v : Value} :
    here.lookup name = none → root.lookup name = some v → Refers root here (.var name) (root, name)

namespace Refers
variable {root here b : Block} {r : Binding}

theorem of_list {vs : List Value} (h : Refers root here (.list vs) r) : ∃ v ∈ vs, Refers root here v r := by
  cases h with | listItem hv h => exact ⟨_, hv, h⟩

theorem of_tuple {vs : List Value} (h : Refers root here (.tuple vs) r) : ∃ v ∈ vs, Refers root here v r := by
  cases h with | tupleItem hv h => exact ⟨_, hv, h⟩

theorem of_dict {es : Dict} (h : Refers root here (.dict es) r) : ∃ e ∈ es, Refers root here e.2 r := by
  cases h with | dictValue he h => exact ⟨_, he, h⟩

theorem of_block (h : Refers root here (.block b) r) : ∃ e ∈ b, r = (b, e.1) := by
  cases h with | entry he => exact ⟨_, he, rfl⟩

theorem of_neg {v : Value} (h : Refers root here (.neg v) r) : Refers root here v r := by
  cases h with | operand h => exact h

theorem of_binary {op : Op} {l l' : Value} (h : Refers root here (.binary op l l') r) :
    Refers root here l r ∨ Refers root here l' r := by
  cases h with
  | left h => exact .inl h
  | right h => exact .inr h

theorem of_near {name : String} {v : Value} (hl : here.lookup name = some v)
    (h : Refers root here (.var name) r) : r = (here, name) := by
  cases h with
  | near => rfl
  | far hn => rw [hl] at hn; cases hn

theorem of_far {name : String} (hl : here.lookup name = none) (h : Refers root here (.var name) r) :
    r = (root, name) := by
  cases h with
  | near hs => rw [hl] at hs; cases hs
  | far => rfl

end Refers

/-- Evaluating the binding `r` reads the binding `r'`. -/
def Leads (root : Block) (r r' : Binding) : Prop :=
  ∃ v, r.1.lookup r.2 = some v ∧ Refers root r.1 v r'

/-- A binding from which only finitely many steps lead on. -/
abbrev Grounded (root : Block) (r : Binding) : Prop := Acc (fun r' r => Leads root r r') r

variable {root : Block}

theorem Grounded.of_lookup {b : Block} {name : String} {v : Value} (hl : b.lookup name = some v)
    (h : ∀ r, Refers root b v r → Grounded root r) : Grounded root (b, name) := by
  refine Acc.intro _ fun r ⟨v', hv', hr⟩ => h r ?_
  obtain rfl : v = v' := by simpa [hl] using hv'
  exact hr

mutual
/-- A value with a result reads grounded bindings only. -/
theorem Means.grounded {here : Block} {v w : Value} :
    Means root here v w → ∀ r, Refers root here v r → Grounded root r
  | .bool _ | .int _ | .float _ | .str _ => by
    intro r hr
    cases hr
  | .list h => by
    intro r hr
    obtain ⟨v, hv, hr⟩ := hr.of_list
    exact h.grounded v hv r hr
  | .tuple h => by
    intro r hr
    obtain ⟨v, hv, hr⟩ := hr.of_tuple
    exact h.grounded v hv r hr
  | .dict h => by
    intro r hr
    obtain ⟨e, he, hr⟩ := hr.of_dict
    exact h.grounded e he r hr
  | .block h => by
    intro r hr
    obtain ⟨e, he, rfl⟩ := hr.of_block
    obtain ⟨v, hv⟩ := Option.isSome_iff_exists.1
      (Entries.binds_iff_mem_keys.2 (List.mem_map.2 ⟨e, he, rfl⟩))
    exact .of_lookup hv (h.grounded _ (Entries.mem_of_lookup hv))
  | .neg h _ => fun r hr => h.grounded r hr.of_neg
  | .binary hl hr _ => fun r h => h.of_binary.elim (hl.grounded r) (hr.grounded r)
  | .near hl h => by
    intro r hr
    rw [hr.of_near hl]
    exact .of_lookup hl h.grounded
  | .far hn hl h => by
    intro r hr
    rw [hr.of_far hn]
    exact .of_lookup hl h.grounded

theorem MeansItems.grounded {here : Block} {vs ws : List Value} :
    MeansItems root here vs ws → ∀ v ∈ vs, ∀ r, Refers root here v r → Grounded root r
  | .nil => by simp
  | .cons h hs => by
    intro v hv
    rcases List.mem_cons.1 hv with hv | hv
    · rw [hv]; exact h.grounded
    · exact hs.grounded v hv

theorem MeansDict.grounded {here : Block} {es fs : Dict} :
    MeansDict root here es fs → ∀ e ∈ es, ∀ r, Refers root here e.2 r → Grounded root r
  | .nil => by simp
  | .cons h hs => by
    intro e he
    rcases List.mem_cons.1 he with he | he
    · rw [he]; exact h.grounded
    · exact hs.grounded e he

theorem MeansBlock.grounded {here es fs : Block} :
    MeansBlock root here es fs → ∀ e ∈ es, ∀ r, Refers root here e.2 r → Grounded root r
  | .nil => by simp
  | .cons h hs => by
    intro e he
    rcases List.mem_cons.1 he with he | he
    · rw [he]; exact h.grounded
    · exact hs.grounded e he
end

/-- A finite derivation does not contain itself. -/
theorem Grounded.not_leads_self {r : Binding} (h : Grounded root r) :
    ¬ Relation.TransGen (Leads root) r r := by
  induction h with
  | intro r _ ih =>
    intro hc
    obtain ⟨s, hs, hsr⟩ := Relation.TransGen.head'_iff.1 hc
    exact ih s hs (Relation.TransGen.tail' hsr hs)

end CaseSetup
