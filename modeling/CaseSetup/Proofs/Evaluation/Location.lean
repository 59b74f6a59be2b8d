import CaseSetup.Evaluation.Place
import CaseSetup.Proofs.Entries
import CaseSetup.Proofs.Evaluation.Keyed
import CaseSetup.Scope
import Mathlib.Data.List.Induction

/-! # What stands at a place

A place leads to one value of the document, or of a value evaluated beside it. So the place of a
block decides what it holds, and every binding of a block that stands at a place is among the
references of the whole. -/

namespace CaseSetup

/-- The part of a value one step down. -/
def Step.part? : Step → Value → Option Value
  | entry name, .block b => b.lookup name
  | key k, .dict es => es.lookup k
  | item i, .list vs => vs[i]?
  | item i, .tuple vs => vs[i]?
  | operand, .neg v => some v
  | left, .binary _ l _ => some l
  | right, .binary _ _ r => some r
  | _, _ => none

/-- What is evaluated: a document, and perhaps a value that is no part of it. -/
structure Whole where
  root : Block
  loose : Option Value

namespace Whole

/-- The value at a place. -/
def at? (d : Whole) : Place → Option Value
  | [] => some (.block d.root)
  | s :: p => if s = .loose ∧ p = [] then d.loose else (d.at? p).bind s.part?

/-- Every binding there is. -/
def refs (d : Whole) : List Ref := d.root.refs ++ (d.loose.map (·.refs [.loose])).getD []

def isKeyed (d : Whole) : Bool := d.root.isKeyed && d.loose.all Value.isKeyed

/-- Does the block of the site stand at its place? -/
def Holds (d : Whole) (s : Site) : Prop := d.at? s.place = some (.block s.block)

variable {d : Whole} {p : Place}

theorem holds_root : d.Holds (.root d.root) := rfl

theorem at?_cons {s : Step} {v w : Value} (hv : d.at? p = some v) (hw : s.part? v = some w) :
    d.at? (s :: p) = some w := by
  have hs : ¬ (s = .loose ∧ p = []) := by
    rintro ⟨rfl, -⟩
    simp [Step.part?] at hw
  simp [at?, hs, hv, hw]

/-- The place decides the block. -/
theorem Holds.block_eq {s t : Site} (hs : d.Holds s) (ht : d.Holds t) (h : s.place = t.place) :
    s.block = t.block := by
  have : some (Value.block s.block) = some (.block t.block) := by
    rw [← hs, ← ht, h]
  simpa using this

theorem holds_of_nested {path : List String} {b : Block} (h : d.root.nested? path = some b) :
    d.Holds ⟨(path.map Step.entry).reverse, b⟩ := by
  induction path using List.reverseRecOn generalizing b with
  | nil =>
    obtain rfl : d.root = b := by simpa [Block.nested?] using h
    exact holds_root
  | append_singleton path name ih =>
    rw [Block.nested?_append, Option.bind_eq_some_iff] at h
    obtain ⟨c, hc, hb⟩ := h
    have hl : c.lookup name = some (.block b) := by
      simp only [Block.nested?] at hb
      split at hb
      · rename_i c' hc'
        rw [hc', Option.some.inj hb]
      · cases hb
    have := at?_cons (s := .entry name) (ih hc) hl
    simpa [Holds] using this

end Whole

/-! ## References of a part -/

theorem mem_entryRefs {p : Place} {es : Block} {name : String} {v : Value} (h : (name, v) ∈ es) :
    ⟨p, name⟩ ∈ entryRefs p es ∧ ∀ r ∈ v.refs (.entry name :: p), r ∈ entryRefs p es := by
  induction es with
  | nil => simp at h
  | cons e es ih =>
    obtain ⟨n, w⟩ := e
    simp only [entryRefs, List.cons_append, List.mem_cons, List.mem_append]
    rcases List.mem_cons.1 h with h | h
    · cases h
      exact ⟨.inl rfl, fun r hr => .inr (.inl hr)⟩
    · exact ⟨.inr (.inr (ih h).1), fun r hr => .inr (.inr ((ih h).2 r hr))⟩

theorem mem_keyRefs {p : Place} {es : Dict} {k : Key} {v : Value} (h : (k, v) ∈ es) :
    ∀ r ∈ v.refs (.key k :: p), r ∈ keyRefs p es := by
  induction es with
  | nil => simp at h
  | cons e es ih =>
    obtain ⟨k', w⟩ := e
    intro r hr
    simp only [keyRefs, List.mem_append]
    rcases List.mem_cons.1 h with h | h
    · cases h; exact .inl hr
    · exact .inr (ih h r hr)

theorem mem_itemRefs {p : Place} {vs : List Value} {i j : Nat} {v : Value} (h : vs[j]? = some v) :
    ∀ r ∈ v.refs (.item (i + j) :: p), r ∈ itemRefs p i vs := by
  induction vs generalizing i j with
  | nil => simp at h
  | cons w vs ih =>
    intro r hr
    simp only [itemRefs, List.mem_append]
    cases j with
    | zero =>
      obtain rfl : w = v := by simpa using h
      exact .inl hr
    | succ j =>
      refine .inr (ih (i := i + 1) (j := j) (by simpa using h) r ?_)
      rwa [Nat.add_right_comm]

theorem Step.refs_part {s : Step} {p : Place} {v w : Value} (h : s.part? v = some w) :
    ∀ r ∈ w.refs (s :: p), r ∈ v.refs p := by
  unfold Step.part? at h
  intro r hr
  split at h
  · exact (mem_entryRefs (Entries.mem_of_lookup h)).2 r hr
  · exact mem_keyRefs (Entries.mem_of_lookup h) r hr
  · exact mem_itemRefs (i := 0) h r (by rwa [Nat.zero_add])
  · exact mem_itemRefs (i := 0) h r (by rwa [Nat.zero_add])
  · cases h; exact hr
  · cases h; exact List.mem_append_left _ hr
  · cases h; exact List.mem_append_right _ hr
  · cases h

theorem Step.isKeyed_part {s : Step} {v w : Value} (hk : v.isKeyed) (h : s.part? v = some w) : w.isKeyed := by
  unfold Step.part? at h
  split at h
  · exact (Block.isKeyed_iff.1 hk).2 _ (Entries.mem_of_lookup h)
  · exact (Value.isKeyed_dict.1 hk).2 _ (Entries.mem_of_lookup h)
  · exact itemsKeyed_iff.1 hk _ (List.mem_of_getElem? h)
  · exact itemsKeyed_iff.1 hk _ (List.mem_of_getElem? h)
  · cases h; exact hk
  · cases h; exact (Bool.and_eq_true_iff.1 hk).1
  · cases h; exact (Bool.and_eq_true_iff.1 hk).2
  · cases h

namespace Whole

variable {d : Whole}

theorem mem_refs_of_at {p : Place} {v : Value} (h : d.at? p = some v) : ∀ r ∈ v.refs p, r ∈ d.refs := by
  induction p generalizing v with
  | nil =>
    obtain rfl : Value.block d.root = v := by simpa [at?] using h
    exact fun r hr => List.mem_append_left _ hr
  | cons s p ih =>
    rw [at?] at h
    split at h
    · rename_i hs
      obtain ⟨rfl, rfl⟩ := hs
      exact fun r hr => List.mem_append_right _ (by simpa [h] using hr)
    · obtain ⟨u, hu, hv⟩ := Option.bind_eq_some_iff.1 h
      exact fun r hr => ih hu r (s.refs_part hv r hr)

theorem isKeyed_of_at (hd : d.isKeyed) {p : Place} {v : Value} (h : d.at? p = some v) : v.isKeyed := by
  obtain ⟨hr, hl⟩ := Bool.and_eq_true_iff.1 hd
  induction p generalizing v with
  | nil =>
    obtain rfl : Value.block d.root = v := by simpa [at?] using h
    exact hr
  | cons s p ih =>
    rw [at?] at h
    split at h
    · simpa [h] using hl
    · obtain ⟨u, hu, hv⟩ := Option.bind_eq_some_iff.1 h
      exact s.isKeyed_part (ih hu) hv

theorem Holds.ref_mem {s : Site} (hs : d.Holds s) {name : String} {v : Value}
    (hl : s.block.lookup name = some v) : s.ref name ∈ d.refs :=
  mem_refs_of_at hs _ (mem_entryRefs (Entries.mem_of_lookup hl)).1

theorem Holds.isKeyed {s : Site} (hd : d.isKeyed) (hs : d.Holds s) : s.block.isKeyed := isKeyed_of_at hd hs

end Whole

end CaseSetup
