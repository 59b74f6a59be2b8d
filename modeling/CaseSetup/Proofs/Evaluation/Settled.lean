import CaseSetup.Proofs.Evaluation.Derivation
import CaseSetup.Proofs.Evaluation.Keyed
import CaseSetup.Proofs.Induction
import CaseSetup.Proofs.Writing.Glue
import CaseSetup.Proofs.Writing.Regular

/-! # What a document evaluates to

References can put lists and blocks where no text could have them. All else that holds of a parsed
document holds of its results: names are words, strings have no quote, keys are unique, tuples have
two items or more. And no result has an expression in it. -/

namespace CaseSetup

/-- Without expressions, and with the parts that a document can have, in any place. -/
inductive Value.Settled : Value → Prop
  | bool (b : Bool) : Settled (.bool b)
  | int (n : Int64) : Settled (.int n)
  | float (x : Float) : Settled (.float x)
  | str {s : String} : '"' ∉ s.toList → Settled (.str s)
  | list {vs : List Value} : (∀ v ∈ vs, Settled v) → Settled (.list vs)
  | tuple {vs : List Value} : 2 ≤ vs.length → (∀ v ∈ vs, Settled v) → Settled (.tuple vs)
  | dict {es : Dict} : (Entries.keys es).Nodup → (∀ e ∈ es, e.1.Proper) → (∀ e ∈ es, Settled e.2) →
    Settled (.dict es)
  | block {b : Block} : (Entries.keys b).Nodup → (∀ e ∈ b, IsName e.1) → (∀ e ∈ b, Settled e.2) →
    Settled (.block b)

theorem Value.IsNumber.settled {v : Value} (h : v.IsNumber) : v.Settled := by
  obtain ⟨n, rfl⟩ | ⟨x, rfl⟩ := h
  · exact .int n
  · exact .float x

theorem allInline_iff {vs : List Value} : AllInline vs ↔ ∀ v ∈ vs, v.Inline := by
  induction vs with
  | nil => simp [AllInline]
  | cons v vs ih => simp [AllInline, ih]

theorem blockRegular_iff {b : Block} : BlockRegular b ↔ ∀ e ∈ b, IsName e.1 ∧ e.2.Regular := by
  induction b with
  | nil => simp [BlockRegular]
  | cons e b ih => simp [BlockRegular, ih, and_assoc]

theorem Block.Regular.lookup {b : Block} (h : b.Regular) {name : String} {v : Value}
    (hl : b.lookup name = some v) : v.Regular :=
  (blockRegular_iff.1 h.2 _ (Entries.mem_of_lookup hl)).2

/-- A value that can stand inside a line binds no key twice. -/
theorem Value.Inline.isKeyed {v : Value} (h : v.Inline) : v.isKeyed := by
  induction v using Value.induction with
  | bool | int | float | str | var => rfl
  | list | block => exact h.elim
  | tuple vs ih => exact itemsKeyed_iff.2 fun v hv => ih v hv (allInline_iff.1 h.2 v hv)
  | dict es ih => exact isKeyed_dict.2 ⟨h.1, fun e he => ih e he (entriesInline_iff.1 h.2 e he).2⟩
  | neg v ih => exact (ih h.2 : v.isKeyed)
  | binary op l r ihl ihr => exact Bool.and_eq_true_iff.2 ⟨ihl h.1.2, ihr h.2.2⟩

theorem Value.Regular.isKeyed {v : Value} (h : v.Regular) : v.isKeyed := by
  induction v using Value.induction with
  | list vs => exact itemsKeyed_iff.2 fun v hv => (allInline_iff.1 h v hv).isKeyed
  | block b ih => exact Block.isKeyed_iff.2 ⟨h.1, fun e he => ih e he (blockRegular_iff.1 h.2 e he).2⟩
  | _ => exact Value.Inline.isKeyed h

section

variable {root here : Block} {v w : Value}

theorem Means.settled (h : Means root here v w) (hroot : root.Regular) (hhere : here.Regular) (hv : v.Regular) :
    w.Settled := by
  induction h using Means.induction with
  | bool here b => exact .bool b
  | int here n => exact .int n
  | float here x => exact .float x
  | str here s => exact .str hv
  | list here vs ws _ ih =>
    refine .list fun w hw => ?_
    obtain ⟨v, hm, _, ih⟩ := exists_of_mem_right ih hw
    exact ih hhere (allInline_iff.1 hv v hm).regular
  | tuple here vs ws _ ih =>
    obtain ⟨hlen, hin⟩ := hv
    refine .tuple (ih.length_eq ▸ hlen) fun w hw => ?_
    obtain ⟨v, hm, _, ih⟩ := exists_of_mem_right ih hw
    exact ih hhere (allInline_iff.1 hin v hm).regular
  | dict here es fs _ ih =>
    obtain ⟨hd, hin⟩ := hv
    have hfs (k : Key) (w : Value) (hf : (k, w) ∈ fs) : k.Proper ∧ w.Settled := by
      obtain ⟨v, he, _, ih⟩ := ih.exists_left hf
      obtain ⟨hk, hv⟩ := entriesInline_iff.1 hin _ he
      exact ⟨hk, ih hhere hv.regular⟩
    exact .dict (ih.keys_eq ▸ hd) (fun f hf => (hfs _ _ hf).1) fun f hf => (hfs _ _ hf).2
  | block here b c _ ih =>
    have hb : b.Regular := hv
    have hc (name : String) (w : Value) (hf : (name, w) ∈ c) : IsName name ∧ w.Settled := by
      obtain ⟨v, he, _, ih⟩ := ih.exists_left hf
      obtain ⟨hname, hv⟩ := blockRegular_iff.1 hb.2 _ he
      exact ⟨hname, ih hb hv⟩
    exact .block (ih.keys_eq ▸ hb.1) (fun f hf => (hc _ _ hf).1) fun f hf => (hc _ _ hf).2
  | neg here v a w _ hw ih => exact (Arithmetic.isNumber_of_negate hw).2.settled
  | binary here op l r a b w _ _ hw ihl ihr => exact (Arithmetic.isNumber_of_apply hw).2.2.settled
  | near here name v w hl _ ih => exact ih hhere (hhere.lookup hl)
  | far here name v w hn hl _ ih => exact ih hroot (hroot.lookup hl)

end

namespace Value.Settled

variable {v : Value}

/-- There is no minus sign to glue. -/
theorem glue_eq (h : v.Settled) : v.glue = v := by
  have hitems {vs : List Value} (h : ∀ v ∈ vs, v.glue = v) : glueItems vs = vs := by
    induction vs with
    | nil => rfl
    | cons v vs ih =>
      obtain ⟨hv, hvs⟩ := List.forall_mem_cons.1 h
      rw [glueItems, hv, ih hvs]
  have hentries {es : Dict} (h : ∀ e ∈ es, e.2.glue = e.2) : glueEntries es = es := by
    induction es with
    | nil => rfl
    | cons e es ih =>
      obtain ⟨he, hes⟩ := List.forall_mem_cons.1 h
      rw [glueEntries, he, ih hes]
  have hblock {b : Block} (h : ∀ e ∈ b, e.2.glue = e.2) : glueBlock b = b := by
    induction b with
    | nil => rfl
    | cons e b ih =>
      obtain ⟨he, hb⟩ := List.forall_mem_cons.1 h
      rw [glueBlock, he, ih hb]
  induction h with
  | bool | int | float | str => rfl
  | list _ ih | tuple _ _ ih => rw [glue, hitems ih]
  | dict _ _ _ ih => rw [glue, hentries ih]
  | block _ _ _ ih => rw [glue, hblock ih]

end Value.Settled

end CaseSetup
