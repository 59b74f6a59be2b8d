import CaseSetup.Proofs.Evaluation.Settled
import CaseSetup.Proofs.Writing.RoundTrip

/-! # Lists inside other values

A reference can put a list inside another value, where no text can have one. It is written there all
the same, while a block inside another value is not. So a result that can be written is one that a
document can hold, unless it has a list in such a place. -/

namespace CaseSetup

namespace Value

/-- The values right inside a list, a tuple or a dictionary. -/
def members : Value → List Value
  | list items | tuple items => items
  | dict entries => entries.map (·.2)
  | _ => []

def isList : Value → Bool
  | list _ => true
  | _ => false

def isBlock : Value → Bool
  | block _ => true
  | _ => false

/-- Does a list stand inside a list, a tuple or a dictionary, at any depth? -/
inductive NestsList : Value → Prop
  | here {v w : Value} : w ∈ v.members → w.isList → NestsList v
  | member {v w : Value} : w ∈ v.members → NestsList w → NestsList v
  | entry {b : Block} {e : String × Value} : e ∈ b → NestsList e.2 → NestsList (.block b)

/-- The value is no list and none stands inside another value in it. -/
structure Listless (v : Value) : Prop where
  isList : v.isList = false
  nestsList : ¬ v.NestsList

theorem not_nestsList_iff {v : Value} (hv : v.isBlock = false) : ¬ v.NestsList ↔ ∀ w ∈ v.members, w.Listless := by
  constructor
  · exact fun h w hw => ⟨Bool.eq_false_iff.2 fun hl => h (.here hw hl), fun hn => h (.member hw hn)⟩
  · intro h hn
    cases hn with
    | here hw hl => exact absurd hl (by simp [(h _ hw).isList])
    | member hw hn => exact (h _ hw).nestsList hn
    | entry => cases hv

theorem not_nestsList_block {b : Block} : ¬ (Value.block b).NestsList ↔ ∀ e ∈ b, ¬ e.2.NestsList := by
  constructor
  · exact fun h e he hn => h (.entry he hn)
  · intro h hn
    cases hn with
    | here hw | member hw => cases hw
    | entry he hn => exact h _ he hn

end Value

/-- Does a list stand inside another value in the block, and not directly under a name? -/
def Block.NestsList (b : Block) : Prop := (Value.block b).NestsList

open Value

theorem written_of_mem {vs : List Value} {ts : List String} (h : writtenItems vs = .ok ts) {v : Value}
    (hv : v ∈ vs) : ∃ t, v.written = .ok t := by
  induction vs generalizing ts with
  | nil => cases hv
  | cons u vs ih =>
    obtain ⟨t, us, ht, hus, -⟩ := writtenItems_cons h
    rcases List.mem_cons.1 hv with rfl | hv
    · exact ⟨t, ht⟩
    · exact ih hus hv

theorem written_of_mem_entries {es : Dict} {ts : List String} (h : writtenEntries es = .ok ts) {e : Key × Value}
    (he : e ∈ es) : ∃ t, e.2.written = .ok t := by
  induction es generalizing ts with
  | nil => cases he
  | cons f es ih =>
    obtain ⟨a, t, us, -, ht, hus, -⟩ := writtenEntries_cons h
    rcases List.mem_cons.1 he with rfl | he
    · exact ⟨t, ht⟩
    · exact ih hus he

theorem written_of_mem_block {b : Block} {depth : Nat} {t : String} (h : writtenBlock depth b = .ok t)
    {e : String × Value} (he : e ∈ b) : ∃ t, writtenBinding depth e.1 e.2 = .ok t := by
  induction b generalizing t with
  | nil => cases he
  | cons f b ih =>
    simp only [writtenBlock, Outcome.bind_eq_ok] at h
    obtain ⟨t, ht, ts, hts, -⟩ := h
    rcases List.mem_cons.1 he with rfl | he
    · exact ⟨t, ht⟩
    · exact ih hts he

namespace Value.Settled

variable {v : Value} {t : String}

/-- A result that is written inside a line may stand there, lists apart. -/
theorem inline (h : v.Settled) (ht : v.written = .ok t) (hl : v.Listless) : v.Inline := by
  induction h generalizing t with
  | bool | int | float => trivial
  | str hs => exact hs
  | list => cases hl.isList
  | @tuple vs hlen _ ih =>
    simp only [written, Outcome.bind_eq_ok] at ht
    obtain ⟨ts, hts, -⟩ := ht
    have hmembers := (not_nestsList_iff rfl).1 hl.nestsList
    refine ⟨hlen, allInline_iff.2 fun v hv => ?_⟩
    obtain ⟨t, ht⟩ := written_of_mem hts hv
    exact ih v hv ht (hmembers v hv)
  | @dict es hd hk _ ih =>
    simp only [written, Outcome.bind_eq_ok] at ht
    obtain ⟨ts, hts, -⟩ := ht
    have hmembers := (not_nestsList_iff rfl).1 hl.nestsList
    refine ⟨hd, entriesInline_iff.2 fun e he => ⟨hk e he, ?_⟩⟩
    obtain ⟨t, ht⟩ := written_of_mem_entries hts he
    exact ih e he ht (hmembers _ (List.mem_map_of_mem he))
  | block => cases ht

/-- What is written after `name =`. -/
theorem regular_right (h : v.Settled) (ht : v.writtenRight = .ok t) (hn : ¬ v.NestsList) : v.Regular := by
  cases v with
  | list vs =>
    obtain ⟨ts, hts⟩ : ∃ ts, writtenItems vs = .ok ts := by
      rw [writtenRight] at ht
      split at ht
      · obtain ⟨ts, hts, -⟩ := Outcome.map_eq_ok.1 ht
        exact ⟨ts, hts⟩
      · simp only [written, Outcome.bind_eq_ok] at ht
        obtain ⟨ts, hts, -⟩ := ht
        exact ⟨ts, hts⟩
    refine allInline_iff.2 fun v hv => ?_
    obtain ⟨t, ht⟩ := written_of_mem hts hv
    cases h with
    | list hvs => exact (hvs v hv).inline ht ((not_nestsList_iff rfl).1 hn v hv)
  | _ => exact (h.inline ht ⟨rfl, hn⟩).regular

/-- A result that is written under a name may stand there, unless it has a list inside another value. -/
theorem regular (h : v.Settled) {depth : Nat} {name : String} (ht : writtenBinding depth name v = .ok t)
    (hn : ¬ v.NestsList) : v.Regular := by
  have hother {v : Value} {depth : Nat} {name t : String} (hv : ∀ c, v ≠ .block c) (h : v.Settled)
      (ht : writtenBinding depth name v = .ok t) (hn : ¬ v.NestsList) : v.Regular := by
    rw [writtenBinding_of_not_block hv] at ht
    simp only [Outcome.bind_eq_ok] at ht
    obtain ⟨t, ht, -⟩ := ht
    exact h.regular_right ht hn
  induction v using Value.induction generalizing depth name t with
  | block b ih =>
    simp only [writtenBinding, Outcome.bind_eq_ok] at ht
    obtain ⟨t, ht, -⟩ := ht
    cases h with
    | block hd hname hb =>
      refine ⟨hd, blockRegular_iff.2 fun e he => ⟨hname e he, ?_⟩⟩
      obtain ⟨t, ht⟩ := written_of_mem_block ht he
      exact ih e he (hb e he) ht (not_nestsList_block.1 hn e he)
  | _ => exact hother (by simp) h ht hn

end Value.Settled

end CaseSetup
