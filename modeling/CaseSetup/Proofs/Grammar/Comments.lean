import CaseSetup.Proofs.Grammar.Completeness

/-! # Leaving comments out

A comment is a word of a document, but of no phrase inside a statement. So the words of a document
without some of its comments come apart at the same places, and stand for the same block. -/

namespace CaseSetup

/-- The second words are the first with some of the comments left out. -/
inductive Uncommented : Words → Words → Prop
  | nil : Uncommented [] []
  | keep {w : Word} {ws zs : Words} : Uncommented ws zs → Uncommented (w :: ws) (w :: zs)
  | drop {s : String} {g : Option Sign} {ws zs : Words} : Uncommented ws zs → Uncommented (⟨.comment s, g⟩ :: ws) zs

/-- Is the word any other than a comment? -/
def Word.Spoken (w : Word) : Prop :=
  match w.token with
  | .comment _ => False
  | _ => True

namespace Word.Spoken

open Grammar

variable {w : Word}

theorem of_key {k : Key} (h : w.token.key? = some k) : w.Spoken := by
  obtain ⟨t, g⟩ := w
  cases t <;> cases h <;> trivial

theorem of_joins {o : Op} {us : Words} (h : Joins w o us) : w.Spoken := by
  cases h with
  | symbol h =>
    obtain ⟨t, g⟩ := w
    cases t <;> cases h <;> trivial
  | glued h => cases h <;> trivial

end Word.Spoken

namespace Uncommented

variable {w : Word} {ws rs zs : Words}

/-- A word that is no comment stays. -/
theorem cons_spoken (h : Uncommented (w :: ws) zs) (hw : w.Spoken) : ∃ zs', zs = w :: zs' ∧ Uncommented ws zs' := by
  cases h with
  | keep h => exact ⟨_, rfl, h⟩
  | drop => exact hw.elim

/-- Words without a comment among them stay. -/
theorem append_spoken (h : Uncommented (ws ++ rs) zs) (hws : ∀ w ∈ ws, w.Spoken) :
    ∃ zs', zs = ws ++ zs' ∧ Uncommented rs zs' := by
  induction ws generalizing zs with
  | nil => exact ⟨zs, rfl, h⟩
  | cons w ws ih =>
    obtain ⟨hw, hws⟩ := List.forall_mem_cons.1 hws
    obtain ⟨zs', rfl, hrest⟩ := h.cons_spoken hw
    obtain ⟨zs', rfl, hrs⟩ := ih hrest hws
    exact ⟨zs', rfl, hrs⟩

/-- Words come apart where they did before. -/
theorem exists_append (h : Uncommented (ws ++ rs) zs) :
    ∃ ws' rs', zs = ws' ++ rs' ∧ Uncommented ws ws' ∧ Uncommented rs rs' := by
  induction ws generalizing zs with
  | nil => exact ⟨[], zs, rfl, .nil, h⟩
  | cons w ws ih =>
    cases h with
    | keep h =>
      obtain ⟨ws', rs', rfl, hws, hrs⟩ := ih h
      exact ⟨w :: ws', rs', rfl, .keep hws, hrs⟩
    | drop h =>
      obtain ⟨ws', rs', rfl, hws, hrs⟩ := ih h
      exact ⟨ws', rs', rfl, .drop hws, hrs⟩

end Uncommented

namespace Grammar

mutual
theorem Expression.spoken {p : Nat} {ws : Words} {v : Value} : Expression p ws v → ∀ w ∈ ws, w.Spoken
  | .operand h => h.spoken
  | .binary hj _ hl hr => by
    -- of a glued number only the unsigned half is among the words of the right operand
    have hrs := (List.forall_mem_append.1 hr.spoken).2
    exact List.forall_mem_append.2 ⟨hl.spoken, List.forall_mem_cons.2 ⟨.of_joins hj, hrs⟩⟩

theorem Operand.spoken {ws : Words} {v : Value} : Operand ws v → ∀ w ∈ ws, w.Spoken
  | .int .. | .float .. | .name .. => List.forall_mem_singleton.2 trivial
  | .neg h => List.forall_mem_cons.2 ⟨trivial, h.spoken⟩
  | .parens h =>
    List.forall_mem_cons.2 ⟨trivial, List.forall_mem_append.2 ⟨h.spoken, List.forall_mem_singleton.2 trivial⟩⟩
end

theorem spoken_enclosed {u w : Word} {ws : Words} (hu : u.Spoken) (hws : ∀ x ∈ ws, x.Spoken) (hw : w.Spoken) :
    ∀ x ∈ u :: (ws ++ [w]), x.Spoken :=
  List.forall_mem_cons.2 ⟨hu, List.forall_mem_append.2 ⟨hws, List.forall_mem_singleton.2 hw⟩⟩

mutual
theorem Item.spoken {ws : Words} {v : Value} : Item ws v → ∀ w ∈ ws, w.Spoken
  | .str .. | .bool .. => List.forall_mem_singleton.2 trivial
  | .expression h => h.spoken
  | .tuple h hm _ => spoken_enclosed (by trivial) (List.forall_mem_append.2 ⟨h.spoken, hm.spoken⟩) (by trivial)
  | .emptyDict .. => spoken_enclosed (by trivial) (List.forall_mem_nil _) (by trivial)
  | .dict h => spoken_enclosed (by trivial) h.spoken (by trivial)

theorem MoreItems.spoken {ws : Words} {vs : List Value} : MoreItems ws vs → ∀ w ∈ ws, w.Spoken
  | .nil => List.forall_mem_nil _
  | .cons h hm => List.forall_mem_cons.2 ⟨trivial, List.forall_mem_append.2 ⟨h.spoken, hm.spoken⟩⟩

theorem DictEntries.spoken {ws : Words} {es : List (Key × Value)} : DictEntries ws es → ∀ w ∈ ws, w.Spoken
  | .last hk h => List.forall_mem_cons.2 ⟨.of_key hk, List.forall_mem_cons.2 ⟨trivial, h.spoken⟩⟩
  | .more hk h hes =>
    List.forall_mem_cons.2 ⟨.of_key hk, List.forall_mem_cons.2 ⟨trivial,
      List.forall_mem_append.2 ⟨h.spoken, List.forall_mem_cons.2 ⟨by trivial, hes.spoken⟩⟩⟩⟩
end

/-- No comment stands in a right-hand side. -/
theorem RightSide.spoken {ws : Words} {v : Value} (h : RightSide ws v) : ∀ w ∈ ws, w.Spoken := by
  cases h with
  | item h => exact h.spoken
  | bare h hm _ => exact List.forall_mem_append.2 ⟨h.spoken, hm.spoken⟩
  | emptyList => exact spoken_enclosed (by trivial) (List.forall_mem_nil _) (by trivial)
  | list h hm => exact spoken_enclosed (by trivial) (List.forall_mem_append.2 ⟨h.spoken, hm.spoken⟩) (by trivial)

/-- Statements stay what they are without some of the comments between them, also in nested blocks. -/
theorem Statements.uncommented {ws zs : Words} {b : Block} (h : Statements ws b) (hz : Uncommented ws zs) :
    Statements zs b := by
  induction h generalizing zs with
  | nil =>
    cases hz
    exact .nil
  | comment _ ih =>
    cases hz with
    | keep hz => exact .comment (ih hz)
    | drop hz => exact ih hz
  | assign hs hr _ ih =>
    obtain ⟨us, rfl, hequals⟩ := hz.cons_spoken trivial
    obtain ⟨vs, rfl, hrest⟩ := hequals.cons_spoken trivial
    obtain ⟨rs, rfl, hrs⟩ := hrest.append_spoken hr.spoken
    exact .assign hs hr (ih hrs)
  | nested hs _ _ ihc ih =>
    obtain ⟨us, rfl, hopen⟩ := hz.cons_spoken trivial
    obtain ⟨vs, rfl, hrest⟩ := hopen.cons_spoken trivial
    obtain ⟨ws, cs, rfl, hws, hcs⟩ := hrest.exists_append
    obtain ⟨rs, rfl, hrs⟩ := hcs.cons_spoken trivial
    exact .nested hs (ihc hws) (ih hrs)

end Grammar

namespace Block

open Grammar

variable {text text' : String} {b : Block} {p : Position}

/-- A text that is split into the words of a document, but for some of its comments, is a document, and
stands for the same block. -/
theorem parse_uncommented (h : parse text = .ok b)
    (hw : Uncommented (Scan.ofText text).words (Scan.ofText text').words)
    (hend : (Scan.ofText text').ending = .clean p) : parse text' = .ok b :=
  parse_of_document hend ((document_of_parse h).2.uncommented hw)

/-- A comment after a reference, one in a nested block and one at the end, which is kept. -/
theorem parse_uncommented_nested :
    let text := "a = b // -1\nc \x7b // \x7d\n\x7d // end"
    let text' := "a = b c \x7b \x7d // end"
    let b : Block := [("a", .var "b"), ("c", .block [])]
    parse text = .ok b ∧ Uncommented (Scan.ofText text).words (Scan.ofText text').words ∧ parse text' = .ok b := by
  intro text text' b
  have hwords : (Scan.ofText text).words =
      [⟨.name "a", none⟩, ⟨.equals, none⟩, ⟨.name "b", none⟩, ⟨.comment "// -1", none⟩, ⟨.name "c", none⟩,
        ⟨.openBrace, none⟩, ⟨.comment "// \x7d", none⟩, ⟨.closeBrace, none⟩, ⟨.comment "// end", none⟩] := by
    decide +kernel
  have hwords' : (Scan.ofText text').words =
      [⟨.name "a", none⟩, ⟨.equals, none⟩, ⟨.name "b", none⟩, ⟨.name "c", none⟩, ⟨.openBrace, none⟩,
        ⟨.closeBrace, none⟩, ⟨.comment "// end", none⟩] := by
    decide +kernel
  have hend' : (Scan.ofText text').ending = .clean ⟨1, 18⟩ := by decide +kernel
  have hend : (Scan.ofText text).ending = .clean ⟨3, 8⟩ := by decide +kernel
  have h : parse text = .ok b := by
    refine parse_of_document hend ?_
    have hc : Statements [⟨.name "c", none⟩, ⟨.openBrace, none⟩, ⟨.comment "// \x7d", none⟩, ⟨.closeBrace, none⟩,
        ⟨.comment "// end", none⟩] [("c", .block [])] :=
      .nested List.not_mem_nil (.comment .nil) (.comment .nil)
    rw [hwords]
    exact .assign (by simp) (.item (.expression (.operand (.name "b" none)))) (.comment hc)
  have hw : Uncommented (Scan.ofText text).words (Scan.ofText text').words := by
    rw [hwords, hwords']
    exact .keep (.keep (.keep (.drop (.keep (.keep (.drop (.keep (.keep .nil))))))))
  exact ⟨h, hw, parse_uncommented h hw hend'⟩

end Block

end CaseSetup
