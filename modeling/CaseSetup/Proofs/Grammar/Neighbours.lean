import CaseSetup.Proofs.Grammar.Relation
import Mathlib.Data.List.Chain

/-! # Neighbouring words

In a document a bracket is opened only after `=` and no comma follows a closed one, so no list stands
inside another value; and a colon follows only what can be a key. -/

namespace CaseSetup.Grammar

/-- What the right one of two neighbouring words asks of the left one. -/
def Neighbours (w w' : Word) : Prop :=
  match w'.token with
  | .openBracket => w.token = .equals
  | .comma => w.token ≠ .closeBracket
  | .colon => w.token.key?.isSome
  | _ => True

/-- Neither a bracket nor a comma nor a colon. -/
def Plain (w : Word) : Prop :=
  match w.token with
  | .openBracket | .closeBracket | .comma | .colon => False
  | _ => True

namespace Plain

variable {w : Word}

/-- A plain word may follow any other. -/
theorem neighbours (h : Plain w) (u : Word) : Neighbours u w := by
  obtain ⟨t, g⟩ := w
  cases t <;> trivial

theorem ne (h : Plain w) : w.token ≠ .closeBracket := by
  obtain ⟨t, g⟩ := w
  rintro rfl
  exact h

theorem of_key {k : Key} (h : w.token.key? = some k) : Plain w := by
  obtain ⟨t, g⟩ := w
  cases t <;> cases h <;> trivial

theorem of_joins {o : Op} {us : Words} (h : Joins w o us) : Plain w := by
  cases h with
  | symbol h =>
    obtain ⟨t, g⟩ := w
    cases t <;> cases h <;> trivial
  | glued h => cases h <;> trivial

end Plain

theorem isChain_of_enclosed {u w : Word} {ws : Words} (h : (u :: (ws ++ [w])).IsChain Neighbours) :
    (u :: ws).IsChain Neighbours := by
  rw [← List.cons_append] at h
  exact h.left_of_append

/-- Words that are neighbours as they stand and that any word may stand in front of. -/
structure Fitting (ws : Words) : Prop where
  chain : ws.IsChain Neighbours
  head : ∀ w ∈ ws.head?, Plain w

namespace Fitting

variable {w : Word} {ws rs : Words}

theorem nil : Fitting [] := ⟨.nil, by simp⟩

theorem chain_append (h : Fitting rs) (hws : ws.IsChain Neighbours) : (ws ++ rs).IsChain Neighbours :=
  List.isChain_append.2 ⟨hws, h.chain, fun u _ w hw => (h.head w hw).neighbours u⟩

theorem chain_cons (h : Fitting ws) (w : Word) : (w :: ws).IsChain Neighbours := h.chain_append (.singleton w)

theorem append (h : Fitting ws) (h' : Fitting rs) : Fitting (ws ++ rs) where
  chain := h'.chain_append h.chain
  head := by
    cases ws with
    | nil => exact h'.head
    | cons w ws => exact h.head

theorem of_chain (h : (w :: ws).IsChain Neighbours) (hw : Plain w) : Fitting (w :: ws) where
  chain := h
  head u hu := by
    obtain rfl : w = u := Option.some.inj hu
    exact hw

theorem cons (h : Fitting ws) (hw : Plain w) : Fitting (w :: ws) := of_chain (h.chain_cons w) hw

end Fitting

/-- Words that, besides, may stand before a comma. -/
structure Span (ws : Words) : Prop extends Fitting ws where
  ne_nil : ws ≠ []
  last : ∀ w ∈ ws.getLast?, w.token ≠ .closeBracket

namespace Span

variable {w w' : Word} {ws rs : Words}

theorem one (h : Plain w) : Span [w] where
  toFitting := Fitting.nil.cons h
  ne_nil := by simp
  last u hu := by
    obtain rfl : w = u := Option.some.inj hu
    exact h.ne

theorem append_fitting (h : Fitting ws) (h' : Span rs) : Span (ws ++ rs) where
  toFitting := h.append h'.toFitting
  ne_nil := List.append_ne_nil_of_right_ne_nil ws h'.ne_nil
  last := by
    rw [List.getLast?_append_of_ne_nil ws h'.ne_nil]
    exact h'.last

theorem append (h : Span ws) (h' : Span rs) : Span (ws ++ rs) := append_fitting h.toFitting h'

theorem of_plain (hne : ws ≠ []) (h : ∀ w ∈ ws, Plain w) : Span ws := by
  induction ws with
  | nil => exact absurd rfl hne
  | cons w ws ih =>
    obtain ⟨hw, hws⟩ := List.forall_mem_cons.1 h
    cases ws with
    | nil => exact one hw
    | cons u ws => exact (one hw).append (ih (by simp) hws)

/-- A comma after the words. -/
theorem comma (h : Span ws) (g : Option Sign) : Fitting (ws ++ [⟨.comma, g⟩]) where
  chain := by
    refine List.isChain_append.2 ⟨h.chain, .singleton _, fun u hu w hw => ?_⟩
    obtain rfl : ⟨.comma, g⟩ = w := Option.some.inj hw
    exact h.last u hu
  head := by
    obtain ⟨w, us, rfl⟩ := List.exists_cons_of_ne_nil h.ne_nil
    exact h.head

/-- A key and a colon. -/
theorem key {k : Key} (hk : w.token.key? = some k) (g : Option Sign) : Fitting [w, ⟨.colon, g⟩] := by
  have hcolon : w.token.key?.isSome := Option.isSome_iff_exists.2 ⟨k, hk⟩
  exact .of_chain (List.isChain_pair.2 hcolon) (.of_key hk)

theorem enclosed (h : Span ws) (hw : Plain w) (hw' : Plain w') : Span (w :: (ws ++ [w'])) :=
  (one hw).append (h.append (one hw'))

end Span

mutual
theorem Expression.plain {p : Nat} {ws : Words} {v : Value} : Expression p ws v → ∀ w ∈ ws, Plain w
  | .operand h => h.plain
  | .binary hj _ hl hr => by
    -- a glued number is split in two: only its unsigned half is among the words of the right operand
    have hrs := (List.forall_mem_append.1 hr.plain).2
    exact List.forall_mem_append.2 ⟨hl.plain, List.forall_mem_cons.2 ⟨.of_joins hj, hrs⟩⟩

theorem Operand.plain {ws : Words} {v : Value} : Operand ws v → ∀ w ∈ ws, Plain w
  | .int .. | .float .. | .name .. => (List.forall_mem_singleton).2 trivial
  | .neg h => List.forall_mem_cons.2 ⟨trivial, h.plain⟩
  | .parens h =>
    List.forall_mem_cons.2 ⟨trivial, List.forall_mem_append.2 ⟨h.plain, List.forall_mem_singleton.2 trivial⟩⟩
end

theorem Expression.span {p : Nat} {ws : Words} {v : Value} (h : Expression p ws v) : Span ws :=
  .of_plain h.ne_nil h.plain

mutual
theorem Item.span {ws : Words} {v : Value} : Item ws v → Span ws
  | .str s g => .one (w := ⟨.str s, g⟩) trivial
  | .bool b g => .one (w := ⟨.bool b, g⟩) trivial
  | .expression h => h.span
  | .tuple hi hm _ => (hm.span hi.span).enclosed trivial trivial
  | .emptyDict g g' => (Span.one (w := ⟨.openBrace, g⟩) trivial).append (.one (w := ⟨.closeBrace, g'⟩) trivial)
  | .dict hes => hes.span.enclosed trivial trivial

theorem MoreItems.span {ws rs : Words} {vs : List Value} : MoreItems rs vs → Span ws → Span (ws ++ rs)
  | .nil, h => by
    rw [List.append_nil]
    exact h
  | @MoreItems.cons g _ _ _ _ hi hm, h => by
    have hrest := hm.span (Span.append_fitting (h.comma g) hi.span)
    simpa using hrest

theorem DictEntries.span {ws : Words} {es : List (Key × Value)} : DictEntries ws es → Span ws
  | @DictEntries.last g _ _ _ _ hk hi => Span.append_fitting (Span.key hk g) hi.span
  | @DictEntries.more g g' _ _ ws rs _ _ hk hi hes => by
    have hrest : Span (ws ++ [⟨.comma, g'⟩] ++ rs) := Span.append_fitting (hi.span.comma g') hes.span
    rw [List.append_assoc] at hrest
    exact Span.append_fitting (Span.key hk g) hrest
end

theorem RightSide.isChain {ws : Words} {v : Value} (h : RightSide ws v) (g : Option Sign) :
    (⟨.equals, g⟩ :: ws : Words).IsChain Neighbours := by
  cases h with
  | item hi => exact hi.span.chain_cons _
  | bare hi hm _ => exact (hm.span hi.span).chain_cons _
  | emptyList => exact List.isChain_cons_cons.2 ⟨rfl, List.isChain_pair.2 trivial⟩
  | @list go gc ws rs v vs hi hm =>
    have hopen := (hm.span hi.span).chain_cons ⟨.openBracket, go⟩
    have hlist : (⟨.openBracket, go⟩ :: (ws ++ rs) ++ [⟨.closeBracket, gc⟩] : Words).IsChain Neighbours := by
      refine List.isChain_append.2 ⟨hopen, .singleton _, fun u _ w hw => ?_⟩
      obtain rfl : ⟨.closeBracket, gc⟩ = w := Option.some.inj hw
      trivial
    exact List.isChain_cons_cons.2 ⟨rfl, hlist⟩

/-- The words of a document are neighbours as they stand. -/
theorem Statements.fitting {ws : Words} {b : Block} (h : Statements ws b) : Fitting ws := by
  induction h with
  | nil => exact .nil
  | comment _ ih => exact ih.cons trivial
  | assign _ hr _ ih =>
    exact .of_chain (List.isChain_cons_cons.2 ⟨trivial, ih.chain_append (hr.isChain _)⟩) trivial
  | @nested _ _ _ g'' _ _ _ _ _ _ _ ihc ih =>
    have hclose : Fitting (⟨.closeBrace, g''⟩ :: _) := ih.cons trivial
    exact .of_chain (List.isChain_cons_cons.2 ⟨trivial, (ihc.append hclose).chain_cons _⟩) trivial

end CaseSetup.Grammar
