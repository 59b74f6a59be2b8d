import CaseSetup.Proofs.Grammar.Completeness
import CaseSetup.Proofs.Token.Reading

/-! # Glued numbers after an operand

After an operand, a number with a glued sign and the operator of that sign with the number after it are
two spellings of one phrase. `Respelled` relates words that differ in such spellings, wherever they
stand. Every phrase is kept by it, so both spellings are read alike. -/

namespace CaseSetup

/-- Does an operand end with the word? -/
def Word.endsOperand (w : Word) : Bool :=
  match w.token with
  | .int _ | .float _ | .name _ | .closeParen => true
  | _ => false

namespace Grammar

/-- The same words, but for numbers after an operand that one side has glued and the other apart. The flag
says whether an operand has just ended. -/
inductive Respelled : Bool → Words → Words → Prop
  | nil {f : Bool} : Respelled f [] []
  | keep {f : Bool} {w : Word} {ws zs : Words} : Respelled w.endsOperand ws zs → Respelled f (w :: ws) (w :: zs)
  | parted {w u : Word} {o : Op} {ws zs : Words} : Splits w o u → Respelled true ws zs →
    Respelled true (w :: ws) (⟨o.token, none⟩ :: u :: zs)
  | joined {w u : Word} {o : Op} {ws zs : Words} : Splits w o u → Respelled true ws zs →
    Respelled true (⟨o.token, none⟩ :: u :: ws) (w :: zs)

/-- Neither a number nor an operator. -/
def Inert (w : Word) : Prop :=
  match w.token with
  | .int _ | .float _ | .plus | .minus | .star | .slash | .caret => False
  | _ => True

/-- No number without sign begins the words. -/
def Apart (ws : Words) : Prop := ∀ u ∈ ws.head?, ∀ w o, ¬ Splits w o u

namespace Splits

variable {w u u' : Word} {o o' : Op}

theorem unique (h : Splits w o u) (h' : Splits w o' u') : o = o' ∧ u = u' := by
  cases h <;> cases h' <;> exact ⟨rfl, rfl⟩

theorem endsOperand (h : Splits w o u) : w.endsOperand = true ∧ u.endsOperand = true := by
  cases h <;> exact ⟨rfl, rfl⟩

theorem op?_eq_none (h : Splits w o u) : w.token.op? = none := by
  cases h <;> rfl

/-- A number with a sign is no number without one. -/
theorem not_splits (h : Splits w o u) (w' : Word) (o' : Op) : ¬ Splits w' o' w := by
  cases h <;> exact nofun

theorem not_inert (h : Splits w o u) : ¬ Inert w ∧ ¬ Inert u := by
  cases h <;> exact ⟨id, id⟩

end Splits

theorem not_inert_token (o : Op) (g : Option Sign) : ¬ Inert ⟨o.token, g⟩ := by
  cases o <;> exact id

namespace Apart

variable {w : Word} {ws rs : Words}

theorem nil : Apart [] := by
  simp [Apart]

theorem of_not_splits (h : ∀ w' o, ¬ Splits w' o w) (ws : Words) : Apart (w :: ws) := by
  intro u hu
  obtain rfl : w = u := Option.some.inj hu
  exact h

theorem of_inert (h : Inert w) (ws : Words) : Apart (w :: ws) :=
  of_not_splits (fun _ _ hs => hs.not_inert.2 h) ws

end Apart

namespace Respelled

variable {f : Bool} {w : Word} {ws rs zs : Words}

theorem refl (f : Bool) (ws : Words) : Respelled f ws ws := by
  induction ws generalizing f with
  | nil => exact .nil
  | cons w ws ih => exact .keep (ih _)

theorem symm (h : Respelled f ws zs) : Respelled f zs ws := by
  induction h with
  | nil => exact .nil
  | keep _ ih => exact .keep ih
  | parted hs _ ih => exact .joined hs ih
  | joined hs _ ih => exact .parted hs ih

theorem nil_eq (h : Respelled f [] zs) : zs = [] := by
  cases h
  rfl

/-- Where no operand has ended, the next word stays. -/
theorem cons_start (h : Respelled false (w :: ws) zs) :
    ∃ zs', zs = w :: zs' ∧ Respelled w.endsOperand ws zs' := by
  cases h with
  | keep h => exact ⟨_, rfl, h⟩

theorem cons_inert (h : Respelled f (w :: ws) zs) (hw : Inert w) :
    ∃ zs', zs = w :: zs' ∧ Respelled w.endsOperand ws zs' := by
  cases h with
  | keep h => exact ⟨_, rfl, h⟩
  | parted hs => exact absurd hw hs.not_inert.1
  | joined => exact absurd hw (not_inert_token _ _)

/-- A word by itself, where no operand has ended. -/
theorem one_eq (h : Respelled false [w] zs) : [w] = zs := by
  obtain ⟨zs', rfl, hnil⟩ := h.cons_start
  rw [hnil.nil_eq]

theorem inert_eq (h : Respelled f [w] zs) (hw : Inert w) : zs = [w] := by
  obtain ⟨zs', rfl, hnil⟩ := h.cons_inert hw
  rw [hnil.nil_eq]

/-- Respelled words come apart where the words do, unless an operator is split from its number there. -/
theorem exists_append (h : Respelled f (ws ++ rs) zs) (hrs : Apart rs) :
    ∃ ws' rs' g, zs = ws' ++ rs' ∧ Respelled f ws ws' ∧ Respelled g rs rs' := by
  generalize hall : ws ++ rs = all at h
  induction h generalizing ws with
  | nil =>
    obtain ⟨rfl, rfl⟩ := List.append_eq_nil_iff.1 hall
    exact ⟨[], [], false, rfl, .nil, .nil⟩
  | @keep f w vs zs h ih =>
    rcases List.append_eq_cons_iff.1 hall with ⟨rfl, rfl⟩ | ⟨ws, rfl, hvs⟩
    · exact ⟨[], w :: zs, f, rfl, .nil, .keep h⟩
    · obtain ⟨ws', rs', g, rfl, hws, hrs⟩ := ih hvs.symm
      exact ⟨w :: ws', rs', g, rfl, .keep hws, hrs⟩
  | @parted w u o vs zs hs h ih =>
    rcases List.append_eq_cons_iff.1 hall with ⟨rfl, rfl⟩ | ⟨ws, rfl, hvs⟩
    · exact ⟨[], _, true, rfl, .nil, .parted hs h⟩
    · obtain ⟨ws', rs', g, rfl, hws, hrs⟩ := ih hvs.symm
      exact ⟨_ :: u :: ws', rs', g, rfl, .parted hs hws, hrs⟩
  | @joined w u o vs zs hs h ih =>
    rcases List.append_eq_cons_iff.1 hall with ⟨rfl, rfl⟩ | ⟨ws, rfl, hvs⟩
    · exact ⟨[], _, true, rfl, .nil, .joined hs h⟩
    · -- the number stays with its operator: words that begin with it are not apart
      rcases List.append_eq_cons_iff.1 hvs.symm with ⟨rfl, rfl⟩ | ⟨ws, rfl, hrest⟩
      · exact absurd hs (hrs u rfl w o)
      · obtain ⟨ws', rs', g, rfl, hws, hrs⟩ := ih hrest.symm
        exact ⟨w :: ws', rs', g, rfl, .joined hs hws, hrs⟩

end Respelled

namespace Joins

variable {f : Bool} {w : Word} {o : Op} {us rs zs : Words}

/-- An operator is no number, and a glued number has a sign. -/
theorem apart (hj : Joins w o us) (rs : Words) : Apart (w :: rs) := by
  refine .of_not_splits (fun w' o' hs => ?_) rs
  cases hj with
  | symbol ho => cases hs <;> cases ho
  | glued hs' => exact hs'.not_splits w' o' hs

theorem endsOperand_of_op? (ho : w.token.op? = some o) : w.endsOperand = false := by
  obtain ⟨t, g⟩ := w
  cases t <;> first | rfl | cases ho

/-- The word that acts as an operator may be respelled, and it acts as the same one. -/
theorem respelled (hj : Joins w o us) (h : Respelled f (w :: rs) zs) :
    ∃ w' us' rs', zs = w' :: rs' ∧ Joins w' o us' ∧ Respelled false (us ++ rs) (us' ++ rs') := by
  cases hj with
  | symbol ho =>
    cases h with
    | keep h =>
      rw [endsOperand_of_op? ho] at h
      exact ⟨w, [], _, rfl, .symbol ho, h⟩
    | parted hs =>
      rw [hs.op?_eq_none] at ho
      cases ho
    | @joined w' u _ _ _ hs h =>
      obtain rfl := Option.some.inj ((Op.op?_token _).symm.trans ho)
      exact ⟨w', [u], _, rfl, .glued hs, .keep (hs.endsOperand.2 ▸ h)⟩
  | glued hs =>
    cases h with
    | keep h =>
      rw [hs.endsOperand.1, ← hs.endsOperand.2] at h
      exact ⟨w, [_], _, rfl, .glued hs, .keep h⟩
    | parted hs' h =>
      obtain ⟨rfl, rfl⟩ := hs'.unique hs
      exact ⟨_, [], _, rfl, .symbol (Op.op?_token _), .keep (hs.endsOperand.2 ▸ h)⟩
    | joined => cases (Op.op?_token _).symm.trans hs.op?_eq_none

end Joins

/-! ## Phrases -/

theorem MoreItems.apart {ws : Words} {vs : List Value} (h : MoreItems ws vs) : Apart ws := by
  cases h with
  | nil => exact .nil
  | cons => exact .of_inert (by trivial) _

theorem Statements.apart {ws : Words} {b : Block} (h : Statements ws b) : Apart ws := by
  cases h with
  | nil => exact .nil
  | _ => exact .of_inert (by trivial) _

mutual
theorem Expression.respelled {p : Nat} {ws zs : Words} {v : Value} :
    Expression p ws v → Respelled false ws zs → Expression p zs v
  | .operand h, hz => .operand (h.respelled hz)
  | .binary hj hp hl hr, hz => by
    obtain ⟨ls', zs', g, rfl, hls, hrest⟩ := hz.exists_append (hj.apart _)
    obtain ⟨w', us', rs', rfl, hj', hrs⟩ := hj.respelled hrest
    exact .binary hj' hp (hl.respelled hls) (hr.respelled hrs)

theorem Operand.respelled {ws zs : Words} {v : Value} : Operand ws v → Respelled false ws zs → Operand zs v
  | .int n g, hz => hz.one_eq ▸ .int n g
  | .float x g, hz => hz.one_eq ▸ .float x g
  | .name s g, hz => hz.one_eq ▸ .name s g
  | .neg h, hz => by
    obtain ⟨zs', rfl, hws⟩ := hz.cons_start
    exact .neg (h.respelled hws)
  | .parens h, hz => by
    obtain ⟨zs', rfl, hrest⟩ := hz.cons_start
    obtain ⟨ws', rs', g, rfl, hws, hrs⟩ := hrest.exists_append (.of_inert (by trivial) _)
    rw [hrs.inert_eq (by trivial)]
    exact .parens (h.respelled hws)
end

mutual
theorem Item.respelled {ws zs : Words} {v : Value} : Item ws v → Respelled false ws zs → Item zs v
  | .str s g, hz => hz.one_eq ▸ .str s g
  | .bool b g, hz => hz.one_eq ▸ .bool b g
  | .expression h, hz => .expression (h.respelled hz)
  | .tuple h hm hne, hz => by
    obtain ⟨zs', rfl, hrest⟩ := hz.cons_start
    obtain ⟨us', cs', g, rfl, hus, hcs⟩ := hrest.exists_append (.of_inert (by trivial) _)
    obtain ⟨ws', rs', g', rfl, hws, hrs⟩ := hus.exists_append hm.apart
    rw [hcs.inert_eq (by trivial)]
    exact .tuple (h.respelled hws) (hm.respelled hrs) hne
  | .emptyDict g g', hz => by
    obtain ⟨zs', rfl, hrest⟩ := hz.cons_start
    rw [hrest.inert_eq (by trivial)]
    exact .emptyDict g g'
  | .dict h, hz => by
    obtain ⟨zs', rfl, hrest⟩ := hz.cons_start
    obtain ⟨ws', cs', g, rfl, hws, hcs⟩ := hrest.exists_append (.of_inert (by trivial) _)
    rw [hcs.inert_eq (by trivial)]
    exact .dict (h.respelled hws)

theorem MoreItems.respelled {f : Bool} {ws zs : Words} {vs : List Value} :
    MoreItems ws vs → Respelled f ws zs → MoreItems zs vs
  | .nil, hz => hz.nil_eq ▸ .nil
  | .cons h hm, hz => by
    obtain ⟨zs', rfl, hrest⟩ := hz.cons_inert (by trivial)
    obtain ⟨ws', rs', g, rfl, hws, hrs⟩ := hrest.exists_append hm.apart
    exact .cons (h.respelled hws) (hm.respelled hrs)

theorem DictEntries.respelled {ws zs : Words} {es : List (Key × Value)} :
    DictEntries ws es → Respelled false ws zs → DictEntries zs es
  | .last hk h, hz => by
    obtain ⟨zs', rfl, hcolon⟩ := hz.cons_start
    obtain ⟨ws', rfl, hws⟩ := hcolon.cons_inert (by trivial)
    exact .last hk (h.respelled hws)
  | .more hk h hes, hz => by
    obtain ⟨zs', rfl, hcolon⟩ := hz.cons_start
    obtain ⟨us', rfl, hrest⟩ := hcolon.cons_inert (by trivial)
    obtain ⟨ws', cs', g, rfl, hws, hcs⟩ := hrest.exists_append (.of_inert (by trivial) _)
    obtain ⟨rs', rfl, hrs⟩ := hcs.cons_inert (by trivial)
    exact .more hk (h.respelled hws) (hes.respelled hrs)
end

theorem RightSide.respelled {ws zs : Words} {v : Value} (h : RightSide ws v) (hz : Respelled false ws zs) :
    RightSide zs v := by
  cases h with
  | item h => exact .item (h.respelled hz)
  | bare h hm hne =>
    obtain ⟨ws', rs', g, rfl, hws, hrs⟩ := hz.exists_append hm.apart
    exact .bare (h.respelled hws) (hm.respelled hrs) hne
  | emptyList g g' =>
    obtain ⟨zs', rfl, hrest⟩ := hz.cons_start
    rw [hrest.inert_eq (by trivial)]
    exact .emptyList g g'
  | list h hm =>
    obtain ⟨zs', rfl, hrest⟩ := hz.cons_start
    obtain ⟨us', cs', g, rfl, hus, hcs⟩ := hrest.exists_append (.of_inert (by trivial) _)
    obtain ⟨ws', rs', g', rfl, hws, hrs⟩ := hus.exists_append hm.apart
    rw [hcs.inert_eq (by trivial)]
    exact .list (h.respelled hws) (hm.respelled hrs)

theorem Statements.respelled {f : Bool} {ws zs : Words} {b : Block} (h : Statements ws b)
    (hz : Respelled f ws zs) : Statements zs b := by
  induction h generalizing f zs with
  | nil => exact hz.nil_eq ▸ .nil
  | comment _ ih =>
    obtain ⟨zs', rfl, hrest⟩ := hz.cons_inert (by trivial)
    exact .comment (ih hrest)
  | assign hs hr hst ih =>
    obtain ⟨us', rfl, hequals⟩ := hz.cons_inert (by trivial)
    obtain ⟨vs', rfl, hrest⟩ := hequals.cons_inert (by trivial)
    obtain ⟨ws', rs', g, rfl, hws, hrs⟩ := hrest.exists_append hst.apart
    exact .assign hs (hr.respelled hws) (ih hrs)
  | nested hs hc hst ihc ih =>
    obtain ⟨us', rfl, hopen⟩ := hz.cons_inert (by trivial)
    obtain ⟨vs', rfl, hrest⟩ := hopen.cons_inert (by trivial)
    obtain ⟨ws', cs', g, rfl, hws, hcs⟩ := hrest.exists_append (.of_inert (by trivial) _)
    obtain ⟨rs', rfl, hrs⟩ := hcs.cons_inert (by trivial)
    exact .nested hs (ihc hws) (ih hrs)

theorem Respelled.of_splits {f : Bool} {p w u : Word} {o : Op} (hp : p.endsOperand = true) (hw : Splits w o u)
    (xs ys : Words) : Respelled f (xs ++ p :: w :: ys) (xs ++ p :: ⟨o.token, none⟩ :: u :: ys) := by
  induction xs generalizing f with
  | nil => exact .keep (hp ▸ .parted hw (.refl true ys))
  | cons x xs ih => exact .keep ih

end Grammar

namespace Scan

open Grammar

variable {s s' : Scan} {p w u : Word} {o : Op} {xs ys : Words}

/-- After a number, a name or a closing parenthesis, a number with a glued sign is read like the operator of
its sign and the number without it, whatever stands around them. -/
theorem document_parted (hp : p.endsOperand = true) (hw : Splits w o u) (hs : s.words = xs ++ p :: w :: ys)
    (hs' : s'.words = xs ++ p :: ⟨o.token, none⟩ :: u :: ys)
    (hend : (∃ q, s.ending = .clean q) ↔ ∃ q, s'.ending = .clean q) (b : Block) :
    s.document = .ok b ↔ s'.document = .ok b := by
  have hparted : Respelled false s.words s'.words := by
    rw [hs, hs']
    exact .of_splits hp hw xs ys
  rw [document_eq_ok_iff, document_eq_ok_iff, hend]
  exact and_congr_right fun _ => ⟨fun h => h.respelled hparted, fun h => h.respelled hparted.symm⟩

/-- After a closed parenthesis and in front of a product. -/
theorem document_parted_product :
    let s := Scan.ofText "x = (a) -2 * 3"
    let s' := Scan.ofText "x = (a) - 2 * 3"
    let xs : Words := [⟨.name "x", none⟩, ⟨.equals, none⟩, ⟨.openParen, none⟩, ⟨.name "a", none⟩]
    let ys : Words := [⟨.star, none⟩, ⟨.int 3, none⟩]
    let v : Value := .binary .sub (.var "a") (.binary .mul (.int 2) (.int 3))
    s.words = xs ++ ⟨.closeParen, none⟩ :: ⟨.int (-2), some .minus⟩ :: ys ∧
      s'.words = xs ++ ⟨.closeParen, none⟩ :: ⟨.minus, none⟩ :: ⟨.int 2, none⟩ :: ys ∧
      s.document = .ok [("x", v)] ∧ s'.document = .ok [("x", v)] := by
  intro s s' xs ys v
  have hs : s.words = xs ++ ⟨.closeParen, none⟩ :: ⟨.int (-2), some .minus⟩ :: ys := by decide +kernel
  have hs' : s'.words = xs ++ ⟨.closeParen, none⟩ :: ⟨.minus, none⟩ :: ⟨.int 2, none⟩ :: ys := by decide +kernel
  have hclean : s.ending = .clean ⟨1, 14⟩ := by decide +kernel
  have hclean' : s'.ending = .clean ⟨1, 15⟩ := by decide +kernel
  have hw : Splits ⟨.int (-2), some .minus⟩ .sub ⟨.int 2, none⟩ := .minusInt (n := -2) (by decide)
  have hleft : Expression 1 (⟨.openParen, none⟩ :: ([⟨.name "a", none⟩] ++ [⟨.closeParen, none⟩])) (.var "a") :=
    .operand (.parens (.operand (.name "a" none)))
  have hstar : Joins ⟨.star, none⟩ .mul [] := .symbol rfl
  have hright : Expression 2 ([⟨.int 2, none⟩] ++ ys) (.binary .mul (.int 2) (.int 3)) :=
    .binary hstar (by decide) (.operand (.int 2 none)) (.operand (.int 3 none))
  have hvalue : Item _ v := .expression (.binary (.glued hw) (by decide) hleft hright)
  have hassign : Document (⟨.name "x", none⟩ :: ⟨.equals, none⟩ :: (_ ++ [])) [("x", v)] :=
    .assign List.not_mem_nil (.item hvalue) .nil
  have hread : s.document = .ok [("x", v)] := by
    refine document_complete hclean ?_
    rw [hs]
    exact hassign
  refine ⟨hs, hs', hread, (document_parted rfl hw hs hs' ?_ _).1 hread⟩
  exact iff_of_true ⟨_, hclean⟩ ⟨_, hclean'⟩

end Scan

end CaseSetup
