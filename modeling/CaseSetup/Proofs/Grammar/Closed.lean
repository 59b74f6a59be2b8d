import CaseSetup.Proofs.Grammar.Soundness

/-! # What holds of all readers

The readers of the grammar are put together from a few combinators. A property that each combinator
hands on holds of all of them, by one induction on the depth. It may count calls: a reader calls no
more than four others before it takes a token, and each token taken pays for five calls. -/

namespace CaseSetup

theorem kind_of_add {b : Block} {x : String} {v : Value} {f : Fault} (h : b.add x v = .error f) :
    f.cause.kind = .duplicateName := by
  unfold Block.add at h
  split at h
  · cases h
    rfl
  · cases h

namespace Reader

/-- `P c R e n ts` says something of the run of `R` from `ts` on with the depth `n`, if `R` makes no more
than `c` calls before it takes a token. Each combinator hands it on. -/
structure Closed (P : {α : Type} → Nat → Reader α → Ending → Nat → Tokens → Prop) : Prop where
  weaken {α : Type} {R : Reader α} {c d : Nat} {e : Ending} {n : Nat} {ts : Tokens} :
    P c R e n ts → c ≤ d → P d R e n ts
  result {α : Type} (a : α) {c : Nat} {e : Ending} {n : Nat} {ts : Tokens} : P c (result a) e n ts
  blame {α : Type} (x : Expected) {c : Nat} {e : Ending} {n : Nat} {ts : Tokens} :
    P c (blame x : Reader α) e n ts
  fail {α : Type} {f : Fault} {c : Nat} {e : Ending} {n : Nat} {ts : Tokens} :
    f.cause.kind ≠ .unexpected → P c (fail f : Reader α) e n ts
  depth {α : Type} {R : Reader α} {c : Nat} {e : Ending} {n : Nat} {ts : Tokens} :
    R e n ts = .error .depth → P c R e n ts
  succ {α : Type} {A R : Reader α} {c : Nat} {e : Ending} {n : Nat} {ts : Tokens} :
    (∀ e n ts, R e (n + 1) ts = A e n ts) → P c A e n ts → P (c + 1) R e (n + 1) ts
  look {α : Type} {f : Sight → Reader α} {c : Nat} {e : Ending} {n : Nat} {ts : Tokens} :
    P c (f (e.front ts)) e n ts → P c (look f) e n ts
  /-- A token taken pays for five calls. -/
  take {α : Type} {R : Reader α} {c : Nat} {e : Ending} {n : Nat} {ts : Tokens} {t : Token} :
    (e.front ts).token = some t → P (c + 5) R e n ts.tail → P c (take R) e n ts
  /-- So does each that the first reader took. -/
  andThen {α β : Type} {A : Reader α} {B : α → Reader β} {c : Nat} {e : Ending} {n : Nat} {ts : Tokens} :
    P c A e n ts → (∀ a us, A e n ts = .ok (a, us) → P (c + 5 * (ts.length - us.length)) (B a) e n us) →
    P c (andThen A B) e n ts

/-- `P` holds of every reader of the grammar with the depth `n`. Some take a token before they look at
one, and have to have one ahead. -/
structure Each (P : {α : Type} → Nat → Reader α → Ending → Nat → Tokens → Prop) (e : Ending) (n : Nat) : Prop where
  primary {ts : Tokens} : P 1 primary e n ts
  unary {ts : Tokens} : P 2 unary e n ts
  binary {ts : Tokens} (p : Nat) : P 3 (ofBinary p) e n ts
  climb {ts : Tokens} (p : Nat) (lhs : Value) : P 1 (ofClimb p lhs) e n ts
  item {ts : Tokens} : P 4 item e n ts
  moreItems {ts : Tokens} : P 1 moreItems e n ts
  group {ts : Tokens} {t : Token} : (e.front ts).token = some t → P 1 group e n ts
  dictionary {ts : Tokens} {t : Token} : (e.front ts).token = some t → P 1 dictionary e n ts
  entries {ts : Tokens} (d : Dict) : P 1 (ofEntries d) e n ts
  list {ts : Tokens} {t : Token} : (e.front ts).token = some t → P 1 list e n ts
  rightSide {ts : Tokens} : P 5 rightSide e n ts
  statements {ts : Tokens} (nested : Bool) (b : Block) : P 2 (ofStatements nested b) e n ts
  assignment {ts : Tokens} {t : Token} : (e.front ts).token = some t → P 1 assignment e n ts

namespace Closed

variable {P : {α : Type} → Nat → Reader α → Ending → Nat → Tokens → Prop} {α β : Type} {c : Nat}
  {e : Ending} {n : Nat} {ts : Tokens}

section

variable (hP : Closed P)

include hP

/-- One reader after another, with no account of what the first one took. -/
theorem seq {A : Reader α} {B : α → Reader β} (hA : P c A e n ts) (hB : ∀ a us, P c (B a) e n us) :
    P c (Reader.andThen A B) e n ts :=
  hP.andThen hA fun a us _ => hP.weaken (hB a us) (Nat.le_add_right ..)

theorem expecting {t : Token} {x : Expected} {R : Reader α} (h : P (c + 5) R e n ts.tail) :
    P c (expecting t x R) e n ts := by
  refine hP.look ?_
  split
  · exact hP.take ‹_› h
  · exact hP.blame x

theorem key : P c ofKey e n ts := by
  rw [ofKey_eq]
  refine hP.look ?_
  split
  · rename_i k hk
    obtain ⟨t, ht, -⟩ := Option.bind_eq_some_iff.1 hk
    exact hP.take ht (hP.result k)
  · exact hP.blame _

end

variable (hP : Closed P) (ih : Each P e n)

include hP ih

theorem primary_succ : P 1 primary e (n + 1) ts := by
  refine hP.succ primary_eq (hP.look ?_)
  cases h : (e.front ts).token with
  | none => exact hP.blame _
  | some t =>
    -- not by `split`, which would decide a statement about every integer of 64 bits
    cases t with
    | int | float | name => exact hP.take h (hP.result _)
    | openParen =>
      exact hP.take h <| hP.seq (hP.weaken (ih.binary lowest) (by decide)) fun _ _ => hP.expecting (hP.result _)
    | _ => exact hP.blame _

theorem unary_succ : P 2 unary e (n + 1) ts := by
  refine hP.succ unary_eq (hP.look ?_)
  split
  · exact hP.take ‹_› <| hP.seq (hP.weaken ih.unary (by decide)) fun _ _ => hP.result _
  · exact ih.primary

theorem binary_succ (p : Nat) : P 3 (ofBinary p) e (n + 1) ts :=
  hP.succ (fun _ _ _ => binary_eq _ _ _ p) <| hP.seq ih.unary fun lhs _ => hP.weaken (ih.climb p lhs) (by decide)

theorem rightOperand (hc : 3 ≤ c) (x : Infix) : P c (rightOperand x) e n ts := by
  cases x with
  | operator o => exact hP.weaken (ih.binary _) hc
  | signed o v => exact hP.weaken (ih.climb _ v) (by omega)

theorem climb_succ (p : Nat) (lhs : Value) : P 1 (ofClimb p lhs) e (n + 1) ts := by
  refine hP.succ (fun _ _ _ => climb_eq _ _ _ p lhs) (hP.look ?_)
  split
  · exact hP.result _
  · rename_i x hx
    split
    · exact hP.result _
    · obtain ⟨t, ht⟩ : ∃ t, (e.front ts).token = some t := by
        cases ts with
        | nil => cases hx
        | cons t ts => exact ⟨t.token, rfl⟩
      exact hP.take ht <| hP.seq (hP.rightOperand ih (by decide) x) fun rhs _ => hP.weaken (ih.climb p _) (by decide)

theorem item_succ : P 4 item e (n + 1) ts := by
  refine hP.succ item_eq (hP.look ?_)
  split
  · exact hP.take ‹_› (hP.result _)
  · exact hP.take ‹_› (hP.result _)
  · exact hP.weaken (ih.dictionary ‹_›) (by decide)
  · exact hP.weaken (ih.group ‹_›) (by decide)
  · exact hP.blame _
  · exact ih.binary lowest

theorem moreItems_succ : P 1 moreItems e (n + 1) ts := by
  refine hP.succ moreItems_eq (hP.look ?_)
  split
  · exact hP.take ‹_› <| hP.seq (hP.weaken ih.item (by decide)) fun _ _ =>
      hP.seq (hP.weaken ih.moreItems (by decide)) fun _ _ => hP.result _
  · exact hP.result _

theorem group_succ {t : Token} (ht : (e.front ts).token = some t) : P 1 group e (n + 1) ts := by
  refine hP.succ group_eq <| hP.take ht <| hP.seq (hP.weaken ih.item (by decide)) fun first _ => hP.look ?_
  split
  · exact hP.seq (hP.weaken ih.moreItems (by decide)) fun _ _ => hP.expecting (hP.result _)
  split
  · exact hP.expecting (hP.weaken (ih.climb lowest first) (by decide))
  · exact hP.blame _

theorem dictionary_succ {t : Token} (ht : (e.front ts).token = some t) : P 1 dictionary e (n + 1) ts := by
  refine hP.succ dictionary_eq <| hP.take ht <| hP.look ?_
  split
  · exact hP.take ‹_› (hP.result _)
  · exact hP.weaken (ih.entries []) (by decide)

theorem entries_succ (d : Dict) : P 1 (ofEntries d) e (n + 1) ts := by
  refine hP.succ (fun _ _ _ => entries_eq _ _ _ d) <| hP.seq hP.key fun k _ => hP.expecting <|
    hP.seq (hP.weaken ih.item (by decide)) fun v _ => hP.look ?_
  split
  · exact hP.take ‹_› (hP.weaken (ih.entries _) (by decide))
  · exact hP.expecting (hP.result _)

theorem list_succ {t : Token} (ht : (e.front ts).token = some t) : P 1 list e (n + 1) ts := by
  refine hP.succ list_eq <| hP.take ht <| hP.look ?_
  split
  · exact hP.take ‹_› (hP.result _)
  · exact hP.seq (hP.weaken ih.item (by decide)) fun _ _ =>
      hP.seq (hP.weaken ih.moreItems (by decide)) fun _ _ => hP.expecting (hP.result _)

theorem rightSide_succ : P 5 rightSide e (n + 1) ts := by
  refine hP.succ rightSide_eq (hP.look ?_)
  split
  · exact hP.weaken (ih.list ‹_›) (by decide)
  · refine hP.seq ih.item fun _ _ => hP.look ?_
    split
    · exact hP.seq (hP.weaken ih.moreItems (by decide)) fun _ _ => hP.result _
    · exact hP.result _

/-- An assignment takes the name, which pays for the statements after it. -/
theorem statements_succ (nested : Bool) (b : Block) : P 2 (ofStatements nested b) e (n + 1) ts := by
  refine hP.succ (fun _ _ _ => statements_eq _ _ _ nested b) (hP.look ?_)
  split
  · exact hP.take ‹_› (hP.weaken (ih.statements nested b) (by decide))
  · rename_i x hx
    refine hP.andThen (ih.assignment hx) fun v us hr => ?_
    obtain ⟨t, rest, rfl, -⟩ := Ending.peek_eq_some.1 hx
    obtain ⟨cs, rfl, -⟩ := (Grammar.statementsSound e n).assignment t rest hr
    have hlength : 1 ≤ (t :: (cs ++ us)).length - us.length := by
      rw [List.length_cons, List.length_append]
      omega
    split
    · exact hP.weaken (ih.statements nested _) (by omega)
    · rename_i f hf
      refine hP.fail ?_
      rw [Fault.cause_withHint, kind_of_add hf]
      exact Cause.Kind.noConfusion
  · split
    · exact hP.blame _
    · exact hP.result _
  · split
    · split
      · exact hP.result _
      · exact hP.blame _
    · exact hP.blame _

theorem assignment_succ {t : Token} (ht : (e.front ts).token = some t) : P 1 assignment e (n + 1) ts := by
  refine hP.succ assignment_eq <| hP.take ht <| hP.look ?_
  split
  · exact hP.take ‹_› (hP.weaken ih.rightSide (by decide))
  split
  · exact hP.take ‹_› <| hP.seq (hP.weaken (ih.statements true []) (by decide)) fun _ _ =>
      hP.expecting (hP.result _)
  · exact hP.blame _

omit ih

theorem each (e : Ending) (n : Nat) : Each P e n := by
  induction n with
  | zero => constructor <;> intros <;> exact hP.depth rfl
  | succ n ih =>
    exact ⟨hP.primary_succ ih, hP.unary_succ ih, hP.binary_succ ih, hP.climb_succ ih, hP.item_succ ih,
      hP.moreItems_succ ih, hP.group_succ ih, hP.dictionary_succ ih, hP.entries_succ ih, hP.list_succ ih,
      hP.rightSide_succ ih, hP.statements_succ ih, hP.assignment_succ ih⟩

end Closed

end Reader

end CaseSetup
