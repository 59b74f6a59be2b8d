import CaseSetup.Proofs.Grammar.Steady
import Mathlib.Data.List.Chain
import Mathlib.Logic.Relation

/-! # The calls of the readers

The readers of the grammar call each other. `Calls` says which calls a call makes; a reader that runs
out of depth does so in a call it makes, so its depth is the length of a chain of calls. What the source
has as a loop, here the reader that is called again with what one round left, so its rounds are calls, too. -/

namespace CaseSetup

/-- A call of a reader, with what it is given and the tokens ahead. -/
inductive Call
  | primary (ts : Tokens)
  | unary (ts : Tokens)
  | binary (p : Nat) (ts : Tokens)
  | climb (p : Nat) (lhs : Value) (ts : Tokens)
  | item (ts : Tokens)
  | moreItems (ts : Tokens)
  | group (ts : Tokens)
  | dictionary (ts : Tokens)
  | entries (d : Dict) (ts : Tokens)
  | list (ts : Tokens)
  | rightSide (ts : Tokens)
  | statements (nested : Bool) (b : Block) (ts : Tokens)
  | assignment (ts : Tokens)

namespace Call

/-- The readers, whatever they are given. -/
inductive Kind
  | primary
  | unary
  | binary
  | climb
  | item
  | moreItems
  | group
  | dictionary
  | entries
  | list
  | rightSide
  | statements
  | assignment
  deriving DecidableEq

def kind : Call → Kind
  | primary _ => .primary
  | unary _ => .unary
  | binary .. => .binary
  | climb .. => .climb
  | item _ => .item
  | moreItems _ => .moreItems
  | group _ => .group
  | dictionary _ => .dictionary
  | entries .. => .entries
  | list _ => .list
  | rightSide _ => .rightSide
  | statements .. => .statements
  | assignment _ => .assignment

/-- The tokens ahead. -/
def tokens : Call → Tokens
  | primary ts | unary ts | binary _ ts | climb _ _ ts | item ts | moreItems ts | group ts | dictionary ts
  | entries _ ts | list ts | rightSide ts | statements _ _ ts | assignment ts => ts

/-- The call runs out of the depth `n`. -/
def Exhausts (e : Ending) (n : Nat) : Call → Prop
  | primary ts => CaseSetup.primary e n ts = .error .depth
  | unary ts => CaseSetup.unary e n ts = .error .depth
  | binary p ts => CaseSetup.binary e n p ts = .error .depth
  | climb p lhs ts => CaseSetup.climb e n p lhs ts = .error .depth
  | item ts => CaseSetup.item e n ts = .error .depth
  | moreItems ts => CaseSetup.moreItems e n ts = .error .depth
  | group ts => CaseSetup.group e n ts = .error .depth
  | dictionary ts => CaseSetup.dictionary e n ts = .error .depth
  | entries d ts => CaseSetup.entries e n d ts = .error .depth
  | list ts => CaseSetup.list e n ts = .error .depth
  | rightSide ts => CaseSetup.rightSide e n ts = .error .depth
  | statements nested b ts => CaseSetup.statements e nested n b ts = .error .depth
  | assignment ts => CaseSetup.assignment e n ts = .error .depth

/-- The call that reads the right operand of an operator. -/
def rightOperand : Infix → Tokens → Call
  | .operator o, ts => binary (o.precedence + 1) ts
  | .signed o v, ts => climb (o.precedence + 1) v ts

end Call

/-- Does an item that starts with the token start with no expression? -/
def Token.opensItem : Token → Bool
  | str _ | bool _ | openBrace | openParen | openBracket => true
  | _ => false

/-- `Calls e c d`: over a text that ends as `e`, the call `c` makes the call `d`. -/
inductive Calls (e : Ending) : Call → Call → Prop
  | inParens {ts us} (ht : e.peek ts = some .openParen) (hus : e.bump ts = .ok us) :
      Calls e (.primary ts) (.binary lowest us)
  | negated {ts us} (ht : e.peek ts = some .minus) (hus : e.bump ts = .ok us) : Calls e (.unary ts) (.unary us)
  | toPrimary {ts} (ht : e.peek ts ≠ some .minus) : Calls e (.unary ts) (.primary ts)
  | firstOperand {p ts} : Calls e (.binary p ts) (.unary ts)
  | afterFirst {p ts us v n} (hv : unary e n ts = .ok (v, us)) : Calls e (.binary p ts) (.climb p v us)
  | rightOperand {p lhs ts us x} (hx : (e.front ts).infix? = some x) (hp : p ≤ x.op.precedence)
      (hus : e.bump ts = .ok us) : Calls e (.climb p lhs ts) (.rightOperand x us)
  | afterRight {p lhs ts us vs x v n} (hx : (e.front ts).infix? = some x) (hp : p ≤ x.op.precedence)
      (hus : e.bump ts = .ok us) (hv : Reader.rightOperand x e n us = .ok (v, vs)) :
      Calls e (.climb p lhs ts) (.climb p (.binary x.op lhs v) vs)
  | toDictionary {ts} (ht : e.peek ts = some .openBrace) : Calls e (.item ts) (.dictionary ts)
  | toGroup {ts} (ht : e.peek ts = some .openParen) : Calls e (.item ts) (.group ts)
  | toExpression {ts} (ht : ∀ t, e.peek ts = some t → t.opensItem = false) : Calls e (.item ts) (.binary lowest ts)
  | nextItem {ts us} (ht : e.peek ts = some .comma) (hus : e.bump ts = .ok us) : Calls e (.moreItems ts) (.item us)
  | afterItem {ts us vs v n} (ht : e.peek ts = some .comma) (hus : e.bump ts = .ok us)
      (hv : item e n us = .ok (v, vs)) : Calls e (.moreItems ts) (.moreItems vs)
  | inGroup {ts us} (hus : e.bump ts = .ok us) : Calls e (.group ts) (.item us)
  | restOfGroup {ts us vs v n} (hus : e.bump ts = .ok us) (hv : item e n us = .ok (v, vs))
      (hc : e.peek vs = some .comma) : Calls e (.group ts) (.moreItems vs)
  | afterGroup {ts us vs ws v n} (hus : e.bump ts = .ok us) (hv : item e n us = .ok (v, vs))
      (hc : e.peek vs = some .closeParen) (hari : v.isArithmetic) (hws : e.bump vs = .ok ws) :
      Calls e (.group ts) (.climb lowest v ws)
  | inBraces {ts us} (hus : e.bump ts = .ok us) (hc : e.peek us ≠ some .closeBrace) :
      Calls e (.dictionary ts) (.entries [] us)
  | entry {d ts us vs k} (hk : key e ts = .ok (k, us)) (hc : e.peek us = some .colon) (hvs : e.bump us = .ok vs) :
      Calls e (.entries d ts) (.item vs)
  | nextEntry {d ts us vs ws xs k v n} (hk : key e ts = .ok (k, us)) (hc : e.peek us = some .colon)
      (hvs : e.bump us = .ok vs) (hv : item e n vs = .ok (v, ws)) (hm : e.peek ws = some .comma)
      (hxs : e.bump ws = .ok xs) : Calls e (.entries d ts) (.entries (Entries.put k v d) xs)
  | inBrackets {ts us} (hus : e.bump ts = .ok us) (hc : e.peek us ≠ some .closeBracket) : Calls e (.list ts) (.item us)
  | restOfList {ts us vs v n} (hus : e.bump ts = .ok us) (hc : e.peek us ≠ some .closeBracket)
      (hv : item e n us = .ok (v, vs)) : Calls e (.list ts) (.moreItems vs)
  | toList {ts} (ht : e.peek ts = some .openBracket) : Calls e (.rightSide ts) (.list ts)
  | bareItem {ts} (ht : e.peek ts ≠ some .openBracket) : Calls e (.rightSide ts) (.item ts)
  | restOfBare {ts us v n} (ht : e.peek ts ≠ some .openBracket) (hv : item e n ts = .ok (v, us))
      (hc : e.peek us = some .comma) : Calls e (.rightSide ts) (.moreItems us)
  | afterComment {nested b ts us s} (ht : e.peek ts = some (.comment s)) (hus : e.bump ts = .ok us) :
      Calls e (.statements nested b ts) (.statements nested b us)
  | bound {nested b ts s} (ht : e.peek ts = some (.name s)) : Calls e (.statements nested b ts) (.assignment ts)
  | afterBound {nested b b' ts us s v n} (ht : e.peek ts = some (.name s)) (hv : assignment e n ts = .ok (v, us))
      (hb : b.add s v = .ok b') : Calls e (.statements nested b ts) (.statements nested b' us)
  | assigned {ts us vs} (hus : e.bump ts = .ok us) (ht : e.peek us = some .equals) (hvs : e.bump us = .ok vs) :
      Calls e (.assignment ts) (.rightSide vs)
  | inBlock {ts us vs} (hus : e.bump ts = .ok us) (ht : e.peek us = some .openBrace) (hvs : e.bump us = .ok vs) :
      Calls e (.assignment ts) (.statements true [] vs)

theorem Ending.bump_ne_depth (e : Ending) (ts : Tokens) : e.bump ts ≠ .error .depth := by
  cases ts with
  | nil => exact nofun
  | cons t ts => cases ts <;> cases e <;> exact nofun

namespace Reader

variable {α β : Type} {A R : Reader α} {e : Ending} {n : Nat} {ts : Tokens} {C : Call → Prop} {d : Call}

/-- The depth `n` is short for `R` only because it is short for one of the calls `C`. -/
def Asks (C : Call → Prop) (R : Reader α) (e : Ending) (n : Nat) (ts : Tokens) : Prop :=
  R e n ts = .error .depth → ∃ d, C d ∧ d.Exhausts e n

namespace Asks

theorem call (hd : C d) (h : R e n ts = .error .depth → d.Exhausts e n) : Asks C R e n ts := fun hr => ⟨d, hd, h hr⟩

theorem result (a : α) : Asks C (result a) e n ts := nofun

theorem blame (x : Expected) : Asks C (blame x : Reader α) e n ts := nofun

theorem fail (f : Fault) : Asks C (fail f : Reader α) e n ts := nofun

theorem look {f : Sight → Reader α} (h : Asks C (f (e.front ts)) e n ts) : Asks C (look f) e n ts := h

theorem ite {p : Prop} [Decidable p] {A B : Reader α} (hA : p → Asks C A e n ts) (hB : ¬p → Asks C B e n ts) :
    Asks C (if p then A else B) e n ts := by
  split
  · exact hA ‹_›
  · exact hB ‹_›

theorem take (h : ∀ us, e.bump ts = .ok us → Asks C R e n us) : Asks C (take R) e n ts := by
  intro hr
  rcases Outcome.bind_eq_error.1 hr with hr | ⟨us, hus, hr⟩
  · exact absurd hr (e.bump_ne_depth ts)
  · exact h us hus hr

theorem andThen {B : α → Reader β} (hA : Asks C A e n ts) (hB : ∀ a us, A e n ts = .ok (a, us) → Asks C (B a) e n us) :
    Asks C (andThen A B) e n ts := by
  intro hr
  rcases Outcome.bind_eq_error.1 hr with hr | ⟨⟨a, us⟩, hus, hr⟩
  · exact hA hr
  · exact hB a us hus hr

theorem expecting {k : Token} {x : Expected} (h : ∀ us, e.peek ts = some k → e.bump ts = .ok us → Asks C R e n us) :
    Asks C (expecting k x R) e n ts :=
  .look <| .ite (fun hk => .take fun us => h us hk) fun _ => .blame x

theorem key : Asks C ofKey e n ts := by
  rw [ofKey_eq]
  refine .look ?_
  cases (e.front ts).token.bind Token.key? with
  | none => exact .blame _
  | some k => exact .take fun _ _ => .result k

end Asks

end Reader

namespace Call

open Reader

variable {e : Ending} {n : Nat} {c : Call} {ts : Tokens}

theorem Exhausts.primary (h : Exhausts e (n + 1) (.primary ts)) : ∃ d, Calls e (.primary ts) d ∧ d.Exhausts e n := by
  refine Asks.look ?_ ((primary_eq e n ts).symm.trans h)
  cases ht : (e.front ts).token with
  | none => exact .blame _
  | some t =>
    cases t with
    | int | float | name => exact .take fun _ _ => .result _
    | openParen =>
      exact .take fun us hus => .andThen (.call (.inParens ht hus) id) fun _ _ _ => .expecting fun _ _ _ => .result _
    | _ => exact .blame _

theorem Exhausts.unary (h : Exhausts e (n + 1) (.unary ts)) : ∃ d, Calls e (.unary ts) d ∧ d.Exhausts e n := by
  refine Asks.look (.ite (fun ht => ?_) fun ht => ?_) ((unary_eq e n ts).symm.trans h)
  · exact .take fun us hus => .andThen (.call (.negated ht hus) id) fun _ _ _ => .result _
  · exact .call (.toPrimary ht) id

theorem Exhausts.binary {p : Nat} (h : Exhausts e (n + 1) (.binary p ts)) :
    ∃ d, Calls e (.binary p ts) d ∧ d.Exhausts e n := by
  refine Asks.andThen ?_ (fun v us hv => ?_) ((binary_eq e n ts p).symm.trans h)
  · exact .call .firstOperand id
  · exact .call (.afterFirst hv) id

theorem exhausts_rightOperand {x : Infix} (h : Reader.rightOperand x e n ts = .error .depth) :
    (rightOperand x ts).Exhausts e n := by
  cases x <;> exact h

theorem Exhausts.climb {p : Nat} {lhs : Value} (h : Exhausts e (n + 1) (.climb p lhs ts)) :
    ∃ d, Calls e (.climb p lhs ts) d ∧ d.Exhausts e n := by
  refine Asks.look ?_ ((climb_eq e n ts p lhs).symm.trans h)
  cases hx : (e.front ts).infix? with
  | none => exact .result _
  | some x =>
    refine .ite (fun _ => .result _) fun hlt => .take fun us hus => ?_
    have hp := Nat.le_of_not_lt hlt
    exact .andThen (.call (.rightOperand hx hp hus) exhausts_rightOperand) fun v vs hv =>
      .call (.afterRight hx hp hus hv) id

theorem Exhausts.item (h : Exhausts e (n + 1) (.item ts)) : ∃ d, Calls e (.item ts) d ∧ d.Exhausts e n := by
  refine Asks.look ?_ ((item_eq e n ts).symm.trans h)
  cases ht : (e.front ts).token with
  | none => exact .call (.toExpression fun t ht' => by cases ht.symm.trans ht') id
  | some t =>
    cases t with
    | str | bool => exact .take fun _ _ => .result _
    | openBrace => exact .call (.toDictionary ht) id
    | openParen => exact .call (.toGroup ht) id
    | openBracket => exact .blame _
    | _ => exact .call (.toExpression fun t ht' => by cases ht.symm.trans ht'; rfl) id

theorem Exhausts.moreItems (h : Exhausts e (n + 1) (.moreItems ts)) :
    ∃ d, Calls e (.moreItems ts) d ∧ d.Exhausts e n := by
  refine Asks.look (.ite (fun ht => ?_) fun _ => .result _) ((moreItems_eq e n ts).symm.trans h)
  exact .take fun us hus => .andThen (.call (.nextItem ht hus) id) fun _ _ hv =>
    .andThen (.call (.afterItem ht hus hv) id) fun _ _ _ => .result _

theorem Exhausts.group (h : Exhausts e (n + 1) (.group ts)) : ∃ d, Calls e (.group ts) d ∧ d.Exhausts e n := by
  refine Asks.take (fun us hus => ?_) ((group_eq e n ts).symm.trans h)
  refine .andThen (.call (.inGroup hus) id) fun v vs hv => .look (.ite (fun hc => ?_) fun _ => ?_)
  · exact .andThen (.call (.restOfGroup hus hv hc) id) fun _ _ _ => .expecting fun _ _ _ => .result _
  · refine .ite (fun hari => .expecting fun ws hc hws => ?_) fun _ => .blame _
    exact .call (.afterGroup hus hv hc hari hws) id

theorem Exhausts.dictionary (h : Exhausts e (n + 1) (.dictionary ts)) :
    ∃ d, Calls e (.dictionary ts) d ∧ d.Exhausts e n := by
  refine Asks.take (fun us hus => .look (.ite (fun _ => ?_) fun hc => ?_)) ((dictionary_eq e n ts).symm.trans h)
  · exact .take fun _ _ => .result _
  · exact .call (.inBraces hus hc) id

theorem Exhausts.entries {d : Dict} (h : Exhausts e (n + 1) (.entries d ts)) :
    ∃ c, Calls e (.entries d ts) c ∧ c.Exhausts e n := by
  refine Asks.andThen .key (fun k us hk => .expecting fun vs hc hvs => ?_) ((entries_eq e n ts d).symm.trans h)
  refine .andThen (.call (.entry hk hc hvs) id) fun v ws hv => .look (.ite (fun hm => ?_) fun _ => ?_)
  · exact .take fun xs hxs => .call (.nextEntry hk hc hvs hv hm hxs) id
  · exact .expecting fun _ _ _ => .result _

theorem Exhausts.list (h : Exhausts e (n + 1) (.list ts)) : ∃ d, Calls e (.list ts) d ∧ d.Exhausts e n := by
  refine Asks.take (fun us hus => .look (.ite (fun _ => ?_) fun hc => ?_)) ((list_eq e n ts).symm.trans h)
  · exact .take fun _ _ => .result _
  · exact .andThen (.call (.inBrackets hus hc) id) fun _ _ hv =>
      .andThen (.call (.restOfList hus hc hv) id) fun _ _ _ => .expecting fun _ _ _ => .result _

theorem Exhausts.rightSide (h : Exhausts e (n + 1) (.rightSide ts)) :
    ∃ d, Calls e (.rightSide ts) d ∧ d.Exhausts e n := by
  refine Asks.look (.ite (fun ht => ?_) fun ht => ?_) ((rightSide_eq e n ts).symm.trans h)
  · exact .call (.toList ht) id
  · refine .andThen (.call (.bareItem ht) id) fun v us hv => .look (.ite (fun hc => ?_) fun _ => .result _)
    exact .andThen (.call (.restOfBare ht hv hc) id) fun _ _ _ => .result _

theorem Exhausts.statements {nested : Bool} {b : Block} (h : Exhausts e (n + 1) (.statements nested b ts)) :
    ∃ d, Calls e (.statements nested b ts) d ∧ d.Exhausts e n := by
  refine Asks.look ?_ ((statements_eq e n ts nested b).symm.trans h)
  cases ht : (e.front ts).token with
  | none => exact .ite (fun _ => .blame _) fun _ => .result _
  | some t =>
    cases t with
    | comment => exact .take fun us hus => .call (.afterComment ht hus) id
    | name s =>
      refine .andThen (.call (.bound ht) id) fun v us hv => ?_
      cases hb : b.add s v with
      | error f => exact .fail _
      | ok b' => exact .call (.afterBound ht hv hb) id
    | _ => exact .ite (fun _ => .ite (fun _ => .result _) fun _ => .blame _) fun _ => .blame _

theorem Exhausts.assignment (h : Exhausts e (n + 1) (.assignment ts)) :
    ∃ d, Calls e (.assignment ts) d ∧ d.Exhausts e n := by
  refine Asks.take (fun us hus => .look (.ite (fun ht => ?_) fun _ => .ite (fun ht => ?_) fun _ => .blame _))
    ((assignment_eq e n ts).symm.trans h)
  · exact .take fun vs hvs => .call (.assigned hus ht hvs) id
  · exact .take fun vs hvs => .andThen (.call (.inBlock hus ht hvs) id) fun _ _ _ => .expecting fun _ _ _ => .result _

/-- A call that runs out of depth makes one that does. -/
theorem Exhausts.exists_call (h : c.Exhausts e (n + 1)) : ∃ d, Calls e c d ∧ d.Exhausts e n := by
  cases c with
  | primary => exact h.primary
  | unary => exact h.unary
  | binary => exact h.binary
  | climb => exact h.climb
  | item => exact h.item
  | moreItems => exact h.moreItems
  | group => exact h.group
  | dictionary => exact h.dictionary
  | entries => exact h.entries
  | list => exact h.list
  | rightSide => exact h.rightSide
  | statements => exact h.statements
  | assignment => exact h.assignment

/-- Where the depth `n` is used up, `n` calls are made one inside the other. -/
theorem Exhausts.exists_chain (h : c.Exhausts e n) : ∃ ds : List Call, ds.length = n ∧ (c :: ds).IsChain (Calls e) := by
  induction n generalizing c with
  | zero => exact ⟨[], rfl, .singleton c⟩
  | succ n ih =>
    obtain ⟨d, hd, hex⟩ := h.exists_call
    obtain ⟨ds, rfl, hds⟩ := ih hex
    exact ⟨d :: ds, rfl, .cons_cons hd hds⟩

end Call

end CaseSetup
