import CaseSetup.Proofs.Grammar.Readers
import CaseSetup.Proofs.Grammar.Relation

/-! # What the readers take is grammatical

A reader that succeeds has taken the words of a phrase off the front of its tokens, and gives the
value of that phrase. A reader of expressions stops only where no operator follows that binds as
tightly as it takes; so, while it climbs, its left operand holds none that binds more loosely than
the next one, and the two make the tree that the grammar has. -/

namespace CaseSetup

namespace Reader

variable {α β : Type} {A R : Reader α} {e : Ending} {n : Nat} {ts : Tokens} {P Q : α → Tokens → Prop}

/-- If `R` returns from `ts` on, then a value and tokens left over that are as `P` says. -/
def Gives (R : Reader α) (e : Ending) (n : Nat) (ts : Tokens) (P : α → Tokens → Prop) : Prop :=
  ∀ ⦃a us⦄, R e n ts = .ok (a, us) → P a us

namespace Gives

theorem weaken (h : Gives R e n ts P) (hPQ : ∀ a us, P a us → Q a us) : Gives R e n ts Q :=
  fun _ _ hr => hPQ _ _ (h hr)

theorem result {a : α} (h : P a ts) : Gives (result a) e n ts P := by
  intro _ _ hr
  cases hr
  exact h

theorem blame (x : Expected) : Gives (blame x) e n ts P := nofun

theorem fail (f : Fault) : Gives (fail f) e n ts P := nofun

theorem look {f : Sight → Reader α} (h : Gives (f (e.front ts)) e n ts P) : Gives (look f) e n ts P := h

theorem succ (heq : ∀ e n ts, R e (n + 1) ts = A e n ts) (h : Gives A e n ts P) : Gives R e (n + 1) ts P := by
  intro _ _ hr
  rw [heq] at hr
  exact h hr

theorem take {t : Located} (h : e.Ahead ts → Gives R e n ts P) : Gives (take R) e n (t :: ts) P := by
  intro _ _ hr
  obtain ⟨_, hbump, hr'⟩ := Outcome.bind_eq_ok.1 hr
  obtain ⟨rfl, ha⟩ := Ending.resume_eq_ok.1 hbump
  exact h ha hr'

theorem andThen {B : α → Reader β} {P : β → Tokens → Prop} (hA : Gives A e n ts Q)
    (hB : ∀ a us, Q a us → Gives (B a) e n us P) : Gives (andThen A B) e n ts P := by
  intro _ _ hr
  obtain ⟨⟨a, us⟩, hr, hr'⟩ := Outcome.bind_eq_ok.1 hr
  exact hB a us (hA hr) hr'

theorem ite {p : Prop} [Decidable p] {A B : Reader α} (hA : p → Gives A e n ts P) (hB : ¬p → Gives B e n ts P) :
    Gives (if p then A else B) e n ts P := by
  split
  · exact hA ‹_›
  · exact hB ‹_›

/-- Only the token `k` is gone past. -/
theorem seeing {k : Token} {B : Reader α}
    (hA : ∀ g p q us, ts = ⟨k, g, p, q⟩ :: us → Gives A e n (⟨k, g, p, q⟩ :: us) P)
    (hB : (e.front ts).token ≠ some k → Gives B e n ts P) :
    Gives (if (e.front ts).token = some k then A else B) e n ts P := by
  refine ite (fun h => ?_) hB
  obtain ⟨⟨_, g, p, q⟩, us, rfl, rfl⟩ := Ending.peek_eq_some.1 h
  exact hA g p q us rfl

theorem expecting {k : Token} {x : Expected}
    (h : ∀ g p q us, ts = ⟨k, g, p, q⟩ :: us → e.Ahead us → Gives R e n us P) :
    Gives (expecting k x R) e n ts P :=
  .look <| .seeing (fun g p q us hts => .take (h g p q us hts)) fun _ => .blame x

end Gives

end Reader

namespace Grammar

open Reader

/-- The words that stand for what an operator brings of its right operand: the number of a glued sign. -/
inductive Brings : Infix → Words → Prop
  | operator (o : Op) : Brings (.operator o) []
  | int (o : Op) (n : Int64) : Brings (.signed o (.int n)) [⟨.int n, none⟩]
  | float (o : Op) (x : Float) : Brings (.signed o (.float x)) [⟨.float x, none⟩]

/-- The splitting rule, read off the token. -/
theorem splits_of_split? {s : Sign} {t : Token} {o : Op} {v : Value} (h : s.split? t = some (o, v)) :
    ∃ u, Splits ⟨t, some s⟩ o u ∧ Brings (.signed o v) [u] := by
  unfold Sign.split? at h
  split at h
  · rename_i n
    split at h
    · cases h
      exact ⟨_, .plusInt n, .int _ n⟩
    · split at h
      · cases h
      · rename_i hn
        cases h
        exact ⟨_, .minusInt hn, .int _ _⟩
  · rename_i x
    cases s <;> cases h
    · exact ⟨_, .plusFloat x, .float _ _⟩
    · exact ⟨_, .minusFloat x, .float _ _⟩
  · cases h

theorem joins_of_infix? {t : Located} {x : Infix} (h : t.seen.infix? = some x) :
    ∃ us, Joins t.word x.op us ∧ Brings x us := by
  unfold Sight.infix? at h
  split at h
  · rename_i o ho
    cases h
    exact ⟨[], .symbol ho, .operator o⟩
  · obtain ⟨⟨o, v⟩, hlink, rfl⟩ := Option.map_eq_some_iff.1 h
    obtain ⟨token, sign, start, stop⟩ := t
    obtain ⟨s, rfl, hs⟩ := Option.bind_eq_some_iff.1 (show sign.bind (·.split? token) = some (o, v) from hlink)
    obtain ⟨u, hsp, hu⟩ := splits_of_split? hs
    exact ⟨[u], .glued hsp, hu⟩

variable {e : Ending} {n p q : Nat} {ts us : Tokens} {ws : Words} {v : Value}

/-- The tokens `ts` do not go on with an operator that binds at least as tightly as `p`. -/
def Below (e : Ending) (p : Nat) (ts : Tokens) : Prop := ∀ x, (e.front ts).infix? = some x → x.op.precedence < p

theorem Below.mono (h : Below e p ts) (hq : p ≤ q) : Below e q ts := fun x hx => Nat.lt_of_lt_of_le (h x hx) hq

/-- The phrase `P` was taken off the front of `ts`, and `us` is left. -/
def Took (e : Ending) (P : Words → Prop) (ts us : Tokens) : Prop :=
  ∃ cs, ts = cs ++ us ∧ P (wordsOf cs) ∧ e.Ahead us

theorem Took.weaken {P Q : Words → Prop} (h : Took e P ts us) (hPQ : ∀ ws, P ws → Q ws) : Took e Q ts us :=
  let ⟨cs, hts, hP, ha⟩ := h
  ⟨cs, hts, hPQ _ hP, ha⟩

theorem Took.none {P : Words → Prop} (h : P []) (ha : e.Ahead ts) : Took e P ts ts := ⟨[], rfl, h, ha⟩

theorem Took.after {P : Words → Prop} (cs : Tokens) (h : Took e (fun ws => P (wordsOf cs ++ ws)) ts us) :
    Took e P (cs ++ ts) us := by
  obtain ⟨ds, rfl, hP, ha⟩ := h
  exact ⟨cs ++ ds, (List.append_assoc ..).symm, by rwa [wordsOf, List.map_append], ha⟩

theorem Took.cons {P : Words → Prop} {t : Located} (h : Took e (fun ws => P (t.word :: ws)) ts us) :
    Took e P (t :: ts) us :=
  .after [t] h

theorem Took.one {P : Words → Prop} {t : Located} (h : P [t.word]) (ha : e.Ahead ts) : Took e P (t :: ts) ts :=
  .cons (.none h ha)

/-- The token behind is taken, too. -/
theorem Took.snoc {P : Words → Prop} {t : Located} (h : Took e (fun ws => P (ws ++ [t.word])) ts (t :: us))
    (ha : e.Ahead us) : Took e P ts us := by
  obtain ⟨cs, rfl, hP, -⟩ := h
  exact ⟨cs ++ [t], by simp, by rwa [wordsOf, List.map_append], ha⟩

/-- What the readers of expressions take. -/
structure ExpressionsSound (e : Ending) (n : Nat) : Prop where
  primary (ts : Tokens) : Gives primary e n ts fun v us => Took e (Operand · v) ts us
  unary (ts : Tokens) : Gives unary e n ts fun v us => Took e (Operand · v) ts us
  binary (p : Nat) (ts : Tokens) :
    Gives (ofBinary p) e n ts fun v us => Took e (Expression p · v) ts us ∧ Below e p us
  climb {p q : Nat} {ls : Words} {l : Value} {ts : Tokens} :
    Expression q ls l → p ≤ q → Below e (q + 1) ts → e.Ahead ts →
    Gives (ofClimb p l) e n ts fun v us => Took e (fun ws => Expression p (ls ++ ws) v) ts us ∧ Below e p us

namespace ExpressionsSound

theorem primary_succ (ih : ExpressionsSound e n) (ts : Tokens) :
    Gives CaseSetup.primary e (n + 1) ts fun v us => Took e (Operand · v) ts us := by
  refine .succ primary_eq (.look ?_)
  cases ts with
  | nil => exact .blame _
  | cons t ts =>
    obtain ⟨k, g, _, _⟩ := t
    cases k with
    | int i => exact .take fun ha => .result (.one (.int i g) ha)
    | float x => exact .take fun ha => .result (.one (.float x g) ha)
    | name s => exact .take fun ha => .result (.one (.name s g) ha)
    | openParen =>
      refine .take fun _ => (ih.binary lowest ts).andThen fun v us ⟨h, _⟩ => ?_
      refine .expecting fun g' _ _ rest hus ha => .result ?_
      subst hus
      exact .cons (.snoc (h.weaken fun _ => .parens) ha)
    | _ => exact .blame _

theorem unary_succ (ih : ExpressionsSound e n) (ts : Tokens) :
    Gives CaseSetup.unary e (n + 1) ts fun v us => Took e (Operand · v) ts us := by
  refine .succ unary_eq (.look (.seeing (fun g _ _ us hts => ?_) fun _ => ih.primary ts))
  subst hts
  exact .take fun _ => (ih.unary us).andThen fun v rest h => .result (.cons (h.weaken fun _ => .neg))

/-- No operator binds more tightly than an operand. -/
theorem climb_operand (ih : ExpressionsSound e n) {l : Value} (hl : Operand ws l) (ha : e.Ahead ts) :
    Gives (ofClimb p l) e n ts fun v us => Took e (fun rs => Expression p (ws ++ rs) v) ts us ∧ Below e p us := by
  refine ih.climb (.operand hl) (Nat.le_add_right p 3) (fun x _ => ?_) ha
  have := x.op.precedence_le_three
  omega

theorem binary_succ (ih : ExpressionsSound e n) (p : Nat) (ts : Tokens) :
    Gives (ofBinary p) e (n + 1) ts fun v us => Took e (Expression p · v) ts us ∧ Below e p us := by
  refine .succ (fun _ _ _ => binary_eq _ _ _ p) ((ih.unary ts).andThen fun l us ⟨cs, hts, hl, ha⟩ => ?_)
  subst hts
  exact (ih.climb_operand hl ha).weaken fun v rest ⟨h, hrest⟩ => ⟨.after cs h, hrest⟩

/-- The right operand starts with the number of a glued sign, if the operator is one. -/
theorem rightOperand (ih : ExpressionsSound e n) {x : Infix} {js : Words} (hx : Brings x js) (ha : e.Ahead ts) :
    Gives (rightOperand x) e n ts fun v us =>
      Took e (fun ws => Expression (x.op.precedence + 1) (js ++ ws) v) ts us ∧ Below e (x.op.precedence + 1) us := by
  cases hx with
  | operator o => exact ih.binary _ ts
  | int o n => exact ih.climb_operand (.int n none) ha
  | float o x => exact ih.climb_operand (.float x none) ha

theorem climb_succ (ih : ExpressionsSound e n) {ls : Words} {l : Value} (hl : Expression q ls l) (hp : p ≤ q)
    (hbelow : Below e (q + 1) ts) (ha : e.Ahead ts) : Gives (ofClimb p l) e (n + 1) ts fun v us =>
      Took e (fun ws => Expression p (ls ++ ws) v) ts us ∧ Below e p us := by
  have hl' : Expression p (ls ++ []) l := by
    rw [List.append_nil]
    exact hl.mono hp
  refine .succ (fun _ _ _ => climb_eq _ _ _ p l) (.look ?_)
  cases hx : (e.front ts).infix? with
  | none =>
    refine .result ⟨.none hl' ha, fun x hx' => ?_⟩
    rw [hx] at hx'
    cases hx'
  | some x =>
    refine .ite (fun hlt => .result ⟨.none hl' ha, fun x' hx' => ?_⟩) fun hge => ?_
    · rw [hx] at hx'
      cases hx'
      exact hlt
    · obtain ⟨t, us, rfl⟩ : ∃ t us, ts = t :: us := by
        cases ts with
        | nil => cases hx
        | cons t us => exact ⟨t, us, rfl⟩
      obtain ⟨js, hj, hb⟩ := joins_of_infix? hx
      refine .take fun ha => (ih.rightOperand hb ha).andThen fun r us' ⟨⟨cs, hus, hr, ha'⟩, hright⟩ => ?_
      have hnode : Expression x.op.precedence (ls ++ t.word :: wordsOf cs) (.binary x.op l r) :=
        .binary hj (Nat.le_refl _) (hl.mono (Nat.le_of_lt_succ (hbelow x hx))) hr
      -- the two are the left operand of what follows, which binds no more tightly than `x`
      refine (ih.climb hnode (Nat.le_of_not_lt hge) hright ha').weaken fun v rest ⟨h, hrest⟩ => ⟨?_, hrest⟩
      subst hus
      exact .cons (.after cs (h.weaken fun ws hv => by simpa using hv))

end ExpressionsSound

theorem expressionsSound (e : Ending) (n : Nat) : ExpressionsSound e n := by
  induction n with
  | zero => constructor <;> intros <;> exact nofun
  | succ n ih => exact ⟨ih.primary_succ, ih.unary_succ, ih.binary_succ, ih.climb_succ⟩

theorem key_sound (ts : Tokens) :
    Gives ofKey e n ts fun k us => ∃ t, ts = t :: us ∧ t.token.key? = some k ∧ e.Ahead us := by
  rw [ofKey_eq]
  refine .look ?_
  cases ts with
  | nil => exact .blame _
  | cons t ts =>
    cases hk : (e.front (t :: ts)).token.bind Token.key? with
    | none => exact .blame _
    | some k => exact .take fun ha => .result ⟨t, rfl, hk, ha⟩

/-- What the readers of items take. The reader of entries carries those before. -/
structure ItemsSound (e : Ending) (n : Nat) : Prop where
  item (ts : Tokens) : Gives item e n ts fun v us => Took e (Item · v) ts us
  moreItems {ts : Tokens} : e.Ahead ts →
    Gives moreItems e n ts fun vs us => Took e (MoreItems · vs) ts us ∧ (e.peek ts = some .comma → vs ≠ [])
  group {t : Located} (ts : Tokens) : t.token = .openParen →
    Gives group e n (t :: ts) fun v us => Took e (Item · v) (t :: ts) us
  dictionary {t : Located} (ts : Tokens) : t.token = .openBrace →
    Gives dictionary e n (t :: ts) fun v us => Took e (Item · v) (t :: ts) us
  entries (d : Dict) (ts : Tokens) : Gives (ofEntries d) e n ts fun v us =>
    ∃ es g, v = .dict (es.foldl (fun d e => Entries.put e.1 e.2 d) d) ∧
      Took e (fun ws => ∃ rs, ws = rs ++ [⟨.closeBrace, g⟩] ∧ DictEntries rs es) ts us

namespace ItemsSound

theorem item_succ (ih : ItemsSound e n) (ts : Tokens) :
    Gives CaseSetup.item e (n + 1) ts fun v us => Took e (Item · v) ts us := by
  have hexpression : Gives (ofBinary lowest) e n ts fun v us => Took e (Item · v) ts us :=
    ((expressionsSound e n).binary lowest ts).weaken fun v us h => h.1.weaken fun _ => .expression
  refine .succ item_eq (.look ?_)
  cases ts with
  | nil => exact hexpression
  | cons t ts =>
    obtain ⟨k, g, _, _⟩ := t
    cases k with
    | str s => exact .take fun ha => .result (.one (.str s g) ha)
    | bool b => exact .take fun ha => .result (.one (.bool b g) ha)
    | openBrace => exact ih.dictionary ts rfl
    | openParen => exact ih.group ts rfl
    | openBracket => exact .blame _
    | _ => exact hexpression

theorem moreItems_succ (ih : ItemsSound e n) (ha : e.Ahead ts) : Gives CaseSetup.moreItems e (n + 1) ts fun vs us =>
    Took e (MoreItems · vs) ts us ∧ (e.peek ts = some .comma → vs ≠ []) := by
  refine .succ moreItems_eq (.look (.seeing (fun g _ _ us hts => ?_) fun hne => ?_))
  · refine .take fun _ => (ih.item us).andThen fun v us' ⟨cs, hus, hi, ha'⟩ => ?_
    refine (ih.moreItems ha').andThen fun vs rest ⟨h, _⟩ => .result ⟨?_, fun _ => List.cons_ne_nil v vs⟩
    subst hts hus
    exact .cons (.after cs (h.weaken fun _ => .cons hi))
  · exact .result ⟨.none .nil ha, fun h => absurd h hne⟩

theorem group_succ (ih : ItemsSound e n) {t : Located} (ts : Tokens) (ht : t.token = .openParen) :
    Gives CaseSetup.group e (n + 1) (t :: ts) fun v us => Took e (Item · v) (t :: ts) us := by
  obtain ⟨_, g, _, _⟩ := t
  obtain rfl := ht
  refine .succ group_eq (.take fun _ => (ih.item ts).andThen fun v us ⟨cs, hts, hi, ha⟩ => .look ?_)
  subst hts
  refine .ite (fun hcomma => ?_) fun _ => .ite (fun hari => ?_) fun _ => .blame _
  · refine (ih.moreItems ha).andThen fun vs rest ⟨h, hvs⟩ => .expecting fun g' _ _ rest' hrest ha' => .result ?_
    subst hrest
    exact .cons (.after cs (.snoc (h.weaken fun ws hm => by simpa using Item.tuple hi hm (hvs hcomma)) ha'))
  · -- one arithmetic item in parentheses is the first operand of an expression
    refine .expecting fun g' _ _ rest hus ha' => ?_
    subst hus
    have hparens : Operand (⟨.openParen, g⟩ :: (wordsOf cs ++ [⟨.closeParen, g'⟩])) v :=
      .parens (hi.expression_of_isArithmetic hari)
    refine ((expressionsSound e n).climb_operand hparens ha').weaken fun v us ⟨h, _⟩ => ?_
    exact .cons (.after cs (.cons (h.weaken fun ws hx => .expression (by simpa [lowest] using hx))))

theorem dictionary_succ (ih : ItemsSound e n) {t : Located} (ts : Tokens) (ht : t.token = .openBrace) :
    Gives CaseSetup.dictionary e (n + 1) (t :: ts) fun v us => Took e (Item · v) (t :: ts) us := by
  obtain ⟨_, g, _, _⟩ := t
  obtain rfl := ht
  refine .succ dictionary_eq (.take fun _ => .look (.seeing (fun g' _ _ us hts => ?_) fun _ => ?_))
  · subst hts
    exact .take fun ha => .result (.cons (.one (.emptyDict g g') ha))
  · refine (ih.entries [] ts).weaken fun v us ⟨es, g', hv, h⟩ => .cons (h.weaken ?_)
    rintro _ ⟨ws, rfl, hes⟩
    rw [hv]
    exact .dict hes

theorem entries_succ (ih : ItemsSound e n) (d : Dict) (ts : Tokens) : Gives (ofEntries d) e (n + 1) ts fun v us =>
    ∃ es g, v = .dict (es.foldl (fun d e => Entries.put e.1 e.2 d) d) ∧
      Took e (fun ws => ∃ rs, ws = rs ++ [⟨.closeBrace, g⟩] ∧ DictEntries rs es) ts us := by
  refine .succ (fun _ _ _ => entries_eq _ _ _ d) ((key_sound ts).andThen fun k us ⟨t, hts, hk, _⟩ => ?_)
  subst hts
  refine .expecting fun g _ _ us' hus _ => (ih.item us').andThen fun v rest ⟨cs, hus', hi, _⟩ => .look ?_
  subst hus hus'
  refine .seeing (fun g' _ _ rest' hrest => .take fun _ => ?_) fun _ => ?_
  · subst hrest
    refine (ih.entries _ rest').weaken fun u us ⟨es, g'', hu, h⟩ => ⟨(k, v) :: es, g'', hu, ?_⟩
    refine .cons (.cons (.after cs (.cons (h.weaken ?_))))
    rintro _ ⟨ws, rfl, hes⟩
    exact ⟨t.word :: ⟨.colon, g⟩ :: (wordsOf cs ++ ⟨.comma, g'⟩ :: ws), by simp, .more hk hi hes⟩
  · refine .expecting fun g' _ _ rest' hrest ha => .result ⟨[(k, v)], g', rfl, ?_⟩
    subst hrest
    exact .cons (.cons (.after cs (.one ⟨t.word :: ⟨.colon, g⟩ :: wordsOf cs, by simp, .last hk hi⟩ ha)))

end ItemsSound

theorem itemsSound (e : Ending) (n : Nat) : ItemsSound e n := by
  induction n with
  | zero => constructor <;> intros <;> exact nofun
  | succ n ih => exact ⟨ih.item_succ, ih.moreItems_succ, ih.group_succ, ih.dictionary_succ, ih.entries_succ⟩

theorem list_sound {t : Located} (ts : Tokens) (ht : t.token = .openBracket) :
    Gives list e n (t :: ts) fun v us => Took e (RightSide · v) (t :: ts) us := by
  obtain ⟨_, g, _, _⟩ := t
  obtain rfl := ht
  cases n with
  | zero => exact nofun
  | succ n =>
    have hsound := itemsSound e n
    refine .succ list_eq (.take fun _ => .look (.seeing (fun g' _ _ us hts => ?_) fun _ => ?_))
    · subst hts
      exact .take fun ha => .result (.cons (.one (.emptyList g g') ha))
    · refine (hsound.item ts).andThen fun v us ⟨cs, hts, hi, ha⟩ => ?_
      refine (hsound.moreItems ha).andThen fun vs rest ⟨h, _⟩ => ?_
      refine .expecting fun g' _ _ rest' hrest ha' => .result ?_
      subst hts hrest
      exact .cons (.after cs (.snoc (h.weaken fun ws hm => by simpa using RightSide.list hi hm) ha'))

theorem rightSide_sound (ts : Tokens) : Gives rightSide e n ts fun v us => Took e (RightSide · v) ts us := by
  cases n with
  | zero => exact nofun
  | succ n =>
    have hsound := itemsSound e n
    refine .succ rightSide_eq (.look (.seeing (fun g _ _ us hts => ?_) fun _ => ?_))
    · subst hts
      exact list_sound us rfl
    · refine (hsound.item ts).andThen fun v us ⟨cs, hts, hi, ha⟩ => .look (.ite (fun hcomma => ?_) fun _ => ?_)
      · refine (hsound.moreItems ha).andThen fun vs rest ⟨h, hvs⟩ => .result ?_
        subst hts
        exact .after cs (h.weaken fun _ hm => .bare hi hm (hvs hcomma))
      · exact .result ⟨cs, hts, .item hi, ha⟩

theorem add_eq_ok {b b' : Block} {s : String} {v : Value} :
    b.add s v = .ok b' ↔ s ∉ Entries.keys b ∧ b' = b ++ [(s, v)] := by
  have hb : b.binds s = true ↔ s ∈ Entries.keys b := Entries.binds_iff_mem_keys
  by_cases hs : s ∈ Entries.keys b
  · simp [Block.add, hb.2 hs, hs]
  · simp [Block.add, hb, hs, eq_comm]

/-- The readers of statements. Statements go after the block `b` read so far, and share no name
with it. -/
structure StatementsSound (e : Ending) (n : Nat) : Prop where
  statements (nested : Bool) (b : Block) {ts : Tokens} : e.Ahead ts →
    Gives (ofStatements nested b) e n ts fun b' us => ∃ c, b' = b ++ c ∧ (∀ s ∈ Entries.keys c, s ∉ Entries.keys b) ∧
      (nested = false → us = []) ∧ Took e (Statements · c) ts us
  assignment (t : Located) (ts : Tokens) :
    Gives assignment e n (t :: ts) fun v us => Took e (Binding · v) ts us

namespace StatementsSound

theorem statements_succ (ih : StatementsSound e n) (nested : Bool) (b : Block) (ha : e.Ahead ts) :
    Gives (ofStatements nested b) e (n + 1) ts fun b' us =>
      ∃ c, b' = b ++ c ∧ (∀ s ∈ Entries.keys c, s ∉ Entries.keys b) ∧ (nested = false → us = []) ∧
        Took e (Statements · c) ts us := by
  refine .succ (fun _ _ _ => statements_eq _ _ _ nested b) (.look ?_)
  cases ts with
  | nil =>
    refine .ite (fun _ => .blame _) fun _ => .result ⟨[], by simp, by simp, fun _ => rfl, .none .nil ha⟩
  | cons t ts =>
    obtain ⟨k, g, p, q⟩ := t
    cases k with
    | comment s =>
      refine .take fun ha => (ih.statements nested b ha).weaken fun b' us ⟨c, hb', hdis, hend, h⟩ => ?_
      exact ⟨c, hb', hdis, hend, .cons (h.weaken fun _ => .comment)⟩
    | name s =>
      refine (ih.assignment _ ts).andThen fun v us ⟨cs, hts, hbind, ha⟩ => ?_
      cases hadd : b.add s v with
      | error f => exact .fail _
      | ok b₁ =>
        obtain ⟨hnew, rfl⟩ := add_eq_ok.1 hadd
        refine (ih.statements nested _ ha).weaken fun b' rest ⟨c, hb', hdis, hend, h⟩ => ?_
        have hfresh : s ∉ Entries.keys c := fun hc => hdis s hc (by simp)
        refine ⟨(s, v) :: c, by simp [hb'], ?_, hend, ?_⟩
        · rintro k hk
          rcases List.mem_cons.1 hk with rfl | hk
          · exact hnew
          · exact fun hb => hdis k hk (by simp [hb])
        · subst hts
          exact .cons (.after cs (h.weaken fun _ => .bind hfresh hbind))
    | closeBrace =>
      refine .ite (fun hnested => .ite (fun _ => .result ?_) fun _ => .blame _) fun _ => .blame _
      exact ⟨[], by simp, by simp, by simp [hnested], .none .nil ha⟩
    | _ => exact .ite (fun _ => .ite nofun fun _ => .blame _) fun _ => .blame _

theorem assignment_succ (ih : StatementsSound e n) (t : Located) (ts : Tokens) :
    Gives CaseSetup.assignment e (n + 1) (t :: ts) fun v us => Took e (Binding · v) ts us := by
  refine .succ assignment_eq (.take fun _ => .look (.seeing (fun g _ _ us hts => ?_) fun _ => ?_))
  · subst hts
    exact .take fun _ => (rightSide_sound us).weaken fun v rest h => .cons (h.weaken fun _ => .assign)
  · refine .seeing (fun g _ _ us hts => ?_) fun _ => .blame _
    refine .take fun ha => (ih.statements true [] ha).andThen fun b us' ⟨c, hb, _, _, h⟩ => ?_
    refine .expecting fun g' _ _ rest hus' ha' => .result ?_
    subst hts hus' hb
    exact .cons (.snoc (h.weaken fun _ => .nested) ha')

end StatementsSound

theorem statementsSound (e : Ending) (n : Nat) : StatementsSound e n := by
  induction n with
  | zero => constructor <;> intros <;> exact nofun
  | succ n ih => exact ⟨fun nested b _ => ih.statements_succ nested b, ih.assignment_succ⟩

end Grammar

/-- The document that the tokens of a scan hold. -/
def Scan.document (s : Scan) : Except Fault Block := s.read fun e n => statements e false n []

/-- What a scan is read as is what its tokens are read as. -/
theorem Scan.read_eq_ok {α : Type} {s : Scan} {R : Reader α} {a : α} (h : s.read R = .ok a) :
    s.ending.Ahead s.tokens ∧ ∃ us, R s.ending s.depth s.tokens = .ok (a, us) := by
  unfold read at h
  split at h
  · rename_i a' us hread
    cases h
    obtain ⟨_, hresume, hread'⟩ := Outcome.bind_eq_ok.1 hread
    obtain ⟨rfl, ha⟩ := Ending.resume_eq_ok.1 hresume
    exact ⟨ha, us, hread'⟩
  · cases h
  · cases h

/-- A scan that is read as a document ends well, and its words are the document that was read. -/
theorem Scan.document_sound {s : Scan} {b : Block} (h : s.document = .ok b) :
    (∃ p, s.ending = .clean p) ∧ Grammar.Document s.words b := by
  obtain ⟨ha, us, hread⟩ := read_eq_ok h
  obtain ⟨c, rfl, -, hend, cs, hts, hst, ha'⟩ := (Grammar.statementsSound _ _).statements false [] ha hread
  obtain rfl := hend rfl
  rw [List.append_nil] at hts
  rw [words, hts]
  exact ⟨ha'.clean, hst⟩

/-- A text that parses ends well, and its words are the document that was read. -/
theorem Block.document_of_parse {text : String} {b : Block} (h : Block.parse text = .ok b) :
    (∃ p, (Scan.ofText text).ending = .clean p) ∧ Grammar.Document (Scan.ofText text).words b :=
  Scan.document_sound h

theorem Value.rightSide_of_parse {text : String} {v : Value} (h : Value.parse text = .ok v) :
    (∃ p, (Scan.ofText text).ending = .clean p) ∧ Grammar.RightSide (Scan.ofText text).words v := by
  obtain ⟨-, us, hread⟩ := Scan.read_eq_ok h
  obtain ⟨⟨v', us'⟩, hright, hend⟩ := Outcome.bind_eq_ok.1 hread
  obtain ⟨cs, hts, hv, ha⟩ := Grammar.rightSide_sound _ hright
  dsimp only at hend
  split at hend
  · rename_i hempty
    obtain rfl := Ending.peek_eq_none.1 hempty
    cases hend
    rw [List.append_nil] at hts
    rw [Scan.words, hts]
    exact ⟨ha.clean, hv⟩
  · cases hend

end CaseSetup
