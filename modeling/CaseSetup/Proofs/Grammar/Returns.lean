import CaseSetup.Proofs.Grammar.Calls

/-! # Reading returns

With every call that a reader makes, the tokens ahead get fewer or the rank of the reader falls. So a
chain of calls comes back to a reader only after a token is taken, and holds fewer than five calls for
each token ahead and five more: a reader with that depth returns, whatever stands in the text. -/

namespace CaseSetup

namespace Ending

variable {e : Ending} {ts us : Tokens} {k : Token}

theorem bump_eq_tail (h : e.bump ts = .ok us) : us = ts.tail := (bump_eq_ok.1 h).1

theorem bump_suffix (h : e.bump ts = .ok us) : us <:+ ts := by
  rw [bump_eq_tail h]
  exact List.tail_suffix ts

theorem length_tail_lt (h : e.peek ts = some k) : ts.tail.length < ts.length := by
  obtain ⟨t, us, rfl, -⟩ := peek_eq_some.1 h
  exact Nat.lt_succ_self _

/-- What is seen ahead is taken. -/
theorem length_bump_lt (hk : e.peek ts = some k) (h : e.bump ts = .ok us) : us.length < ts.length := by
  rw [bump_eq_tail h]
  exact length_tail_lt hk

end Ending

namespace Grammar

open Reader

variable {e : Ending} {n : Nat} {ts us vs : Tokens} {k : Key} {x : Infix} {v : Value}

theorem Took.suffix {P : Words → Prop} (h : Took e P ts us) : us <:+ ts :=
  let ⟨cs, hts, _⟩ := h
  ⟨cs, hts.symm⟩

theorem unary_suffix (h : unary e n ts = .ok (v, us)) : us <:+ ts := ((expressionsSound e n).unary ts h).suffix

theorem peek_of_infix? (h : (e.front ts).infix? = some x) : ∃ k, e.peek ts = some k := by
  cases ts with
  | nil => cases h
  | cons t ts => exact ⟨t.token, rfl⟩

theorem rightOperand_suffix (hx : (e.front ts).infix? = some x) (hus : e.bump ts = .ok us)
    (h : rightOperand x e n us = .ok (v, vs)) : vs <:+ us := by
  obtain ⟨k, hk⟩ := peek_of_infix? hx
  obtain ⟨t, rest, rfl, -⟩ := Ending.peek_eq_some.1 hk
  obtain ⟨js, -, hb⟩ := joins_of_infix? hx
  obtain ⟨rfl, ha⟩ := Ending.resume_eq_ok.1 hus
  exact ((expressionsSound e n).rightOperand hb ha h).1.suffix

theorem item_suffix (h : item e n ts = .ok (v, us)) : us <:+ ts := ((itemsSound e n).item ts h).suffix

/-- A key is one token. -/
theorem key_tail (h : key e ts = .ok (k, us)) : ∃ t, ts = t :: us :=
  let ⟨t, hts, _⟩ := key_sound (n := 0) ts h
  ⟨t, hts⟩

theorem assignment_suffix {t : Token} (ht : e.peek ts = some t) (h : assignment e n ts = .ok (v, us)) :
    us <:+ ts.tail := by
  obtain ⟨t, rest, rfl, -⟩ := Ending.peek_eq_some.1 ht
  exact ((statementsSound e n).assignment t rest h).suffix

end Grammar

namespace Call

variable {c : Call} {ts : Tokens}

/-- Readers that call others with the same tokens ahead have a higher rank than those. -/
def Kind.rank : Kind → Nat
  | unary | dictionary => 1
  | binary => 2
  | item => 3
  | group | list | rightSide => 4
  | _ => 0

theorem Kind.rank_le (k : Kind) : k.rank ≤ 4 := by
  cases k <;> decide

/-- Readers that take a token before they look at one. -/
def Kind.takesFirst : Kind → Bool
  | group | dictionary | list | assignment => true
  | _ => false

/-- The tokens ahead when a reader first looks at one. -/
def ahead (c : Call) : Tokens := bif c.kind.takesFirst then c.tokens.tail else c.tokens

theorem length_ahead_le (c : Call) : c.ahead.length ≤ c.tokens.length := by
  unfold ahead
  cases c.kind.takesFirst
  · exact Nat.le_refl _
  · exact (List.tail_suffix c.tokens).length_le

/-- The calls that may still be made, one inside the other. -/
def weight (c : Call) : Nat := 5 * c.ahead.length + c.kind.rank

theorem weight_lt (c : Call) : c.weight < 5 * (c.tokens.length + 1) := by
  have hrank := c.kind.rank_le
  have hlength := c.length_ahead_le
  unfold weight
  omega

@[simp] theorem tokens_rightOperand (x : Infix) : (rightOperand x ts).tokens = ts := by
  cases x <;> rfl

@[simp] theorem ahead_rightOperand (x : Infix) : (rightOperand x ts).ahead = ts := by
  cases x <;> rfl

end Call

namespace Calls

open Call

variable {e : Ending} {c d : Call} {ds : List Call}

theorem suffix (h : Calls e c d) : d.tokens <:+ c.tokens := by
  cases h with
  | inParens _ hus | negated _ hus | nextItem _ hus | inGroup hus | inBraces hus | inBrackets hus
  | afterComment _ hus =>
    exact Ending.bump_suffix hus
  | toPrimary | firstOperand | toDictionary | toGroup | toExpression | toList | bareItem | bound =>
    exact List.suffix_rfl
  | afterFirst hv => exact Grammar.unary_suffix hv
  | rightOperand _ _ hus =>
    rw [tokens_rightOperand]
    exact Ending.bump_suffix hus
  | afterRight hx _ hus hv => exact (Grammar.rightOperand_suffix hx hus hv).trans (Ending.bump_suffix hus)
  | afterItem _ hus hv | restOfGroup hus hv | restOfList hus _ hv =>
    exact (Grammar.item_suffix hv).trans (Ending.bump_suffix hus)
  | afterGroup hus hv _ _ hws =>
    exact (Ending.bump_suffix hws).trans ((Grammar.item_suffix hv).trans (Ending.bump_suffix hus))
  | entry hk _ hvs =>
    obtain ⟨t, rfl⟩ := Grammar.key_tail hk
    exact (Ending.bump_suffix hvs).trans (List.suffix_cons ..)
  | nextEntry hk _ hvs hv _ hxs =>
    obtain ⟨t, rfl⟩ := Grammar.key_tail hk
    exact (Ending.bump_suffix hxs).trans
      ((Grammar.item_suffix hv).trans ((Ending.bump_suffix hvs).trans (List.suffix_cons ..)))
  | restOfBare _ hv => exact Grammar.item_suffix hv
  | afterBound ht hv => exact (Grammar.assignment_suffix ht hv).trans (List.tail_suffix _)
  | assigned hus _ hvs | inBlock hus _ hvs => exact (Ending.bump_suffix hvs).trans (Ending.bump_suffix hus)

/-- A call takes a token before it makes another call, or makes one of a reader of lower rank. -/
theorem falls (h : Calls e c d) : d.ahead.length < c.ahead.length ∨
    d.ahead.length ≤ c.ahead.length ∧ d.kind.rank < c.kind.rank := by
  cases h with
  | inParens ht hus | negated ht hus | nextItem ht hus | afterComment ht hus =>
    exact .inl (Ending.length_bump_lt ht hus)
  | toPrimary | firstOperand | toExpression | bareItem => exact .inr ⟨Nat.le_refl _, by simp [kind, Kind.rank]⟩
  | afterFirst hv => exact .inr ⟨(Grammar.unary_suffix hv).length_le, by simp [kind, Kind.rank]⟩
  | rightOperand hx _ hus =>
    obtain ⟨k, hk⟩ := Grammar.peek_of_infix? hx
    rw [ahead_rightOperand]
    exact .inl (Ending.length_bump_lt hk hus)
  | afterRight hx _ hus hv =>
    obtain ⟨k, hk⟩ := Grammar.peek_of_infix? hx
    exact .inl ((Grammar.rightOperand_suffix hx hus hv).length_le.trans_lt (Ending.length_bump_lt hk hus))
  | toDictionary ht | toGroup ht | toList ht | bound ht => exact .inl (Ending.length_tail_lt ht)
  | afterItem ht hus hv => exact .inl ((Grammar.item_suffix hv).length_le.trans_lt (Ending.length_bump_lt ht hus))
  | inGroup hus | inBraces hus | inBrackets hus =>
    obtain rfl := Ending.bump_eq_tail hus
    exact .inr ⟨Nat.le_refl _, by simp [kind, Kind.rank]⟩
  | restOfGroup hus hv | restOfList hus _ hv =>
    obtain rfl := Ending.bump_eq_tail hus
    exact .inr ⟨(Grammar.item_suffix hv).length_le, by simp [kind, Kind.rank]⟩
  | afterGroup hus hv _ _ hws =>
    obtain rfl := Ending.bump_eq_tail hus
    exact .inr ⟨((Ending.bump_suffix hws).trans (Grammar.item_suffix hv)).length_le, by simp [kind, Kind.rank]⟩
  | entry hk _ hvs =>
    obtain ⟨t, rfl⟩ := Grammar.key_tail hk
    exact .inl (Nat.lt_succ_of_le (Ending.bump_suffix hvs).length_le)
  | nextEntry hk _ hvs hv _ hxs =>
    obtain ⟨t, rfl⟩ := Grammar.key_tail hk
    exact .inl (Nat.lt_succ_of_le
      ((Ending.bump_suffix hxs).trans ((Grammar.item_suffix hv).trans (Ending.bump_suffix hvs))).length_le)
  | restOfBare _ hv => exact .inr ⟨(Grammar.item_suffix hv).length_le, by simp [kind, Kind.rank]⟩
  | afterBound ht hv => exact .inl ((Grammar.assignment_suffix ht hv).length_le.trans_lt (Ending.length_tail_lt ht))
  | assigned hus ht hvs | inBlock hus ht hvs =>
    obtain rfl := Ending.bump_eq_tail hus
    exact .inl (Ending.length_bump_lt ht hvs)

theorem weight_lt (h : Calls e c d) : d.weight < c.weight := by
  have hrank := d.kind.rank_le
  unfold weight
  rcases h.falls with hlength | ⟨hlength, hfall⟩ <;> omega

/-- A chain of calls that comes back to a reader has taken a token. -/
theorem exists_taken (h : Relation.TransGen (Calls e) c d) (hk : d.kind = c.kind) :
    ∃ us, us ≠ [] ∧ c.tokens = us ++ d.tokens := by
  have hfalls : d.tokens <:+ c.tokens ∧ d.weight < c.weight := by
    clear hk
    induction h with
    | single h => exact ⟨h.suffix, h.weight_lt⟩
    | tail _ h ih => exact ⟨h.suffix.trans ih.1, h.weight_lt.trans ih.2⟩
  obtain ⟨⟨us, hus⟩, hlt⟩ := hfalls
  refine ⟨us, ?_, hus.symm⟩
  rintro rfl
  rw [List.nil_append] at hus
  simp [weight, ahead, hus, hk] at hlt

/-- Readers that take a token before they look at one are called only with one ahead. -/
theorem tokens_ne_nil (h : Calls e c d) (hd : d.kind.takesFirst) : d.tokens ≠ [] := by
  cases h with
  | toDictionary ht | toGroup ht | toList ht | bound ht =>
    obtain ⟨t, ts, rfl, -⟩ := Ending.peek_eq_some.1 ht
    exact List.cons_ne_nil t ts
  | @rightOperand _ _ _ _ x => cases x <;> cases hd
  | _ => cases hd

/-- A chain of calls is no longer than the weight of its first one. -/
theorem length_le_weight (h : (c :: ds).IsChain (Calls e)) : ds.length ≤ c.weight := by
  induction ds generalizing c with
  | nil => exact Nat.zero_le _
  | cons d ds ih =>
    obtain ⟨hcd, hds⟩ := List.isChain_cons_cons.1 h
    have hle := ih hds
    have hlt := hcd.weight_lt
    rw [List.length_cons]
    omega

end Calls

theorem Call.not_exhausts {e : Ending} {n : Nat} {c : Call} (hn : 5 * (c.tokens.length + 1) ≤ n) :
    ¬c.Exhausts e n := by
  intro h
  obtain ⟨ds, rfl, hds⟩ := h.exists_chain
  have hle := Calls.length_le_weight hds
  have hlt := c.weight_lt
  omega

variable {α : Type}

/-- What the reader `R` makes of the scan with the depth `n`. -/
def Scan.readAt (s : Scan) (R : Reader α) (n : Nat) : Except Stop α :=
  Prod.fst <$> (s.ending.resume s.tokens >>= R s.ending n)

/-- The reader of documents. -/
def Block.reader : Reader Block := fun e n ts => statements e false n [] ts

/-- The reader of a value that is all of a text. -/
def Value.reader : Reader Value := fun e n ts => do
  let (v, ts) ← rightSide e n ts
  if e.peek ts = none then return (v, ts) else .error (e.unexpected ts .valueEnd)

theorem Value.steady_reader {e : Ending} {n : Nat} {ts : Tokens} : Reader.Steady Value.reader e n ts := by
  have heq : Value.reader = Reader.andThen rightSide fun v => .look fun s =>
      if s.token = none then .result v else .blame .valueEnd := by
    refine Reader.ext fun e n ts => Reader.andThen_of rightSide fun v us => ?_
    rw [Reader.look_run, Reader.ite_run]
    rfl
  rw [heq]
  refine .andThen (Reader.Steady.each e n).rightSide fun v us _ => Reader.Steady.closed.look (c := 0) ?_
  split
  · exact fun _ => rfl
  · exact fun _ => rfl

theorem Ending.resume_ne_depth (e : Ending) (ts : Tokens) : e.resume ts ≠ .error .depth := by
  cases ts <;> cases e <;> simp [resume]

/-- A steady reader that returns with the depth of a scan comes out the same with more. -/
theorem Scan.readAt_eq {s : Scan} {R : Reader α} {n : Nat} (hs : ∀ n, Reader.Steady R s.ending n s.tokens)
    (hd : R s.ending s.depth s.tokens ≠ .error .depth) (hn : s.depth ≤ n) :
    s.readAt R n = (s.read R).mapError .fault := by
  have heq : R s.ending n s.tokens = R s.ending s.depth s.tokens := Reader.Steady.run_eq hs hd hn
  have hrun : (s.ending.resume s.tokens >>= R s.ending n) = s.ending.resume s.tokens >>= R s.ending s.depth := by
    cases hresume : s.ending.resume s.tokens with
    | error err => rfl
    | ok us =>
      obtain ⟨rfl, -⟩ := Ending.resume_eq_ok.1 hresume
      exact heq
  have hne : s.ending.resume s.tokens >>= R s.ending s.depth ≠ .error .depth := by
    intro h
    rcases Outcome.bind_eq_error.1 h with h | ⟨us, hus, h⟩
    · exact Ending.resume_ne_depth _ _ h
    · obtain ⟨rfl, -⟩ := Ending.resume_eq_ok.1 hus
      exact hd h
  unfold readAt read
  rw [hrun]
  split
  · rename_i h
    rw [h]
    rfl
  · rename_i h
    rw [h]
    rfl
  · rename_i h
    exact absurd h hne

theorem Block.readAt_reader (text : String) {n : Nat} (hn : (Scan.ofText text).depth ≤ n) :
    (Scan.ofText text).readAt Block.reader n = (Block.parse text).mapError .fault := by
  refine Scan.readAt_eq (fun n => (Reader.Steady.each _ n).statements false []) ?_ hn
  exact Call.not_exhausts (c := .statements false [] (Scan.ofText text).tokens) (Nat.le_refl _)

theorem Value.readAt_reader (text : String) {n : Nat} (hn : (Scan.ofText text).depth ≤ n) :
    (Scan.ofText text).readAt Value.reader n = (Value.parse text).mapError .fault := by
  refine Scan.readAt_eq (fun _ => Value.steady_reader) (fun h => ?_) hn
  rcases Outcome.bind_eq_error.1 h with h | ⟨⟨v, us⟩, -, h⟩
  · exact Call.not_exhausts (c := .rightSide (Scan.ofText text).tokens) (Nat.le_refl _) h
  · dsimp only at h
    split at h <;> cases h

/-- Reading a text as a document or as a value returns: with any depth from that of the scan on, the reader
comes out as `parse` does. The depth is the calls made one inside the other. They are fewer than five for
each token ahead and five more, and they come back to a reader, in a round of its loop or from within, only
if a token was taken in between. At the end of the text `bump` takes none, so no reader that has come there
is come back to; and those that take a token before they look are called only where there is one. -/
theorem Scan.reading_returns (text : String) :
    (∀ n, (ofText text).depth ≤ n →
      (ofText text).readAt Block.reader n = (Block.parse text).mapError .fault ∧
      (ofText text).readAt Value.reader n = (Value.parse text).mapError .fault) ∧
    ∀ e : Ending,
      (e.bump [] = .ok [] ∧ ∀ t ts us, e.bump (t :: ts) = .ok us → us = ts) ∧
      ∀ c : Call,
        (∀ n, c.Exhausts e n → ∃ ds : List Call, ds.length = n ∧ (c :: ds).IsChain (Calls e)) ∧
        (∀ ds : List Call, (c :: ds).IsChain (Calls e) → ds.length < 5 * (c.tokens.length + 1)) ∧
        (∀ d, Relation.TransGen (Calls e) c d → d.kind = c.kind →
          c.tokens ≠ [] ∧ ∃ us, us ≠ [] ∧ c.tokens = us ++ d.tokens) ∧
        ∀ d, Calls e c d → d.kind.takesFirst → d.tokens ≠ [] := by
  refine ⟨fun n hn => ⟨Block.readAt_reader text hn, Value.readAt_reader text hn⟩, fun e => ⟨⟨rfl, ?_⟩, ?_⟩⟩
  · exact fun t ts us h => Ending.bump_eq_tail h
  refine fun c => ⟨?_, ?_, ?_, ?_⟩
  · exact fun n h => h.exists_chain
  · exact fun ds h => (Calls.length_le_weight h).trans_lt c.weight_lt
  · intro d h hk
    obtain ⟨us, hus, htokens⟩ := Calls.exists_taken h hk
    refine ⟨?_, us, hus, htokens⟩
    rw [htokens]
    exact List.append_ne_nil_of_left_ne_nil hus _
  · exact fun d h hd => h.tokens_ne_nil hd

/-- A sum that breaks off: two rounds of the loop over its operators, and what is called in the second. -/
theorem Scan.reading_returns_sum :
    let e : Ending := .clean ⟨1, 10⟩
    let plus : Located := ⟨.plus, none, ⟨1, 6⟩, ⟨1, 7⟩⟩
    let two : Located := ⟨.int 2, none, ⟨1, 8⟩, ⟨1, 9⟩⟩
    let minus : Located := ⟨.minus, none, ⟨1, 10⟩, ⟨1, 10⟩⟩
    let name : Located := ⟨.name "x", none, ⟨1, 0⟩, ⟨1, 1⟩⟩
    let first : Call := .climb lowest (.int 1) [plus, two, minus]
    let second : Call := .climb lowest (.binary .add (.int 1) (.int 2)) [minus]
    ((ofText "x = 1 + 2 -").depth ≤ 40 ∧
      (ofText "x = 1 + 2 -").readAt Block.reader 40 = (Block.parse "x = 1 + 2 -").mapError .fault ∧
      (ofText "x = 1 + 2 -").readAt Value.reader 40 = (Value.parse "x = 1 + 2 -").mapError .fault) ∧
    (e.bump [] = .ok [] ∧ e.bump [minus] = .ok []) ∧
    (Call.Exhausts e 2 first ∧ ∃ ds : List Call, ds.length = 2 ∧ (first :: ds).IsChain (Calls e)) ∧
    ([first, second, .binary 2 [], .unary [], .primary []].IsChain (Calls e) ∧ 4 < 5 * (3 + 1)) ∧
    (Relation.TransGen (Calls e) first second ∧ [plus, two, minus] ≠ [] ∧
      ∃ us, us ≠ [] ∧ [plus, two, minus] = us ++ [minus]) ∧
    Calls e (.statements false [] [name]) (.assignment [name]) ∧ [name] ≠ [] := by
  intro e plus two minus name first second
  have hdepth : (ofText "x = 1 + 2 -").depth ≤ 40 := by decide +kernel
  have hexhausts : Call.Exhausts e 2 first := rfl
  have hround : Calls e first second := .afterRight (x := .operator .add) (n := 3) rfl (by decide) rfl rfl
  have hchain : [first, second, .binary 2 [], .unary [], .primary []].IsChain (Calls e) :=
    .cons_cons hround <| .cons_cons (.rightOperand (x := .operator .sub) rfl (by decide) rfl) <|
      .cons_cons .firstOperand <| .cons_cons (.toPrimary nofun) <| .singleton _
  have htrans : Relation.TransGen (Calls e) first second := .single hround
  obtain ⟨hreads, hcalls⟩ := reading_returns "x = 1 + 2 -"
  obtain ⟨⟨hend, -⟩, hcall⟩ := hcalls e
  obtain ⟨hchains, hbound, hback, -⟩ := hcall first
  obtain ⟨-, -, -, hahead⟩ := hcall (.statements false [] [name])
  have hcalled : Calls e (.statements false [] [name]) (.assignment [name]) := .bound rfl
  exact ⟨⟨hdepth, hreads 40 hdepth⟩, ⟨hend, rfl⟩, ⟨hexhausts, hchains 2 hexhausts⟩, ⟨hchain, hbound _ hchain⟩,
    ⟨htrans, hback _ htrans rfl⟩, hcalled, hahead _ hcalled rfl⟩

end CaseSetup
