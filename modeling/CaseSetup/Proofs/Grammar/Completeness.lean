import CaseSetup.Proofs.Grammar.Returns
import Mathlib.Data.Set.Subsingleton

/-! # What is grammatical is read

Over a text that ends well, a reader with depth enough takes exactly the words of a phrase and gives
its value. The depth that a scan allows is enough for every reader, so a document has one block. -/

namespace CaseSetup

section

variable {p : Position} {ts : Tokens}

@[simp] theorem Ending.resume_clean : (Ending.clean p).resume ts = .ok ts := by
  cases ts <;> rfl

@[simp] theorem Ending.ahead_clean : (Ending.clean p).Ahead ts := Ending.resume_clean

end

namespace Reader

variable {α β : Type} {A R : Reader α} {p : Position} {t : Located} {ts us vs : Tokens} {a : α}

/-- With every depth from some one on, `R` takes the tokens `ts` up to `us` and gives `a`. -/
def Reads (R : Reader α) (p : Position) (ts : Tokens) (a : α) (us : Tokens) : Prop :=
  ∃ k, ∀ n, k ≤ n → R (.clean p) n ts = .ok (a, us)

namespace Reads

theorem result (a : α) : Reads (result a) p ts a ts := ⟨0, fun _ _ => rfl⟩

theorem look {f : Sight → Reader α} (h : Reads (f ((Ending.clean p).front ts)) p ts a us) :
    Reads (look f) p ts a us := h

theorem succ (heq : ∀ e n ts, R e (n + 1) ts = A e n ts) (h : Reads A p ts a us) : Reads R p ts a us := by
  obtain ⟨k, hk⟩ := h
  refine ⟨k + 1, fun n hn => ?_⟩
  obtain ⟨m, rfl⟩ : ∃ m, n = m + 1 := ⟨n - 1, by omega⟩
  rw [heq]
  exact hk m (by omega)

theorem take (h : Reads R p ts a us) : Reads (take R) p (t :: ts) a us := by
  obtain ⟨k, hk⟩ := h
  refine ⟨k, fun n hn => ?_⟩
  show (Ending.clean p).resume ts >>= R (.clean p) n = _
  rw [Ending.resume_clean]
  exact hk n hn

theorem andThen {B : α → Reader β} {b : β} (hA : Reads A p ts a us) (hB : Reads (B a) p us b vs) :
    Reads (andThen A B) p ts b vs := by
  obtain ⟨k, hk⟩ := hA
  obtain ⟨l, hl⟩ := hB
  refine ⟨max k l, fun n hn => ?_⟩
  show A (.clean p) n ts >>= _ = _
  rw [hk n (by omega)]
  exact hl n (by omega)

theorem seen {k : Token} {A B : Reader α} (hk : ((Ending.clean p).front ts).token = some k) (h : Reads A p ts a us) :
    Reads (if ((Ending.clean p).front ts).token = some k then A else B) p ts a us := by
  rwa [if_pos hk]

theorem unseen {k : Token} {A B : Reader α} (hk : ((Ending.clean p).front ts).token ≠ some k) (h : Reads B p ts a us) :
    Reads (if ((Ending.clean p).front ts).token = some k then A else B) p ts a us := by
  rwa [if_neg hk]

theorem expecting {k : Token} {x : Expected} (ht : t.token = k) (h : Reads R p ts a us) :
    Reads (expecting k x R) p (t :: ts) a us :=
  .look (.seen (congrArg some ht) h.take)

end Reads

end Reader

namespace Grammar

open Reader

theorem wordsOf_eq_cons {us : Tokens} {w : Word} {ws : Words} (h : wordsOf us = w :: ws) :
    ∃ a b us', us = ⟨w.token, w.sign, a, b⟩ :: us' ∧ wordsOf us' = ws := by
  obtain ⟨⟨k, g, a, b⟩, us', rfl, rfl, hus'⟩ := List.map_eq_cons_iff.1 h
  exact ⟨a, b, us', rfl, hus'⟩

theorem wordsOf_eq_append {us : Tokens} {ws rs : Words} (h : wordsOf us = ws ++ rs) :
    ∃ us₁ us₂, us = us₁ ++ us₂ ∧ wordsOf us₁ = ws ∧ wordsOf us₂ = rs :=
  List.map_eq_append_iff.1 h

theorem wordsOf_eq_one {us : Tokens} {w : Word} (h : wordsOf us = [w]) : ∃ a b, us = [⟨w.token, w.sign, a, b⟩] := by
  obtain ⟨a, b, us', rfl, hus'⟩ := wordsOf_eq_cons h
  obtain rfl := List.map_eq_nil_iff.1 hus'
  exact ⟨a, b, rfl⟩

/-- Tokens whose words stand between two others. -/
theorem wordsOf_eq_enclosed {us : Tokens} {w w' : Word} {ws : Words} (h : wordsOf us = w :: (ws ++ [w'])) :
    ∃ a b us' a' b', us = ⟨w.token, w.sign, a, b⟩ :: (us' ++ [⟨w'.token, w'.sign, a', b'⟩]) ∧ wordsOf us' = ws := by
  obtain ⟨a, b, us, rfl, hus⟩ := wordsOf_eq_cons h
  obtain ⟨us, cs, rfl, hus', hcs⟩ := wordsOf_eq_append hus
  obtain ⟨a', b', rfl⟩ := wordsOf_eq_one hcs
  exact ⟨a, b, us, a', b', rfl, hus'⟩

/-- A word that joins operands is what goes on with an expression. -/
theorem infix?_of_joins {t : Located} {o : Op} {js : Words} (hj : Joins t.word o js) :
    ∃ x, t.seen.infix? = some x ∧ x.op = o ∧ Brings x js := by
  obtain ⟨k, g, a, b⟩ := t
  cases hj with
  | symbol ho =>
    refine ⟨.operator o, ?_, rfl, .operator o⟩
    simp [Located.seen, Sight.infix?, show k.op? = some o from ho]
  | glued hs =>
    cases hs with
    | plusInt n => exact ⟨.signed .add (.int n), rfl, rfl, .int _ n⟩
    | minusInt hn =>
      refine ⟨.signed .sub (.int _), ?_, rfl, .int _ _⟩
      simp [Located.seen, Sight.infix?, Token.op?, Sign.split?, hn]
    | plusFloat x => exact ⟨.signed .add (.float x.abs), rfl, rfl, .float _ _⟩
    | minusFloat x => exact ⟨.signed .sub (.float x.abs), rfl, rfl, .float _ _⟩

variable {pos : Position} {p q : Nat} {t : Located} {us ts rest : Tokens} {ws : Words} {l v r : Value}

theorem below_of_infix? {e : Ending} (h : (e.front ts).infix? = none) : Below e p ts := by
  intro x hx
  rw [h] at hx
  cases hx

/-- Tokens that may follow an item. -/
def separates : Token → Bool
  | .comma | .closeParen | .closeBracket | .closeBrace | .name _ | .comment _ => true
  | _ => false

/-- No operator is seen where an item may end. -/
theorem below_cons {e : Ending} (h : separates t.token) : Below e p (t :: ts) := by
  obtain ⟨k, g, a, b⟩ := t
  cases k with
  | comma | closeParen | closeBracket | closeBrace | name | comment => cases g <;> exact below_of_infix? rfl
  | _ => cases h

theorem below_nil {e : Ending} : Below e p [] := below_of_infix? rfl

theorem reads_unary (h : (Ending.clean pos).peek ts ≠ some .minus) (hp : Reads primary pos ts v us) :
    Reads unary pos ts v us :=
  .succ unary_eq (.look (.unseen h hp))

theorem reads_climb_end (h : Below (.clean pos) p ts) : Reads (ofClimb p v) pos ts v ts := by
  refine .succ (fun _ _ _ => climb_eq _ _ _ p v) (.look ?_)
  cases hx : ((Ending.clean pos).front ts).infix? with
  | none => exact .result v
  | some x =>
    dsimp only
    rw [if_pos (h x hx)]
    exact .result v

/-- What an operand leaves is climbed. -/
theorem reads_climb_of_binary (hu : Reads unary pos (t :: ts) v ts) (h : Reads (ofBinary p) pos (t :: ts) r rest) :
    Reads (ofClimb p v) pos ts r rest := by
  obtain ⟨k, hk⟩ := hu
  obtain ⟨m, hm⟩ := h
  refine ⟨max k m, fun n hn => ?_⟩
  have hrun : unary (.clean pos) n (t :: ts) >>= (fun x => climb (.clean pos) n p x.1 x.2) = .ok (r, rest) :=
    hm (n + 1) (by omega)
  rwa [hk n (by omega)] at hrun

theorem reads_int {i : Int64} {g : Option Sign} {a b : Position} :
    Reads unary pos (⟨.int i, g, a, b⟩ :: ts) (.int i) ts :=
  reads_unary nofun (.succ primary_eq (.look (.take (.result _))))

theorem reads_float {x : Float} {g : Option Sign} {a b : Position} :
    Reads unary pos (⟨.float x, g, a, b⟩ :: ts) (.float x) ts :=
  reads_unary nofun (.succ primary_eq (.look (.take (.result _))))

/-- An operator and its right operand are read in one round of the loop. -/
theorem reads_round {o : Op} {js : Words} (hj : Joins t.word o js) (hp : p ≤ o.precedence) (hus : wordsOf us = ws)
    (hright : ∀ vs, wordsOf vs = js ++ ws → Reads (ofBinary (o.precedence + 1)) pos (vs ++ ts) v ts)
    (hnext : Reads (ofClimb p (.binary o l v)) pos ts r rest) :
    Reads (ofClimb p l) pos (t :: (us ++ ts)) r rest := by
  obtain ⟨x, hx, rfl, hb⟩ := infix?_of_joins hj
  refine .succ (fun _ _ _ => climb_eq _ _ _ p l) (.look ?_)
  have hx' : ((Ending.clean pos).front (t :: (us ++ ts))).infix? = some x := hx
  rw [hx']
  dsimp only
  rw [if_neg (Nat.not_lt.2 hp)]
  refine .take (.andThen ?_ hnext)
  cases hb with
  | operator o => exact hright us hus
  | int o n => exact reads_climb_of_binary reads_int (hright (⟨.int n, none, .start, .start⟩ :: us) (congrArg _ hus))
  | float o x =>
    exact reads_climb_of_binary reads_float (hright (⟨.float x, none, .start, .start⟩ :: us) (congrArg _ hus))

/-- Only operators that bind as tightly as `o` stand in front of a word that joins operands as `o`. -/
theorem below_of_joins {e : Ending} {o : Op} {js : Words} (hj : Joins t.word o js) :
    Below e (o.precedence + 1) (t :: ts) := by
  obtain ⟨x, hx, rfl, -⟩ := infix?_of_joins hj
  intro y hy
  obtain rfl : x = y := Option.some.inj (hx.symm.trans hy)
  exact Nat.lt_succ_self _

mutual
theorem Operand.reads {ws : Words} {v : Value} {us ts : Tokens} :
    Operand ws v → wordsOf us = ws → Reads unary pos (us ++ ts) v ts
  | .int i g, hus => by
    obtain ⟨a, b, rfl⟩ := wordsOf_eq_one hus
    exact reads_int
  | .float x g, hus => by
    obtain ⟨a, b, rfl⟩ := wordsOf_eq_one hus
    exact reads_float
  | .name s g, hus => by
    obtain ⟨a, b, rfl⟩ := wordsOf_eq_one hus
    exact reads_unary nofun (.succ primary_eq (.look (.take (.result _))))
  | .neg h, hus => by
    obtain ⟨a, b, us, rfl, hus'⟩ := wordsOf_eq_cons hus
    exact .succ unary_eq (.look (.seen rfl (.take (.andThen (h.reads hus') (.result _)))))
  | @Operand.parens g g' ws v h, hus => by
    obtain ⟨a, b, us, a', b', rfl, hus'⟩ := wordsOf_eq_enclosed hus
    have hin : Reads (ofBinary lowest) pos (us ++ ⟨.closeParen, g', a', b'⟩ :: ts) v _ :=
      h.reads hus' (Nat.le_refl _) (below_cons rfl) (reads_climb_end (below_cons rfl))
    rw [List.cons_append, List.append_assoc]
    exact reads_unary nofun (.succ primary_eq (.look (.take (.andThen hin (.expecting rfl (.result _))))))

/-- The tokens of an expression are read as its value, which is then the left operand of what follows. -/
theorem Expression.reads {p q : Nat} {ws : Words} {v r : Value} {us ts rest : Tokens} :
    Expression q ws v → wordsOf us = ws → p ≤ q → Below (.clean pos) (q + 1) ts → Reads (ofClimb p v) pos ts r rest →
      Reads (ofBinary p) pos (us ++ ts) r rest
  | .operand h, hus, _, _, hnext => .succ (fun _ _ _ => binary_eq _ _ _ p) (.andThen (h.reads hus) hnext)
  | .binary hj hq hl hr, hus, hp, hbelow, hnext => by
    obtain ⟨us₁, us₂', rfl, hus₁, hus₂'⟩ := wordsOf_eq_append hus
    obtain ⟨a, b, us₂, rfl, hus₂⟩ := wordsOf_eq_cons hus₂'
    have hbelow := hbelow.mono (Nat.succ_le_succ hq)
    rw [List.append_assoc, List.cons_append]
    refine hl.reads hus₁ (hp.trans hq) (below_of_joins hj) ?_
    refine reads_round hj (hp.trans hq) hus₂ (fun vs hvs => ?_) hnext
    exact hr.reads hvs (Nat.le_refl _) (hbelow.mono (Nat.le_succ _)) (reads_climb_end hbelow)
end

theorem reads_item (ht : ∀ k, (Ending.clean pos).peek ts = some k → k.opensItem = false)
    (h : Reads (ofBinary lowest) pos ts v us) : Reads item pos ts v us := by
  refine .succ item_eq (.look ?_)
  cases hk : ((Ending.clean pos).front ts).token with
  | none => exact h
  | some k =>
    have hopens := ht k hk
    cases k with
    | str | bool | openBrace | openParen | openBracket => cases hopens
    | _ => exact h

/-- An expression in parentheses, read as a group that turns out to hold one item. -/
theorem reads_parens {g g' : Option Sign} {a b a' b' : Position} (hv : v.isArithmetic)
    (hin : Reads item pos ts v (⟨.closeParen, g', a', b'⟩ :: us)) (hnext : Reads (ofClimb lowest v) pos us r rest) :
    Reads item pos (⟨.openParen, g, a, b⟩ :: ts) r rest := by
  refine .succ item_eq (.look (.succ group_eq (.take (.andThen hin (.look (.unseen nofun ?_))))))
  rw [if_pos hv]
  exact .expecting rfl hnext

theorem Operand.reads_bare {w : Word} (h : Operand (w :: ws) v) (hw : w.token ≠ .openParen)
    (hus : wordsOf us = w :: ws) (hnext : Reads (ofClimb lowest v) pos ts r rest) :
    Reads item pos (us ++ ts) r rest := by
  have hread : Reads (ofBinary lowest) pos (us ++ ts) r rest :=
    .succ (fun _ _ _ => binary_eq _ _ _ lowest) (.andThen (h.reads hus) hnext)
  obtain ⟨a, b, us, rfl, -⟩ := wordsOf_eq_cons hus
  refine reads_item ?_ hread
  rintro _ ⟨⟩
  cases h with
  | parens => contradiction
  | _ => rfl

mutual
theorem Operand.reads_item {ws : Words} {v r : Value} {us ts rest : Tokens} :
    Operand ws v → wordsOf us = ws → Reads (ofClimb lowest v) pos ts r rest → Reads item pos (us ++ ts) r rest
  | .int i g, hus, hnext => (Operand.int i g).reads_bare (by simp) hus hnext
  | .float x g, hus, hnext => (Operand.float x g).reads_bare (by simp) hus hnext
  | .name s g, hus, hnext => (Operand.name s g).reads_bare (by simp) hus hnext
  | .neg h, hus, hnext => (Operand.neg h).reads_bare (by simp) hus hnext
  | @Operand.parens g g' ws v h, hus, hnext => by
    obtain ⟨a, b, us, a', b', rfl, hus'⟩ := wordsOf_eq_enclosed hus
    have hin : Reads item pos (us ++ ⟨.closeParen, g', a', b'⟩ :: ts) v (⟨.closeParen, g', a', b'⟩ :: ts) :=
      h.reads_item hus' (Nat.le_refl _) (below_cons rfl) (reads_climb_end (below_cons rfl))
    rw [List.cons_append, List.append_assoc]
    exact reads_parens h.isArithmetic hin hnext

/-- Whether an expression starts with one in parentheses or not, it is read as an item as it is read elsewhere. -/
theorem Expression.reads_item {q : Nat} {ws : Words} {v r : Value} {us ts rest : Tokens} :
    Expression q ws v → wordsOf us = ws → lowest ≤ q → Below (.clean pos) (q + 1) ts →
      Reads (ofClimb lowest v) pos ts r rest → Reads item pos (us ++ ts) r rest
  | .operand h, hus, _, _, hnext => h.reads_item hus hnext
  | .binary hj hq hl hr, hus, hp, hbelow, hnext => by
    obtain ⟨us₁, us₂', rfl, hus₁, hus₂'⟩ := wordsOf_eq_append hus
    obtain ⟨a, b, us₂, rfl, hus₂⟩ := wordsOf_eq_cons hus₂'
    have hbelow := hbelow.mono (Nat.succ_le_succ hq)
    rw [List.append_assoc, List.cons_append]
    refine hl.reads_item hus₁ (hp.trans hq) (below_of_joins hj) ?_
    refine reads_round hj (hp.trans hq) hus₂ (fun vs hvs => ?_) hnext
    exact hr.reads hvs (Nat.le_refl _) (hbelow.mono (Nat.le_succ _)) (reads_climb_end hbelow)
end

/-- No operator and no comma follows. -/
structure Clear (pos : Position) (ts : Tokens) : Prop where
  below : Below (.clean pos) lowest ts
  noComma : (Ending.clean pos).peek ts ≠ some .comma

theorem clear_nil : Clear pos [] := ⟨below_nil, nofun⟩

theorem clear_cons (h : separates t.token) (hc : t.token ≠ .comma) : Clear pos (t :: ts) :=
  ⟨below_cons h, fun hp => hc (Option.some.inj hp)⟩

variable {vs : List Value}

theorem MoreItems.stops (h : MoreItems ws vs) (hus : wordsOf us = ws) (hts : Below (.clean pos) lowest ts) :
    Below (.clean pos) lowest (us ++ ts) := by
  cases h with
  | nil =>
    obtain rfl := List.map_eq_nil_iff.1 hus
    exact hts
  | cons =>
    obtain ⟨a, b, us, rfl, -⟩ := wordsOf_eq_cons hus
    exact below_cons rfl

theorem MoreItems.peek (h : MoreItems ws vs) (hvs : vs ≠ []) (hus : wordsOf us = ws) :
    ((Ending.clean pos).front (us ++ ts)).token = some .comma := by
  cases h with
  | nil => contradiction
  | cons =>
    obtain ⟨a, b, us, rfl, -⟩ := wordsOf_eq_cons hus
    rfl

theorem DictEntries.peek {es : List (Key × Value)} (h : DictEntries ws es) (hus : wordsOf us = ws) :
    ((Ending.clean pos).front (us ++ ts)).token ≠ some .closeBrace := by
  cases h with
  | last hk | more hk =>
    obtain ⟨a, b, us, rfl, -⟩ := wordsOf_eq_cons hus
    intro hbrace
    rw [show Word.token _ = .closeBrace from Option.some.inj hbrace] at hk
    cases hk

theorem reads_key {k : Key} (hk : t.token.key? = some k) : Reads ofKey pos (t :: ts) k ts := by
  rw [ofKey_eq]
  refine .look ?_
  have hsee : ((Ending.clean pos).front (t :: ts)).token.bind Token.key? = some k := hk
  rw [hsee]
  exact .take (.result k)

mutual
theorem Item.reads {ws : Words} {v : Value} {us ts : Tokens} :
    Item ws v → wordsOf us = ws → Below (.clean pos) lowest ts → Reads item pos (us ++ ts) v ts
  | .str s g, hus, _ => by
    obtain ⟨a, b, rfl⟩ := wordsOf_eq_one hus
    exact .succ item_eq (.look (.take (.result _)))
  | .bool b g, hus, _ => by
    obtain ⟨a, b, rfl⟩ := wordsOf_eq_one hus
    exact .succ item_eq (.look (.take (.result _)))
  | .expression h, hus, hts =>
    h.reads_item hus (Nat.le_refl _) (hts.mono (Nat.le_succ _)) (reads_climb_end hts)
  | @Item.tuple g g' ws rs v vs hi hm hvs, hus, _ => by
    obtain ⟨a, b, us, a', b', rfl, hus'⟩ := wordsOf_eq_enclosed hus
    obtain ⟨us₁, us₂, rfl, hus₁, hus₂⟩ := wordsOf_eq_append hus'
    have hfirst : Reads item pos (us₁ ++ (us₂ ++ ⟨.closeParen, g', a', b'⟩ :: ts)) v _ :=
      hi.reads hus₁ (hm.stops hus₂ (below_cons rfl))
    have hmore : Reads moreItems pos (us₂ ++ ⟨.closeParen, g', a', b'⟩ :: ts) vs _ :=
      hm.reads hus₂ (clear_cons rfl (by simp))
    rw [List.cons_append, List.append_assoc, List.append_assoc]
    refine .succ item_eq (.look (.succ group_eq (.take (.andThen hfirst (.look (.seen (hm.peek hvs hus₂) ?_))))))
    exact .andThen hmore (.expecting rfl (.result _))
  | .emptyDict g g', hus, _ => by
    obtain ⟨a, b, us, rfl, hus'⟩ := wordsOf_eq_cons hus
    obtain ⟨a', b', rfl⟩ := wordsOf_eq_one hus'
    exact .succ item_eq (.look (.succ dictionary_eq (.take (.look (.seen rfl (.take (.result _)))))))
  | @Item.dict g g' ws es hes, hus, _ => by
    obtain ⟨a, b, us, a', b', rfl, hus'⟩ := wordsOf_eq_enclosed hus
    rw [List.cons_append, List.append_assoc]
    refine .succ item_eq (.look (.succ dictionary_eq (.take (.look (.unseen (hes.peek hus') ?_)))))
    exact hes.reads [] hus'

theorem MoreItems.reads {ws : Words} {vs : List Value} {us ts : Tokens} :
    MoreItems ws vs → wordsOf us = ws → Clear pos ts → Reads moreItems pos (us ++ ts) vs ts
  | .nil, hus, hts => by
    obtain rfl := List.map_eq_nil_iff.1 hus
    exact .succ moreItems_eq (.look (.unseen hts.noComma (.result _)))
  | .cons hi hm, hus, hts => by
    obtain ⟨a, b, us, rfl, hus'⟩ := wordsOf_eq_cons hus
    obtain ⟨us₁, us₂, rfl, hus₁, hus₂⟩ := wordsOf_eq_append hus'
    have hfirst : Reads item pos (us₁ ++ (us₂ ++ ts)) _ _ := hi.reads hus₁ (hm.stops hus₂ hts.below)
    rw [List.cons_append, List.append_assoc]
    exact .succ moreItems_eq (.look (.seen rfl (.take (.andThen hfirst (.andThen (hm.reads hus₂ hts) (.result _))))))

/-- Entries are read up to the brace that closes them, after the entries of `d`. -/
theorem DictEntries.reads {ws : Words} {es : List (Key × Value)} {us ts : Tokens} {g : Option Sign} {a b : Position}
    (d : Dict) : DictEntries ws es → wordsOf us = ws →
      Reads (ofEntries d) pos (us ++ ⟨.closeBrace, g, a, b⟩ :: ts)
        (.dict (es.foldl (fun d e => Entries.put e.1 e.2 d) d)) ts
  | .last hk hi, hus => by
    obtain ⟨a, b, us, rfl, hus'⟩ := wordsOf_eq_cons hus
    obtain ⟨a', b', us, rfl, hus''⟩ := wordsOf_eq_cons hus'
    refine .succ (fun _ _ _ => entries_eq _ _ _ d) (.andThen (reads_key hk) (.expecting rfl ?_))
    exact .andThen (hi.reads hus'' (below_cons rfl)) (.look (.unseen nofun (.expecting rfl (.result _))))
  | .more hk hi hes, hus => by
    obtain ⟨a, b, us, rfl, hus'⟩ := wordsOf_eq_cons hus
    obtain ⟨a', b', us, rfl, hus''⟩ := wordsOf_eq_cons hus'
    obtain ⟨us₁, us₂', rfl, hus₁, hus₂'⟩ := wordsOf_eq_append hus''
    obtain ⟨a'', b'', us₂, rfl, hus₂⟩ := wordsOf_eq_cons hus₂'
    rw [List.cons_append, List.cons_append, List.append_assoc]
    refine .succ (fun _ _ _ => entries_eq _ _ _ d) (.andThen (reads_key hk) (.expecting rfl ?_))
    exact .andThen (hi.reads hus₁ (below_cons rfl)) (.look (.seen rfl (.take (hes.reads _ hus₂))))
end

/-- No item starts with a bracket. -/
theorem Item.peek (h : Item ws v) (hus : wordsOf us = ws) :
    ((Ending.clean pos).front (us ++ ts)).token ≠ some .openBracket ∧
      ((Ending.clean pos).front (us ++ ts)).token ≠ some .closeBracket := by
  obtain ⟨w, ws, rfl⟩ := List.exists_cons_of_ne_nil h.ne_nil
  obtain ⟨a, b, us, rfl, -⟩ := wordsOf_eq_cons hus
  exact ⟨fun hb => h.starts.1 (Option.some.inj hb), fun hb => h.starts.2 (Option.some.inj hb)⟩

theorem RightSide.reads (h : RightSide ws v) (hus : wordsOf us = ws) (hts : Clear pos ts) :
    Reads rightSide pos (us ++ ts) v ts := by
  cases h with
  | item hi =>
    refine .succ rightSide_eq (.look (.unseen (hi.peek hus).1 ?_))
    exact .andThen (hi.reads hus hts.below) (.look (.unseen hts.noComma (.result v)))
  | @bare ws rs v vs hi hm hvs =>
    obtain ⟨us₁, us₂, rfl, hus₁, hus₂⟩ := wordsOf_eq_append hus
    have hfirst : Reads CaseSetup.item pos (us₁ ++ (us₂ ++ ts)) v (us₂ ++ ts) :=
      hi.reads hus₁ (hm.stops hus₂ hts.below)
    rw [List.append_assoc]
    refine .succ rightSide_eq (.look (.unseen (hi.peek hus₁).1 (.andThen hfirst (.look ?_))))
    exact .seen (hm.peek hvs hus₂) (.andThen (hm.reads hus₂ hts) (.result _))
  | emptyList g g' =>
    obtain ⟨a, b, us, rfl, hus'⟩ := wordsOf_eq_cons hus
    obtain ⟨a', b', rfl⟩ := wordsOf_eq_one hus'
    exact .succ rightSide_eq (.look (.seen rfl (.succ list_eq (.take (.look (.seen rfl (.take (.result _))))))))
  | @list g g' ws rs v vs hi hm =>
    obtain ⟨a, b, us, a', b', rfl, hus'⟩ := wordsOf_eq_enclosed hus
    obtain ⟨us₁, us₂, rfl, hus₁, hus₂⟩ := wordsOf_eq_append hus'
    have hfirst : Reads CaseSetup.item pos (us₁ ++ (us₂ ++ ⟨.closeBracket, g', a', b'⟩ :: ts)) v _ :=
      hi.reads hus₁ (hm.stops hus₂ (below_cons rfl))
    have hmore : Reads moreItems pos (us₂ ++ ⟨.closeBracket, g', a', b'⟩ :: ts) vs _ :=
      hm.reads hus₂ (clear_cons rfl (by simp))
    rw [List.cons_append, List.append_assoc, List.append_assoc]
    refine .succ rightSide_eq (.look (.seen rfl (.succ list_eq (.take (.look (.unseen (hi.peek hus₁).2 ?_))))))
    exact .andThen hfirst (.andThen hmore (.expecting rfl (.result _)))

/-- The statements are over: nested ones at a closing brace, others at the end of the text. -/
def Over (nested : Bool) (ts : Tokens) : Prop :=
  if nested then ∃ g a b rest, ts = ⟨.closeBrace, g, a, b⟩ :: rest else ts = []

theorem Over.clear {nested : Bool} (h : Over nested ts) : Clear pos ts := by
  cases nested with
  | true =>
    obtain ⟨g, a, b, rest, rfl⟩ := h
    exact clear_cons rfl (by simp)
  | false =>
    obtain rfl : ts = [] := h
    exact clear_nil

theorem Statements.clear {nested : Bool} {b : Block} (h : Statements ws b) (hus : wordsOf us = ws)
    (hts : Over nested ts) : Clear pos (us ++ ts) := by
  cases h with
  | nil =>
    obtain rfl := List.map_eq_nil_iff.1 hus
    exact hts.clear
  | comment | assign | nested =>
    obtain ⟨a, b, us, rfl, -⟩ := wordsOf_eq_cons hus
    exact clear_cons rfl (by simp)

theorem reads_assigned {g g' : Option Sign} {a b a' b' : Position} {s : String} (h : RightSide ws v)
    (hus : wordsOf us = ws) (hts : Clear pos ts) :
    Reads assignment pos (⟨.name s, g, a, b⟩ :: ⟨.equals, g', a', b'⟩ :: (us ++ ts)) v ts :=
  .succ assignment_eq (.take (.look (.seen rfl (.take (h.reads hus hts)))))

theorem reads_nested {g g' g'' : Option Sign} {a b a' b' a'' b'' : Position} {s : String} {c : Block}
    (h : Reads (ofStatements true []) pos us c (⟨.closeBrace, g'', a'', b''⟩ :: ts)) :
    Reads assignment pos (⟨.name s, g, a, b⟩ :: ⟨.openBrace, g', a', b'⟩ :: us) (.block c) ts :=
  .succ assignment_eq (.take (.look (.unseen nofun (.seen rfl (.take (.andThen h (.expecting rfl (.result _))))))))

/-- One statement that binds a name, and those after it. -/
theorem reads_bound {nested : Bool} {s : String} {g : Option Sign} {a b : Position} {d c : Block}
    (h : Reads assignment pos (⟨.name s, g, a, b⟩ :: ts) v us) (hs : s ∉ Entries.keys c)
    (hd : ∀ k ∈ s :: Entries.keys c, k ∉ Entries.keys d)
    (hrest : (∀ k ∈ Entries.keys c, k ∉ Entries.keys (d ++ [(s, v)])) →
      Reads (ofStatements nested (d ++ [(s, v)])) pos us (d ++ [(s, v)] ++ c) rest) :
    Reads (ofStatements nested d) pos (⟨.name s, g, a, b⟩ :: ts) (d ++ (s, v) :: c) rest := by
  have hadd : d.add s v = .ok (d ++ [(s, v)]) := add_eq_ok.2 ⟨hd s List.mem_cons_self, rfl⟩
  have hdis : ∀ k ∈ Entries.keys c, k ∉ Entries.keys (d ++ [(s, v)]) := by
    intro k hk hmem
    rcases List.mem_append.1 (Entries.keys_append d [(s, v)] ▸ hmem) with hkd | hks
    · exact hd k (List.mem_cons_of_mem _ hk) hkd
    · obtain rfl : k = s := by simpa using hks
      exact hs hk
  have hnext := hrest hdis
  rw [List.append_assoc] at hnext
  refine .succ (fun _ _ _ => statements_eq _ _ _ nested d) (.look (.andThen h ?_))
  rw [hadd]
  exact hnext

/-- Statements are read after bindings with other names. -/
theorem Statements.reads {nested : Bool} {ws : Words} {d c : Block} {us ts : Tokens} :
    Statements ws c → wordsOf us = ws → Over nested ts → (∀ s ∈ Entries.keys c, s ∉ Entries.keys d) →
      Reads (ofStatements nested d) pos (us ++ ts) (d ++ c) ts
  | .nil, hus, hts, _ => by
    obtain rfl := List.map_eq_nil_iff.1 hus
    rw [List.append_nil]
    refine .succ (fun _ _ _ => statements_eq _ _ _ nested d) (.look ?_)
    cases nested with
    | false =>
      obtain rfl : ts = [] := hts
      exact .result d
    | true =>
      obtain ⟨g, a, b, rest, rfl⟩ := hts
      exact .result d
  | .comment h, hus, hts, hd => by
    obtain ⟨a, b, us, rfl, hus'⟩ := wordsOf_eq_cons hus
    exact .succ (fun _ _ _ => statements_eq _ _ _ nested d) (.look (.take (h.reads hus' hts hd)))
  | .assign hs h hc, hus, hts, hd => by
    obtain ⟨a, b, us, rfl, hus'⟩ := wordsOf_eq_cons hus
    obtain ⟨a', b', us, rfl, hus''⟩ := wordsOf_eq_cons hus'
    obtain ⟨us₁, us₂, rfl, hus₁, hus₂⟩ := wordsOf_eq_append hus''
    rw [List.cons_append, List.cons_append, List.append_assoc]
    exact reads_bound (reads_assigned h hus₁ (hc.clear hus₂ hts)) hs hd (hc.reads hus₂ hts)
  | @Statements.nested s g g' g'' ws rs c' c hs h hc, hus, hts, hd => by
    obtain ⟨a, b, us, rfl, hus'⟩ := wordsOf_eq_cons hus
    obtain ⟨a', b', us, rfl, hus''⟩ := wordsOf_eq_cons hus'
    obtain ⟨us₁, us₂', rfl, hus₁, hus₂'⟩ := wordsOf_eq_append hus''
    obtain ⟨a'', b'', us₂, rfl, hus₂⟩ := wordsOf_eq_cons hus₂'
    have hclose : Over true (⟨.closeBrace, g'', a'', b''⟩ :: (us₂ ++ ts)) := ⟨g'', a'', b'', _, rfl⟩
    have hin := h.reads (d := []) hus₁ hclose (by simp)
    rw [List.cons_append, List.cons_append, List.append_assoc]
    exact reads_bound (reads_nested hin) hs hd (hc.reads hus₂ hts)

/-- Tokens somewhere in a text, with the words `ws`. -/
def located (ws : Words) : Tokens := ws.map fun w => ⟨w.token, w.sign, .start, .start⟩

theorem wordsOf_located (ws : Words) : wordsOf (located ws) = ws := by
  simp [wordsOf, located, Located.word, Function.comp_def]

/-- The tokens of a document are read as its block. -/
theorem Document.reads {b : Block} (h : Document (wordsOf ts) b) : Reads (ofStatements false []) pos ts b [] := by
  have hread : Reads (ofStatements false []) pos (ts ++ []) ([] ++ b) [] := Statements.reads h rfl rfl (by simp)
  rwa [List.append_nil, List.nil_append] at hread

/-- A document has one block. -/
theorem Document.unique {b c : Block} (hb : Document ws b) (hc : Document ws c) : b = c := by
  rw [← wordsOf_located ws] at hb hc
  have hreads {a : Block} (h : Document (wordsOf (located ws)) a) :
      Reads (ofStatements false []) .start (located ws) a [] := h.reads
  obtain ⟨k, hk⟩ := hreads hb
  obtain ⟨l, hl⟩ := hreads hc
  have hboth := (hk (max k l) (by omega)).symm.trans (hl (max k l) (by omega))
  cases hboth
  rfl

end Grammar

/-- Depth enough for what is read is what a scan allows. -/
theorem Reader.Reads.run {α : Type} {R : Reader α} {p : Position} {ts us : Tokens} {a : α} {n : Nat}
    (h : Reads R p ts a us) (hs : ∀ n, Steady R (.clean p) n ts) (hn : R (.clean p) n ts ≠ .error .depth) :
    R (.clean p) n ts = .ok (a, us) := by
  obtain ⟨k, hk⟩ := h
  rw [← Steady.run_eq hs hn (Nat.le_max_right k n)]
  exact hk _ (Nat.le_max_left k n)

theorem Scan.read_of_clean {α : Type} {s : Scan} {R : Reader α} {p : Position} {a : α} {us : Tokens}
    (hp : s.ending = .clean p) (h : R (.clean p) s.depth s.tokens = .ok (a, us)) : s.read R = .ok a := by
  have hrun : (Ending.clean p).resume s.tokens >>= R (.clean p) s.depth = .ok (a, us) := by
    rw [Ending.resume_clean]
    exact h
  unfold read
  rw [hp, hrun]

theorem Scan.document_complete {s : Scan} {b : Block} {p : Position} (hp : s.ending = .clean p)
    (h : Grammar.Document s.words b) : s.document = .ok b := by
  have hread : statements (.clean p) false s.depth [] s.tokens = .ok (b, []) :=
    h.reads.run (fun n => (Reader.Steady.each _ n).statements false [])
      (Call.not_exhausts (c := .statements false [] s.tokens) (Nat.le_refl _))
  exact read_of_clean hp hread

/-- The tokens of a scan are read as a document exactly if they are one and the text ends well. -/
theorem Scan.document_eq_ok_iff {s : Scan} {b : Block} :
    s.document = .ok b ↔ (∃ p, s.ending = .clean p) ∧ Grammar.Document s.words b :=
  ⟨document_sound, fun ⟨⟨_, hp⟩, h⟩ => document_complete hp h⟩

/-- A text is read as a value exactly if its words are a right-hand side and it ends well. -/
theorem Value.parse_eq_ok_iff {text : String} {v : Value} : Value.parse text = .ok v ↔
    (∃ p, (Scan.ofText text).ending = .clean p) ∧ Grammar.RightSide (Scan.ofText text).words v := by
  refine ⟨Value.rightSide_of_parse, fun ⟨⟨p, hp⟩, h⟩ => ?_⟩
  have hreads : Reader.Reads rightSide p ((Scan.ofText text).tokens ++ []) v [] := h.reads rfl Grammar.clear_nil
  rw [List.append_nil] at hreads
  have hread : rightSide (.clean p) (Scan.ofText text).depth (Scan.ofText text).tokens = .ok (v, []) :=
    hreads.run (fun n => (Reader.Steady.each _ n).rightSide)
      (Call.not_exhausts (c := .rightSide (Scan.ofText text).tokens) (Nat.le_refl _))
  refine Scan.read_of_clean hp (?_ : _ = Except.ok (v, []))
  rw [hread]
  rfl

namespace Block

theorem parse_of_document {text : String} {b : Block} {p : Position}
    (hp : (Scan.ofText text).ending = .clean p) (h : Grammar.Document (Scan.ofText text).words b) :
    Block.parse text = .ok b :=
  Scan.document_complete hp h

end Block

end CaseSetup
