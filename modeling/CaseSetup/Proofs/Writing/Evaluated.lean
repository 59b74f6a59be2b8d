import CaseSetup.Proofs.Evaluation.Correctness
import CaseSetup.Proofs.Grammar.Neighbours
import CaseSetup.Proofs.Writing.Nested

/-! # Reading a written result

The text of an evaluated document is a document only if no list stands inside another value in it and
its keys are finite, and then it stands for what was evaluated. Such a list shows in the words of the
text: its brackets have neighbours that they have in no document. A key that is not finite is written
as a word, and the colon after it gives it away. -/

namespace CaseSetup

open Grammar Value

theorem itemsFiniteKeys_iff {vs : List Value} : ItemsFiniteKeys vs ↔ ∀ v ∈ vs, v.FiniteKeys := by
  induction vs with
  | nil => simp [ItemsFiniteKeys]
  | cons v vs ih => simp [ItemsFiniteKeys, ih]

theorem blockFiniteKeys_iff {b : Block} : BlockFiniteKeys b ↔ ∀ e ∈ b, e.2.FiniteKeys := by
  induction b with
  | nil => simp [BlockFiniteKeys]
  | cons e b ih => simp [BlockFiniteKeys, ih]

/-- Does the value, inside another one, read back? -/
structure Value.Fit (v : Value) : Prop extends v.Listless where
  finiteKeys : v.FiniteKeys

/-- What words show about their value if all of them are neighbours as in a document. Those of a list
begin and end with brackets, which stand after `=` and not before a comma. -/
structure Reveals (ws : Words) (v : Value) : Prop where
  finiteKeys : ws.IsChain Neighbours → v.FiniteKeys
  nestsList : ws.IsChain Neighbours → ¬ v.NestsList
  before : v.isList → ∀ u, (u :: ws).IsChain Neighbours → u.token = .equals
  after : v.isList → ∀ g rs, ¬ (ws ++ ⟨.comma, g⟩ :: rs : Words).IsChain Neighbours

namespace Reveals

variable {v : Value} {vs : List Value} {ws : Words}

/-- After a word that is not `=`. -/
theorem fit_after (h : Reveals ws v) {u : Word} (hu : u.token ≠ .equals) (hc : (u :: ws).IsChain Neighbours) :
    v.Fit where
  isList := Bool.eq_false_iff.2 fun hl => hu (h.before hl u hc)
  nestsList := h.nestsList hc.tail
  finiteKeys := h.finiteKeys hc.tail

/-- Before a comma. -/
theorem fit_before (h : Reveals ws v) {g : Option Sign} {rs : Words}
    (hc : (ws ++ ⟨.comma, g⟩ :: rs : Words).IsChain Neighbours) : v.Fit where
  isList := Bool.eq_false_iff.2 fun hl => h.after hl g rs hc
  nestsList := h.nestsList hc.left_of_append
  finiteKeys := h.finiteKeys hc.left_of_append

/-- Any value but a list or a block. -/
theorem other (hl : v.isList = false) (hb : v.isBlock = false)
    (h : ws.IsChain Neighbours → v.FiniteKeys ∧ ∀ w ∈ v.members, w.Listless) : Reveals ws v where
  finiteKeys hc := (h hc).1
  nestsList hc := (not_nestsList_iff hb).2 (h hc).2
  before h := by simp [hl] at h
  after h := by simp [hl] at h

theorem list (h : (⟨.openBracket, none⟩ :: ws : Words).IsChain Neighbours → ∀ v ∈ vs, v.Fit) :
    Reveals (⟨.openBracket, none⟩ :: (ws ++ [⟨.closeBracket, none⟩])) (.list vs) where
  finiteKeys hc := itemsFiniteKeys_iff.2 fun v hv => (h (isChain_of_enclosed hc) v hv).finiteKeys
  nestsList hc := (not_nestsList_iff rfl).2 fun v hv => (h (isChain_of_enclosed hc) v hv).toListless
  before _ _ hc := (List.isChain_cons_cons.1 hc).1
  after _ g rs hc := by
    have hend : (⟨.closeBracket, none⟩ :: ⟨.comma, g⟩ :: rs : Words).IsChain Neighbours :=
      hc.suffix ⟨⟨.openBracket, none⟩ :: ws, by simp⟩
    exact (List.isChain_cons_cons.1 hend).1 rfl

end Reveals

/-- Do the words of the text of the value, wherever there is one, reveal it? -/
def Value.Revealed (v : Value) : Prop :=
  v.Settled → ∀ t, v.written = .ok t → ∃ ws, Lexes Breaks t.toList ws ∧ Reveals ws v

/-- Items with commas between them, in brackets or after `=`. -/
theorem revealed_items {vs : List Value} (hv : ∀ v ∈ vs, v.Revealed) (hs : ∀ v ∈ vs, v.Settled) {ts : List String}
    (h : writtenItems vs = .ok ts) : ∃ ws, Lexes Breaks (commas ts).toList ws ∧
      (∀ u : Word, u.token ≠ .equals → (u :: ws).IsChain Neighbours → ∀ v ∈ vs, v.Fit) ∧
      (2 ≤ vs.length → ws.IsChain Neighbours → ∀ v ∈ vs, v.Fit) := by
  induction vs generalizing ts with
  | nil =>
    obtain rfl : [] = ts := Except.ok.inj h
    exact ⟨[], Lexes.nil, by simp, by simp⟩
  | cons v vs ih =>
    obtain ⟨t, us, ht, hus, rfl⟩ := writtenItems_cons h
    obtain ⟨hv, hvs⟩ := List.forall_mem_cons.1 hv
    obtain ⟨hs, hss⟩ := List.forall_mem_cons.1 hs
    obtain ⟨ws, hl, hr⟩ := hv hs t ht
    cases vs with
    | nil =>
      obtain rfl : [] = us := Except.ok.inj hus
      refine ⟨ws, hl, fun u hu hc => List.forall_mem_singleton.2 (hr.fit_after hu hc), fun hlen => ?_⟩
      simp at hlen
    | cons v' vs =>
      obtain ⟨rs, hls, hfit, -⟩ := ih hvs hss hus
      obtain ⟨t', us, -, -, rfl⟩ := writtenItems_cons hus
      -- the first item stands before a comma and each of the others after one, whatever is around them
      have hall (hc : (ws ++ ⟨.comma, none⟩ :: rs : Words).IsChain Neighbours) : ∀ w ∈ v :: v' :: vs, w.Fit :=
        List.forall_mem_cons.2 ⟨hr.fit_before hc, hfit ⟨.comma, none⟩ (by simp) hc.right_of_append⟩
      refine ⟨ws ++ ⟨.comma, none⟩ :: rs, ?_, fun _ _ hc => hall hc.tail, fun _ => hall⟩
      rw [commas_cons_cons]
      exact comma_then hl hls

/-- The words of a key. The last of them can be one only if the key is finite. -/
theorem revealed_key {k : Key} (hk : k.Proper) {t : String} (h : Literal.key k = .ok t) :
    ∃ ws, Lexes Breaks t.toList ws ∧ ∀ g rs, (ws ++ ⟨.colon, g⟩ :: rs : Words).IsChain Neighbours → k.Finite := by
  by_cases hfin : k.Finite
  · obtain ⟨ws, hl, -, -⟩ := reads_key hk h
    exact ⟨ws, hl, fun _ _ _ => hfin⟩
  · cases k with
    | float x =>
      obtain rfl : Literal.float x = t := Except.ok.inj h
      obtain ⟨ws, hl, hne, hno⟩ := Lexes.not_finite (Bool.eq_false_iff.2 hfin)
      refine ⟨ws, hl, fun g rs hc => ?_⟩
      -- the colon asks its neighbour to be a key, and none of these words is one
      have hlast := (List.isChain_append.1 hc).2.2 _ (List.getLast_mem_getLast? hne) ⟨.colon, g⟩ rfl
      have hkey : (ws.getLast hne).token.key?.isSome := hlast
      rw [hno _ (List.getLast_mem hne)] at hkey
      cases hkey
    | _ => exact absurd trivial hfin

theorem revealed_entries {es : Dict} (hv : ∀ e ∈ es, e.2.Revealed) (hk : ∀ e ∈ es, e.1.Proper)
    (hs : ∀ e ∈ es, e.2.Settled) {ts : List String} (h : writtenEntries es = .ok ts) :
    ∃ ws, Lexes Breaks (commas ts).toList ws ∧ (ws.IsChain Neighbours → ∀ e ∈ es, e.1.Finite ∧ e.2.Fit) := by
  have hentry {k : Key} {v : Value} {a t : String} (hk : k.Proper) (hv : v.Revealed) (hs : v.Settled)
      (ha : Literal.key k = .ok a) (ht : v.written = .ok t) :
      ∃ ws, Lexes Breaks (a ++ ": " ++ t).toList ws ∧ (ws.IsChain Neighbours → k.Finite ∧ v.Fit) := by
    obtain ⟨ws, hl, hkey⟩ := revealed_key hk ha
    obtain ⟨us, hls, hr⟩ := hv hs t ht
    have hcolon : Lexes Anything [':', ' '] [⟨.colon, none⟩] := Lexes.symbol_gap (by decide) rfl (by decide)
    have htext : (a ++ ": " ++ t).toList = a.toList ++ ([':', ' '] ++ t.toList) := by simp
    refine ⟨ws ++ ⟨.colon, none⟩ :: us, ?_, fun hc => ⟨hkey _ _ hc, hr.fit_after (by simp) hc.right_of_append⟩⟩
    rw [htext]
    exact hl.append (hcolon.then_ hls) fun _ _ => breaks_cons (by decide) _
  induction es generalizing ts with
  | nil =>
    obtain rfl : [] = ts := Except.ok.inj h
    exact ⟨[], Lexes.nil, by simp⟩
  | cons e es ih =>
    obtain ⟨k, v⟩ := e
    obtain ⟨a, t, us, ha, ht, hus, rfl⟩ := writtenEntries_cons h
    obtain ⟨hv, hvs⟩ := List.forall_mem_cons.1 hv
    obtain ⟨hk, hks⟩ := List.forall_mem_cons.1 hk
    obtain ⟨hs, hss⟩ := List.forall_mem_cons.1 hs
    obtain ⟨ws, hl, hfit⟩ := hentry hk hv hs ha ht
    cases es with
    | nil =>
      obtain rfl : [] = us := Except.ok.inj hus
      exact ⟨ws, hl, fun hc => List.forall_mem_singleton.2 (hfit hc)⟩
    | cons f es =>
      obtain ⟨rs, hls, hfits⟩ := ih hvs hks hss hus
      obtain ⟨k', v'⟩ := f
      obtain ⟨a', t', us', -, -, -, rfl⟩ := writtenEntries_cons hus
      refine ⟨ws ++ ⟨.comma, none⟩ :: rs, ?_, fun hc => ?_⟩
      · rw [commas_cons_cons]
        exact comma_then hl hls
      · exact List.forall_mem_cons.2 ⟨hfit hc.left_of_append, hfits hc.right_of_append.tail⟩

/-- A scalar is neither a list nor has it parts. -/
theorem Readable.revealed {v : Value} {cs : List Char} {ws : Words} (h : Readable v cs ws) (hl : v.isList = false)
    (hb : v.isBlock = false) (hm : v.members = []) (hk : v.FiniteKeys) : ∃ ws, Lexes Breaks cs ws ∧ Reveals ws v :=
  ⟨ws, h.lexes, .other hl hb fun _ => ⟨hk, by simp [hm]⟩⟩

/-- What is written of a result inside a line reveals it. -/
theorem Value.revealed (v : Value) : v.Revealed := by
  induction v using Value.induction with
  | bool b =>
    rintro - t h
    obtain rfl : Literal.bool b = t := Except.ok.inj h
    exact (readable_bool b).revealed rfl rfl rfl trivial
  | int n =>
    rintro - t h
    obtain rfl : Literal.int n = t := Except.ok.inj h
    exact (readable_int n).revealed rfl rfl rfl trivial
  | float x =>
    rintro - t h
    obtain ⟨hx, rfl⟩ := finiteFloat_eq_ok h
    exact (readable_float hx).revealed rfl rfl rfl trivial
  | str s =>
    rintro - t h
    obtain ⟨hs, rfl⟩ := quoted_eq_ok h
    exact (readable_str hs).revealed rfl rfl rfl trivial
  | list vs ih =>
    intro hs t h
    simp only [written, Outcome.bind_eq_ok, Outcome.pure_eq_ok] at h
    obtain ⟨ts, hts, rfl⟩ := h
    cases hs with
    | list hs =>
      obtain ⟨ws, hl, hfit, -⟩ := revealed_items ih hs hts
      have hl := hl.enclosed (a := '[') (b := ']') (by decide) rfl (by decide) rfl (by decide)
      have htext : ("[" ++ commas ts ++ "]").toList = '[' :: ((commas ts).toList ++ [']']) := by simp
      rw [htext]
      exact ⟨_, hl.anywhere, .list (hfit _ (by simp))⟩
  | tuple vs ih =>
    intro hs t h
    simp only [written, Outcome.bind_eq_ok, Outcome.pure_eq_ok] at h
    obtain ⟨ts, hts, rfl⟩ := h
    cases hs with
    | tuple _ hs =>
      obtain ⟨ws, hl, hfit, -⟩ := revealed_items ih hs hts
      have hl := hl.enclosed (a := '(') (b := ')') (by decide) rfl (by decide) rfl (by decide)
      have htext : ("(" ++ commas ts ++ ")").toList = '(' :: ((commas ts).toList ++ [')']) := by simp
      rw [htext]
      refine ⟨_, hl.anywhere, .other rfl rfl fun hc => ?_⟩
      have hvs := hfit _ (by simp) (isChain_of_enclosed hc)
      exact ⟨itemsFiniteKeys_iff.2 fun v hv => (hvs v hv).finiteKeys, fun v hv => (hvs v hv).toListless⟩
  | dict es ih =>
    intro hs t h
    simp only [written, Outcome.bind_eq_ok, Outcome.pure_eq_ok] at h
    obtain ⟨ts, hts, rfl⟩ := h
    cases hs with
    | dict _ hk hs =>
      obtain ⟨ws, hl, hfit⟩ := revealed_entries ih hk hs hts
      have hl := hl.enclosed (a := '\x7b') (b := '\x7d') (by decide) rfl (by decide) rfl (by decide)
      have htext : ("\x7b" ++ commas ts ++ "\x7d").toList = '\x7b' :: ((commas ts).toList ++ ['\x7d']) := by simp
      rw [htext]
      refine ⟨_, hl.anywhere, .other rfl rfl fun hc => ?_⟩
      have hes := hfit hc.tail.left_of_append
      exact ⟨entriesFiniteKeys_iff.2 fun e he => ⟨(hes e he).1, (hes e he).2.finiteKeys⟩,
        List.forall_mem_map.2 fun e he => (hes e he).2.toListless⟩
  | block b =>
    rintro - t h
    cases h
  | neg v => intro hs; cases hs
  | binary op l r => intro hs; cases hs
  | var name => intro hs; cases hs

/-- What is written after `name =`. -/
theorem revealed_right {v : Value} (hs : v.Settled) {t : String} (h : v.writtenRight = .ok t) :
    ∃ ws, Lexes Breaks t.toList ws ∧ (ws.IsChain Neighbours → v.FiniteKeys ∧ ¬ v.NestsList) := by
  have hother (h : v.written = .ok t) :
      ∃ ws, Lexes Breaks t.toList ws ∧ (ws.IsChain Neighbours → v.FiniteKeys ∧ ¬ v.NestsList) := by
    obtain ⟨ws, hl, hr⟩ := v.revealed hs t h
    exact ⟨ws, hl, fun hc => ⟨hr.finiteKeys hc, hr.nestsList hc⟩⟩
  cases v with
  | list vs =>
    rw [writtenRight] at h
    split at h
    · rename_i hbare
      obtain ⟨ts, hts, rfl⟩ := Outcome.map_eq_ok.1 h
      cases hs with
      | list hs =>
        obtain ⟨ws, hl, -, hfit⟩ := revealed_items (fun v _ => v.revealed) hs hts
        have hlen : 2 ≤ vs.length := of_decide_eq_true (Bool.and_eq_true_iff.1 hbare).1
        refine ⟨ws, hl, fun hc => ⟨?_, ?_⟩⟩
        · exact itemsFiniteKeys_iff.2 fun v hv => (hfit hlen hc v hv).finiteKeys
        · exact (not_nestsList_iff rfl).2 fun v hv => (hfit hlen hc v hv).toListless
    · exact hother h
  | _ => exact hother h

/-- Do the lines that give a name the value, wherever there are any, show whether it reads back? -/
def Value.RevealedLines (v : Value) : Prop :=
  v.Settled → ∀ depth name t, IsName name → writtenBinding depth name v = .ok t →
    ∃ ws, Lexes Anything t.toList ws ∧ (ws.IsChain Neighbours → v.FiniteKeys ∧ ¬ v.NestsList)

theorem revealedLines_right {v : Value} (hb : ∀ c, v ≠ .block c) : v.RevealedLines := by
  intro hs depth name t hname h
  rw [writtenBinding_of_not_block hb] at h
  simp only [Outcome.bind_eq_ok, Outcome.pure_eq_ok] at h
  obtain ⟨t, ht, rfl⟩ := h
  obtain ⟨ws, hl, hr⟩ := revealed_right hs ht
  exact ⟨_, lexes_assignment hname depth hl, fun hc => hr hc.tail.tail⟩

theorem revealed_block {b : Block} (hv : ∀ e ∈ b, e.2.RevealedLines) (hs : (Value.block b).Settled) {depth : Nat}
    {t : String} (h : writtenBlock depth b = .ok t) :
    ∃ ws, Lexes Anything t.toList ws ∧ (ws.IsChain Neighbours → b.FiniteKeys ∧ ¬ b.NestsList) := by
  cases hs with
  | block hd hname hs =>
    clear hd
    suffices hall : ∃ ws, Lexes Anything t.toList ws ∧
        (ws.IsChain Neighbours → ∀ e ∈ b, e.2.FiniteKeys ∧ ¬ e.2.NestsList) by
      obtain ⟨ws, hl, hb⟩ := hall
      refine ⟨ws, hl, fun hc => ⟨?_, ?_⟩⟩
      · exact blockFiniteKeys_iff.2 fun e he => (hb hc e he).1
      · exact not_nestsList_block.2 fun e he => (hb hc e he).2
    induction b generalizing t with
    | nil =>
      obtain rfl : "" = t := Except.ok.inj h
      exact ⟨[], Lexes.nil, by simp⟩
    | cons e b ih =>
      simp only [writtenBlock, Outcome.bind_eq_ok, Outcome.pure_eq_ok] at h
      obtain ⟨t, ht, ts, hts, rfl⟩ := h
      obtain ⟨hv, hvs⟩ := List.forall_mem_cons.1 hv
      obtain ⟨hname, hnames⟩ := List.forall_mem_cons.1 hname
      obtain ⟨hs, hss⟩ := List.forall_mem_cons.1 hs
      obtain ⟨ws, hl, hr⟩ := hv hs depth e.1 t hname ht
      obtain ⟨rs, hls, hrs⟩ := ih hvs hts hnames hss
      refine ⟨ws ++ rs, ?_, fun hc => List.forall_mem_cons.2 ⟨hr hc.left_of_append, hrs hc.right_of_append⟩⟩
      rw [String.toList_append]
      exact hl.then_ hls

theorem Value.revealedLines (v : Value) : v.RevealedLines := by
  induction v using Value.induction with
  | block b ih =>
    intro hs depth name t hname h
    simp only [writtenBinding, Outcome.bind_eq_ok, Outcome.pure_eq_ok] at h
    obtain ⟨t, ht, rfl⟩ := h
    obtain ⟨ws, hl, hb⟩ := revealed_block ih hs ht
    exact ⟨_, lexes_nested hname depth hl, fun hc => hb hc.tail.tail.left_of_append⟩
  | _ => exact revealedLines_right (by simp)

namespace Block

variable {b e : Block} {text t : String}

/-- The written form of a result is a document only if no list stands inside another value in it and
its keys are finite. -/
theorem reads_of_parse_written (hs : (Value.block e).Settled) (h : e.written = .ok t) {c : Block}
    (hc : Block.parse t = .ok c) : e.FiniteKeys ∧ ¬ e.NestsList := by
  obtain ⟨ws, hl, hr⟩ := revealed_block (fun e _ => e.2.revealedLines) hs h
  obtain ⟨hwords, -⟩ := hl.scan trivial
  exact hr (hwords ▸ (document_of_parse hc).2.fitting.chain)

/-- Then it is a document, and it stands for the result. -/
theorem parse_written_of_settled (hs : (Value.block e).Settled) (h : e.written = .ok t) (hk : e.FiniteKeys)
    (hn : ¬ e.NestsList) : Block.parse t = .ok e := by
  have hregular : e.Regular := by
    cases hs with
    | block hd hname hs =>
      refine ⟨hd, blockRegular_iff.2 fun f hf => ⟨hname f hf, ?_⟩⟩
      obtain ⟨t, ht⟩ := written_of_mem_block h hf
      exact (hs f hf).regular ht (not_nestsList_block.1 hn f hf)
  have hglue : e.glue = e := Value.block.inj hs.glue_eq
  rw [parse_written hregular hk h, hglue]

/-- What is written for the evaluated form of a parsed document reads back as that form, and as
nothing else; and it reads back exactly if the form has no list inside another value and no key that
is not finite. -/
theorem parse_serialize_evaluated_iff (hp : Block.parse text = .ok b) (hs : b.serialize true = .ok t) :
    ∃ e, b.evaluated = .ok e ∧ ∀ c, Block.parse t = .ok c ↔ c = e ∧ e.FiniteKeys ∧ ¬ e.NestsList := by
  have hb : b.Regular := regular_of_parse hp
  obtain ⟨e, he, ht⟩ : ∃ e, b.evaluated = .ok e ∧ e.written = .ok t := by simpa [serialize] using hs
  have hm : Means b b (.block b) (.block e) := .block ((b.scope.evaluatedBlock_eq_ok_iff hb.isKeyed).1 he)
  have hsettled : (Value.block e).Settled := hm.settled hb hb hb
  refine ⟨e, he, fun c => ⟨fun hc => ?_, ?_⟩⟩
  · obtain ⟨hk, hn⟩ := reads_of_parse_written hsettled ht hc
    exact ⟨Except.ok.inj (hc.symm.trans (parse_written_of_settled hsettled ht hk hn)), hk, hn⟩
  · rintro ⟨rfl, hk, hn⟩
    exact parse_written_of_settled hsettled ht hk hn

/-- A reference to a list may stand under a name of its own. Inside another list it is evaluated and
written all the same, and the text is no document. -/
theorem parse_serialize_evaluated_iff_list :
    (Block.parse "a = []\nb = a\n" = .ok [("a", .list []), ("b", .var "a")] ∧
      Block.serialize [("a", .list []), ("b", .var "a")] true = .ok "a = []\nb = []\n" ∧
      Block.parse "a = []\nb = []\n" = .ok [("a", .list []), ("b", .list [])]) ∧
    Block.parse "a = []\nb = [a]\n" = .ok [("a", .list []), ("b", .list [.var "a"])] ∧
      Block.serialize [("a", .list []), ("b", .list [.var "a"])] true = .ok "a = []\nb = [[]]\n" ∧
      ∀ c, Block.parse "a = []\nb = [[]]\n" ≠ .ok c := by
  have hdocument {text : String} {v : Value} {ws : Words} {p : Position}
      (hwords : (Scan.ofText text).words = ⟨.name "a", none⟩ :: ⟨.equals, none⟩ :: ⟨.openBracket, none⟩ ::
        ⟨.closeBracket, none⟩ :: ⟨.name "b", none⟩ :: ⟨.equals, none⟩ :: ws)
      (hend : (Scan.ofText text).ending = .clean p) (h : RightSide ws v) :
      Block.parse text = .ok [("a", .list []), ("b", v)] := by
    refine parse_of_document hend ?_
    have hb : Statements (⟨.name "b", none⟩ :: ⟨.equals, none⟩ :: (ws ++ [])) [("b", v)] :=
      .assign List.not_mem_nil h .nil
    have hab : Statements (⟨.name "a", none⟩ :: ⟨.equals, none⟩ :: ([⟨.openBracket, none⟩, ⟨.closeBracket, none⟩] ++
        ⟨.name "b", none⟩ :: ⟨.equals, none⟩ :: (ws ++ []))) [("a", .list []), ("b", v)] :=
      .assign (by simp) (.emptyList none none) hb
    rw [hwords]
    simpa using hab
  have hp : Block.parse "a = []\nb = a\n" = .ok [("a", .list []), ("b", .var "a")] :=
    hdocument (p := ⟨3, 0⟩) (by decide +kernel) (by decide +kernel) (.item (.expression (.operand (.name "a" none))))
  have hs : Block.serialize [("a", .list []), ("b", .var "a")] true = .ok "a = []\nb = []\n" := by
    with_unfolding_all rfl
  have hlist : RightSide [⟨.openBracket, none⟩, ⟨.name "a", none⟩, ⟨.closeBracket, none⟩] (.list [.var "a"]) :=
    .list (.expression (.operand (.name "a" none))) .nil
  have hp' : Block.parse "a = []\nb = [a]\n" = .ok [("a", .list []), ("b", .list [.var "a"])] :=
    hdocument (p := ⟨3, 0⟩) (by decide +kernel) (by decide +kernel) hlist
  have hs' : Block.serialize [("a", .list []), ("b", .list [.var "a"])] true = .ok "a = []\nb = [[]]\n" := by
    with_unfolding_all rfl
  refine ⟨⟨hp, hs, ?_⟩, hp', hs', fun c hc => ?_⟩
  · obtain ⟨e, he, hiff⟩ := parse_serialize_evaluated_iff hp hs
    have hvalue : Block.evaluated [("a", .list []), ("b", .var "a")] = .ok [("a", .list []), ("b", .list [])] := by
      with_unfolding_all rfl
    obtain rfl := Except.ok.inj (he.symm.trans hvalue)
    have hempty : ¬ (Value.list []).NestsList := (not_nestsList_iff rfl).2 fun _ hw => nomatch hw
    refine (hiff _).2 ⟨rfl, blockFiniteKeys_iff.2 ?_, not_nestsList_block.2 ?_⟩
    · simp [Value.FiniteKeys, ItemsFiniteKeys]
    · simp [hempty]
  · obtain ⟨e, he, hiff⟩ := parse_serialize_evaluated_iff hp' hs'
    have hvalue : Block.evaluated [("a", .list []), ("b", .list [.var "a"])] =
        .ok [("a", .list []), ("b", .list [.list []])] := by
      with_unfolding_all rfl
    obtain rfl := Except.ok.inj (he.symm.trans hvalue)
    have hb := not_nestsList_block.1 ((hiff c).1 hc).2.2 ("b", .list [.list []]) (by simp)
    exact hb (.here List.mem_cons_self rfl)

end Block

end CaseSetup
