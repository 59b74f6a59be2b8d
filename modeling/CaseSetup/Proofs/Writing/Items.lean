import CaseSetup.Proofs.Writing.Readable

/-! # Reading written lists and dictionaries

Items with commas between them are read as the grammar's items, entries as its entries. Together
with the scalars and expressions this makes every written value readable. -/

namespace CaseSetup

open Grammar Value

/-- Is the text of the value, wherever there is one, read back? -/
def Value.ReadsBack (v : Value) : Prop := v.Inline → ∀ t, v.written = .ok t → ∃ ws, Readable v t.toList ws

theorem commas_cons_cons (t u : String) (ts : List String) :
    (commas (t :: u :: ts)).toList = t.toList ++ (',' :: ([' '] ++ (commas (u :: ts)).toList)) := by
  simp [commas]

theorem comma_then {cs ds : List Char} {ws rs : Words} (h : Lexes Breaks cs ws) (h' : Lexes Breaks ds rs) :
    Lexes Breaks (cs ++ (',' :: ([' '] ++ ds))) (ws ++ ⟨.comma, none⟩ :: rs) := by
  have hcomma : Lexes Anything [',', ' '] [⟨.comma, none⟩] := Lexes.symbol_gap (by decide) rfl (by decide)
  exact h.append (hcomma.then_ h') fun _ _ => breaks_cons (by decide) _

theorem writtenItems_cons {v : Value} {vs : List Value} {ts : List String} (h : writtenItems (v :: vs) = .ok ts) :
    ∃ t us, v.written = .ok t ∧ writtenItems vs = .ok us ∧ ts = t :: us := by
  simp only [writtenItems, Outcome.bind_eq_ok, Outcome.pure_eq_ok] at h
  obtain ⟨t, ht, us, hus, rfl⟩ := h
  exact ⟨t, us, ht, hus, rfl⟩

/-- One item or more, with commas between them. -/
theorem reads_items {v : Value} {vs : List Value} (hv : ∀ w ∈ v :: vs, w.ReadsBack) (hin : AllInline (v :: vs))
    {ts : List String} (h : writtenItems (v :: vs) = .ok ts) :
    ∃ ws rs, Lexes Breaks (commas ts).toList (ws ++ rs) ∧ FiniteWords (ws ++ rs) ∧
      (ItemsFiniteKeys (v :: vs) → Item ws v.glue ∧ MoreItems rs (glueItems vs)) := by
  induction vs generalizing v ts with
  | nil =>
    obtain ⟨t, us, ht, hus, rfl⟩ := writtenItems_cons h
    obtain rfl : [] = us := Except.ok.inj hus
    obtain ⟨ws, hr⟩ := hv v List.mem_cons_self hin.1 t ht
    refine ⟨ws, [], ?_, ?_, fun hk => ⟨hr.item hk.1, .nil⟩⟩
    · rw [List.append_nil]
      exact hr.lexes
    · rw [List.append_nil]
      exact hr.finite
  | cons u vs ih =>
    obtain ⟨t, us, ht, hus, rfl⟩ := writtenItems_cons h
    obtain ⟨ws, hr⟩ := hv v List.mem_cons_self hin.1 t ht
    obtain ⟨us', rs, hl, hf, hitems⟩ := ih (fun w hw => hv w (List.mem_cons_of_mem _ hw)) hin.2 hus
    obtain ⟨t', us'', -, -, rfl⟩ := writtenItems_cons hus
    refine ⟨ws, ⟨.comma, none⟩ :: (us' ++ rs), ?_, ?_, fun hk => ?_⟩
    · rw [commas_cons_cons]
      exact comma_then hr.lexes hl
    · exact finiteWords_append.2 ⟨hr.finite, finiteWords_cons.2 ⟨by simp, hf⟩⟩
    · obtain ⟨hi, hm⟩ := hitems hk.2
      exact ⟨hr.item hk.1, .cons hi hm⟩

/-- The text of a key. One that is not finite is no key when it is read. -/
theorem reads_key {k : Key} (hk : k.Proper) {t : String} (h : Literal.key k = .ok t) :
    ∃ ws, Lexes Breaks t.toList ws ∧ FiniteWords ws ∧ (k.Finite → ∃ w, ws = [w] ∧ w.token.key? = some k) := by
  cases k with
  | str s =>
    obtain ⟨-, rfl⟩ := quoted_eq_ok h
    exact ⟨_, (readable_str hk).lexes, (readable_str hk).finite, fun _ => ⟨_, rfl, rfl⟩⟩
  | int n =>
    obtain rfl : Literal.int n = t := Except.ok.inj h
    exact ⟨_, (readable_int n).lexes, (readable_int n).finite, fun _ => ⟨_, rfl, rfl⟩⟩
  | bool b =>
    obtain rfl : Literal.bool b = t := Except.ok.inj h
    exact ⟨_, (readable_bool b).lexes, (readable_bool b).finite, fun _ => ⟨_, rfl, rfl⟩⟩
  | float x =>
    obtain rfl : Literal.float x = t := Except.ok.inj h
    cases hx : x.toFloat.isFinite with
    | true =>
      exact ⟨_, (readable_float hx).lexes, (readable_float hx).finite, fun _ => ⟨_, rfl, Token.key?_of_isFinite hx⟩⟩
    | false =>
      obtain ⟨ws, hl, -, hno⟩ := Lexes.not_finite hx
      refine ⟨ws, hl, fun w hw y hy => absurd (hno w hw) (by simp [hy, Token.key?]), fun hfin => ?_⟩
      rw [Key.Finite, hx] at hfin
      cases hfin

theorem writtenEntries_cons {k : Key} {v : Value} {es : List (Key × Value)} {ts : List String}
    (h : writtenEntries ((k, v) :: es) = .ok ts) :
    ∃ a t us, Literal.key k = .ok a ∧ v.written = .ok t ∧ writtenEntries es = .ok us ∧ ts = (a ++ ": " ++ t) :: us := by
  simp only [writtenEntries, Outcome.bind_eq_ok, Outcome.pure_eq_ok] at h
  obtain ⟨a, ha, t, ht, us, hus, rfl⟩ := h
  exact ⟨a, t, us, ha, ht, hus, rfl⟩

/-- A key and its value. -/
theorem reads_entry {k : Key} {v : Value} (hk : k.Proper) (hin : v.Inline) (hv : v.ReadsBack) {a t : String}
    (ha : Literal.key k = .ok a) (ht : v.written = .ok t) :
    ∃ ws, Lexes Breaks (a ++ ": " ++ t).toList ws ∧ FiniteWords ws ∧ (k.Finite → v.FiniteKeys →
      ∃ w us, ws = w :: ⟨.colon, none⟩ :: us ∧ w.token.key? = some k ∧ Item us v.glue) := by
  obtain ⟨ws, hl, hf, hkey⟩ := reads_key hk ha
  obtain ⟨us, hr⟩ := hv hin t ht
  have hcolon : Lexes Anything [':', ' '] [⟨.colon, none⟩] := Lexes.symbol_gap (by decide) rfl (by decide)
  have htext : (a ++ ": " ++ t).toList = a.toList ++ ([':', ' '] ++ t.toList) := by simp
  refine ⟨ws ++ ([⟨.colon, none⟩] ++ us), ?_, ?_, fun hfin hvk => ?_⟩
  · rw [htext]
    exact hl.append (hcolon.then_ hr.lexes) fun _ _ => breaks_cons (by decide) _
  · exact finiteWords_append.2 ⟨hf, finiteWords_cons.2 ⟨by simp, hr.finite⟩⟩
  · obtain ⟨w, rfl, hw⟩ := hkey hfin
    exact ⟨w, us, rfl, hw, hr.item hvk⟩

/-- One entry or more, with commas between them. -/
theorem reads_entries {e : Key × Value} {es : List (Key × Value)} (hv : ∀ f ∈ e :: es, f.2.ReadsBack)
    (hin : EntriesInline (e :: es)) {ts : List String} (h : writtenEntries (e :: es) = .ok ts) :
    ∃ ws, Lexes Breaks (commas ts).toList ws ∧ FiniteWords ws ∧
      (EntriesFiniteKeys (e :: es) → DictEntries ws (glueEntries (e :: es))) := by
  induction es generalizing e ts with
  | nil =>
    obtain ⟨k, v⟩ := e
    obtain ⟨a, t, us, ha, ht, hus, rfl⟩ := writtenEntries_cons h
    obtain rfl : [] = us := Except.ok.inj hus
    obtain ⟨ws, hl, hf, hentry⟩ := reads_entry hin.1 hin.2.1 (hv _ List.mem_cons_self) ha ht
    refine ⟨ws, hl, hf, fun hk => ?_⟩
    obtain ⟨w, us, rfl, hw, hi⟩ := hentry hk.1 hk.2.1
    exact .last hw hi
  | cons f es ih =>
    obtain ⟨k, v⟩ := e
    obtain ⟨a, t, us, ha, ht, hus, rfl⟩ := writtenEntries_cons h
    obtain ⟨ws, hl, hf, hentry⟩ := reads_entry hin.1 hin.2.1 (hv _ List.mem_cons_self) ha ht
    obtain ⟨rs, hls, hfs, hentries⟩ := ih (fun g hg => hv g (List.mem_cons_of_mem _ hg)) hin.2.2 hus
    obtain ⟨k', v'⟩ := f
    obtain ⟨a', t', us', -, -, -, rfl⟩ := writtenEntries_cons hus
    refine ⟨ws ++ ⟨.comma, none⟩ :: rs, ?_, ?_, fun hk => ?_⟩
    · rw [commas_cons_cons]
      exact comma_then hl hls
    · exact finiteWords_append.2 ⟨hf, finiteWords_cons.2 ⟨by simp, hfs⟩⟩
    · obtain ⟨w, us, rfl, hw, hi⟩ := hentry hk.1 hk.2.1
      exact .more hw hi (hentries hk.2.2)

@[simp] theorem length_glueItems (vs : List Value) : (glueItems vs).length = vs.length := by
  induction vs with
  | nil => rfl
  | cons v vs ih => simp [glueItems, ih]

@[simp] theorem keys_glueEntries (es : List (Key × Value)) : Entries.keys (glueEntries es) = Entries.keys es := by
  induction es with
  | nil => rfl
  | cons e es ih => simp [glueEntries, ih]

/-- Entries with distinct keys are a dictionary as they are. -/
theorem collect_of_nodup {es : List (Key × Value)} (h : (Entries.keys es).Nodup) : collect es = es := by
  suffices hall : ∀ d : Dict, (Entries.keys (d ++ es)).Nodup →
      es.foldl (fun d e => Entries.put e.1 e.2 d) d = d ++ es from hall [] h
  clear h
  induction es with
  | nil => simp
  | cons e es ih =>
    intro d hd
    have hnot : e.1 ∉ Entries.keys d := by
      rw [Entries.keys_append, Entries.keys_cons, List.nodup_append] at hd
      exact fun he => hd.2.2 _ he _ List.mem_cons_self rfl
    rw [List.foldl_cons, Entries.put_of_not_mem hnot, ih _ (by simpa using hd)]
    simp

theorem readable_tuple {items : List Value} (hv : ∀ w ∈ items, w.ReadsBack) : (Value.tuple items).ReadsBack := by
  rintro ⟨hlen, hin⟩ t h
  simp only [written, Outcome.bind_eq_ok, Outcome.pure_eq_ok] at h
  obtain ⟨ts, hts, rfl⟩ := h
  rcases items with _ | ⟨v, _ | ⟨u, vs⟩⟩
  · simp at hlen
  · simp at hlen
  obtain ⟨ws, rs, hl, hf, hitems⟩ := reads_items hv hin hts
  have hl := hl.enclosed (a := '(') (b := ')') (by decide) rfl (by decide) rfl (by decide)
  have htext : ("(" ++ commas ts ++ ")").toList = '(' :: ((commas ts).toList ++ [')']) := by simp
  rw [htext]
  refine ⟨_, .of_item hl.anywhere (finiteWords_enclosed hf (by simp) (by simp)) rfl fun hk => ?_⟩
  obtain ⟨hi, hm⟩ := hitems hk
  rw [Value.glue, glueItems]
  exact .tuple hi hm (by simp [glueItems])

theorem readable_dict {entries : List (Key × Value)} (hv : ∀ e ∈ entries, e.2.ReadsBack) :
    (Value.dict entries).ReadsBack := by
  rintro ⟨hd, hin⟩ t h
  simp only [written, Outcome.bind_eq_ok, Outcome.pure_eq_ok] at h
  obtain ⟨ts, hts, rfl⟩ := h
  have htext : ("\x7b" ++ commas ts ++ "\x7d").toList = '\x7b' :: ((commas ts).toList ++ ['\x7d']) := by simp
  rw [htext]
  cases entries with
  | nil =>
    obtain rfl : [] = ts := Except.ok.inj hts
    have hl := Lexes.nil.enclosed (a := '\x7b') (b := '\x7d') (by decide) rfl (by decide) rfl (by decide)
    refine ⟨_, .of_item hl.anywhere (by simp [FiniteWords]) rfl fun _ => ?_⟩
    rw [Value.glue]
    exact .emptyDict none none
  | cons e es =>
    obtain ⟨ws, hl, hf, hentries⟩ := reads_entries hv hin hts
    have hl := hl.enclosed (a := '\x7b') (b := '\x7d') (by decide) rfl (by decide) rfl (by decide)
    refine ⟨_, .of_item hl.anywhere (finiteWords_enclosed hf (by simp) (by simp)) rfl fun hk => ?_⟩
    have hdict : Item (⟨.openBrace, none⟩ :: (ws ++ [⟨.closeBrace, none⟩]))
        (.dict (collect (glueEntries (e :: es)))) := .dict (hentries hk)
    rw [collect_of_nodup (by rw [keys_glueEntries]; exact hd)] at hdict
    rw [Value.glue]
    exact hdict

/-- What is written for a value inside a line is read back. -/
theorem Value.readsBack (v : Value) : v.ReadsBack := by
  induction v using Value.induction with
  | bool b =>
    rintro - t h
    obtain rfl : Literal.bool b = t := Except.ok.inj h
    exact ⟨_, readable_bool b⟩
  | int n =>
    rintro - t h
    obtain rfl : Literal.int n = t := Except.ok.inj h
    exact ⟨_, readable_int n⟩
  | float x =>
    rintro - t h
    obtain ⟨hx, rfl⟩ := finiteFloat_eq_ok h
    exact ⟨_, readable_float hx⟩
  | str s =>
    rintro - t h
    obtain ⟨hs, rfl⟩ := quoted_eq_ok h
    exact ⟨_, readable_str hs⟩
  | list | block => exact fun h => h.elim
  | tuple items ih => exact readable_tuple ih
  | dict entries ih => exact readable_dict ih
  | neg v ih =>
    rintro ⟨ha, hin⟩ t h
    simp only [written, Outcome.bind_eq_ok, Outcome.pure_eq_ok] at h
    obtain ⟨t, ht, rfl⟩ := h
    obtain ⟨ws, hr⟩ := ih hin t ht
    have htext : ("-" ++ parens v.isBinary t).toList = '-' :: (parens v.isBinary t).toList := by simp
    rw [htext]
    exact readable_neg ht ha hr
  | binary op l r ihl ihr =>
    rintro ⟨⟨hla, hl⟩, hra, hr⟩ t h
    simp only [written, Outcome.bind_eq_ok, Outcome.pure_eq_ok] at h
    obtain ⟨a, ha, b, hb, rfl⟩ := h
    obtain ⟨ls, hls⟩ := ihl hl a ha
    obtain ⟨rs, hrs⟩ := ihr hr b hb
    exact readable_binary op hls hla hrs hra
  | var s =>
    rintro hs t h
    obtain rfl : s = t := Except.ok.inj h
    exact ⟨_, readable_var hs⟩

end CaseSetup
