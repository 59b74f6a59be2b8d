import CaseSetup.Proofs.Entries
import CaseSetup.Proofs.Grammar.Completeness
import CaseSetup.Proofs.Token.Proper

/-! # What a document can hold

Names are words, strings hold no quote, keys are unique, lists and blocks stand only directly under
a name, tuples have two items or more, and operands are numbers or expressions. A parsed document
is so (`regular_of_parse`). -/

namespace CaseSetup

/-- A string key holds no quote. -/
def Key.Proper : Key → Prop
  | str s => '"' ∉ s.toList
  | _ => True

mutual
/-- May the value stand inside a line? -/
def Value.Inline : Value → Prop
  | .bool _ | .int _ | .float _ => True
  | .str s => '"' ∉ s.toList
  | .list _ | .block _ => False
  | .tuple items => 2 ≤ items.length ∧ AllInline items
  | .dict entries => (Entries.keys entries).Nodup ∧ EntriesInline entries
  | .neg v => v.isArithmetic ∧ v.Inline
  | .binary _ l r => (l.isArithmetic ∧ l.Inline) ∧ r.isArithmetic ∧ r.Inline
  | .var s => IsName s
termination_by structural v => v

def AllInline : List Value → Prop
  | [] => True
  | v :: vs => v.Inline ∧ AllInline vs
termination_by structural vs => vs

def EntriesInline : List (Key × Value) → Prop
  | [] => True
  | (k, v) :: es => k.Proper ∧ v.Inline ∧ EntriesInline es
termination_by structural es => es
end

mutual
/-- May the value stand directly under a name? -/
def Value.Regular : Value → Prop
  | .list items => AllInline items
  | .block b => (Entries.keys b).Nodup ∧ BlockRegular b
  | v => v.Inline
termination_by structural v => v

def BlockRegular : List (String × Value) → Prop
  | [] => True
  | (s, v) :: b => IsName s ∧ v.Regular ∧ BlockRegular b
termination_by structural b => b
end

/-- A block of which every part stands where a document can have it. -/
def Block.Regular (b : Block) : Prop := (Value.block b).Regular

theorem Value.Inline.regular {v : Value} (h : v.Inline) : v.Regular := by
  cases v with
  | list | block => exact h.elim
  | _ => exact h

theorem entriesInline_iff {es : List (Key × Value)} :
    EntriesInline es ↔ ∀ e ∈ es, e.1.Proper ∧ e.2.Inline := by
  induction es with
  | nil => simp [EntriesInline]
  | cons e es ih => simp [EntriesInline, ih, and_assoc]

namespace Grammar

/-- All tokens are proper. -/
def ProperWords (ws : Words) : Prop := ∀ w ∈ ws, w.token.Proper

theorem ProperWords.append {ws rs : Words} : ProperWords (ws ++ rs) ↔ ProperWords ws ∧ ProperWords rs := by
  simp [ProperWords, or_imp, forall_and]

theorem ProperWords.cons {w : Word} {ws : Words} : ProperWords (w :: ws) ↔ w.token.Proper ∧ ProperWords ws := by
  simp [ProperWords]

theorem proper_joins {w : Word} {o : Op} {us : Words} (h : Joins w o us) : ProperWords us := by
  cases h with
  | symbol => simp [ProperWords]
  | glued hs => cases hs <;> simp [ProperWords, Token.Proper]

mutual
theorem Expression.inline {p : Nat} {ws : Words} {v : Value} : Expression p ws v → ProperWords ws → v.Inline
  | .operand h, hw => h.inline hw
  | .binary hj _ hl hr, hw => by
    obtain ⟨hls, hrs⟩ := ProperWords.append.1 hw
    obtain ⟨-, hrs⟩ := ProperWords.cons.1 hrs
    exact ⟨⟨hl.isArithmetic, hl.inline hls⟩, hr.isArithmetic, hr.inline (ProperWords.append.2 ⟨proper_joins hj, hrs⟩)⟩

theorem Operand.inline {ws : Words} {v : Value} : Operand ws v → ProperWords ws → v.Inline
  | .int .., _ | .float .., _ => trivial
  | .name s g, hw => hw _ List.mem_cons_self
  | .neg h, hw => ⟨h.isArithmetic, h.inline (ProperWords.cons.1 hw).2⟩
  | .parens h, hw => h.inline (ProperWords.append.1 (ProperWords.cons.1 hw).2).1
end

theorem nodup_collect (es : List (Key × Value)) : (Entries.keys (collect es)).Nodup := by
  suffices h : ∀ d : Dict, (Entries.keys d).Nodup →
      (Entries.keys (es.foldl (fun d e => Entries.put e.1 e.2 d) d)).Nodup from h [] (by simp)
  induction es with
  | nil => exact fun d h => h
  | cons e es ih => exact fun d h => ih _ (Entries.nodup_put h)

theorem mem_collect {es : List (Key × Value)} {e : Key × Value} (h : e ∈ collect es) : e ∈ es := by
  suffices hall : ∀ d : Dict, e ∈ es.foldl (fun d e => Entries.put e.1 e.2 d) d → e ∈ d ∨ e ∈ es by
    exact (hall [] h).resolve_left List.not_mem_nil
  clear h
  induction es with
  | nil => exact fun d h => .inl h
  | cons f es ih =>
    intro d h
    rcases ih _ h with h | h
    · rcases Entries.mem_put h with rfl | h
      · exact .inr List.mem_cons_self
      · exact .inl h
    · exact .inr (List.mem_cons_of_mem _ h)

theorem proper_key {t : Token} {k : Key} (h : t.key? = some k) (ht : t.Proper) : k.Proper := by
  unfold Token.key? at h
  split at h <;> cases h
  · exact ht
  · trivial
  · trivial
  · trivial

mutual
theorem Item.inline {ws : Words} {v : Value} : Item ws v → ProperWords ws → v.Inline
  | .str s g, hw => hw _ List.mem_cons_self
  | .bool .., _ => trivial
  | .expression h, hw => h.inline hw
  | @Item.tuple _ _ _ _ v vs hi hm hvs, hw => by
    obtain ⟨hw, -⟩ := ProperWords.append.1 (ProperWords.cons.1 hw).2
    obtain ⟨hws, hrs⟩ := ProperWords.append.1 hw
    have hlen : 2 ≤ (v :: vs).length := by
      have := List.length_pos_iff.2 hvs
      rw [List.length_cons]
      omega
    exact ⟨hlen, hi.inline hws, hm.inline hrs⟩
  | .emptyDict .., _ => ⟨List.nodup_nil, trivial⟩
  | @Item.dict _ _ _ es hes, hw => by
    obtain ⟨hw, -⟩ := ProperWords.append.1 (ProperWords.cons.1 hw).2
    have hall := entriesInline_iff.1 (hes.inline hw)
    exact ⟨nodup_collect es, entriesInline_iff.2 fun e he => hall e (mem_collect he)⟩

theorem MoreItems.inline {ws : Words} {vs : List Value} : MoreItems ws vs → ProperWords ws → AllInline vs
  | .nil, _ => trivial
  | .cons hi hm, hw => by
    obtain ⟨hws, hrs⟩ := ProperWords.append.1 (ProperWords.cons.1 hw).2
    exact ⟨hi.inline hws, hm.inline hrs⟩

theorem DictEntries.inline {ws : Words} {es : List (Key × Value)} :
    DictEntries ws es → ProperWords ws → EntriesInline es
  | .last hk hi, hw => by
    obtain ⟨hkey, hw⟩ := ProperWords.cons.1 hw
    exact ⟨proper_key hk hkey, hi.inline (ProperWords.cons.1 hw).2, trivial⟩
  | .more hk hi hes, hw => by
    obtain ⟨hkey, hw⟩ := ProperWords.cons.1 hw
    obtain ⟨hws, hrs⟩ := ProperWords.append.1 (ProperWords.cons.1 hw).2
    exact ⟨proper_key hk hkey, hi.inline hws, hes.inline (ProperWords.cons.1 hrs).2⟩
end

theorem RightSide.regular {ws : Words} {v : Value} (h : RightSide ws v) (hw : ProperWords ws) : v.Regular := by
  cases h with
  | item hi => exact (hi.inline hw).regular
  | bare hi hm _ =>
    obtain ⟨hws, hrs⟩ := ProperWords.append.1 hw
    exact ⟨hi.inline hws, hm.inline hrs⟩
  | emptyList => trivial
  | list hi hm =>
    obtain ⟨hw, -⟩ := ProperWords.append.1 (ProperWords.cons.1 hw).2
    obtain ⟨hws, hrs⟩ := ProperWords.append.1 hw
    exact ⟨hi.inline hws, hm.inline hrs⟩

theorem Statements.regular {ws : Words} {b : Block} (h : Statements ws b) (hw : ProperWords ws) : b.Regular := by
  induction h with
  | nil => exact ⟨List.nodup_nil, trivial⟩
  | comment _ ih => exact ih (ProperWords.cons.1 hw).2
  | assign hs hr _ ih =>
    obtain ⟨hname, hw⟩ := ProperWords.cons.1 hw
    obtain ⟨hws, hrs⟩ := ProperWords.append.1 (ProperWords.cons.1 hw).2
    obtain ⟨hd, hb⟩ := ih hrs
    exact ⟨List.nodup_cons.2 ⟨hs, hd⟩, hname, hr.regular hws, hb⟩
  | nested hs _ _ ihc ih =>
    obtain ⟨hname, hw⟩ := ProperWords.cons.1 hw
    obtain ⟨hws, hrs⟩ := ProperWords.append.1 (ProperWords.cons.1 hw).2
    obtain ⟨hd, hb⟩ := ih (ProperWords.cons.1 hrs).2
    exact ⟨List.nodup_cons.2 ⟨hs, hd⟩, hname, ihc hws, hb⟩

end Grammar

/-- The words of a text hold what the text of one can. -/
theorem Scan.properWords_ofText (text : String) : Grammar.ProperWords (Scan.ofText text).words := by
  intro w hw
  obtain ⟨t, ht, rfl⟩ := List.mem_map.1 hw
  exact Scan.proper _ _ t ht

/-- A parsed document is regular. -/
theorem Block.regular_of_parse {text : String} {b : Block} (h : Block.parse text = .ok b) : b.Regular :=
  (Block.document_of_parse h).2.regular (Scan.properWords_ofText text)

end CaseSetup
