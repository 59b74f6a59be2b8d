import CaseSetup.Proofs.Evaluation.Glued
import CaseSetup.Proofs.Writing.Places
import CaseSetup.Proofs.Writing.RoundTrip

/-! # Writing again what was read back

The text of a glued tree is that of the tree, except that a negated integer zero loses its sign.
So what is written once is either written again or gets shorter. -/

namespace CaseSetup

open Value

/-- The text `t'` is `t`, or it is shorter; shorter exactly if `n` holds. -/
structure Shrinks (t t' : String) (n : Prop) : Prop where
  same : ¬ n → t' = t
  shorter : n → t'.length < t.length

namespace Shrinks

variable {t t' u u' : String} {n m : Prop}

theorem const (t : String) : Shrinks t t False where
  same _ := rfl
  shorter h := h.elim

theorem length_le (h : Shrinks t t' n) : t'.length ≤ t.length := by
  by_cases hn : n
  · exact Nat.le_of_lt (h.shorter hn)
  · exact Nat.le_of_eq (congrArg String.length (h.same hn))

theorem eq_iff (h : Shrinks t t' n) : t' = t ↔ ¬ n := by
  refine ⟨fun heq hn => ?_, h.same⟩
  have hlt := h.shorter hn
  rw [heq] at hlt
  exact Nat.lt_irrefl _ hlt

theorem append (h : Shrinks t t' n) (h' : Shrinks u u' m) : Shrinks (t ++ u) (t' ++ u') (n ∨ m) where
  same hnm := by rw [h.same fun hn => hnm (.inl hn), h'.same fun hm => hnm (.inr hm)]
  shorter hnm := by
    have hle := h.length_le
    have hle' := h'.length_le
    rw [String.length_append, String.length_append]
    rcases hnm with hn | hm
    · have := h.shorter hn
      omega
    · have := h'.shorter hm
      omega

theorem before (a : String) (h : Shrinks t t' n) : Shrinks (a ++ t) (a ++ t') n := by
  simpa using (const a).append h

theorem after (h : Shrinks t t' n) (a : String) : Shrinks (t ++ a) (t' ++ a) n := by
  simpa using h.append (const a)

theorem parens (h : Shrinks t t' n) (wanted : Bool) :
    Shrinks (Value.parens wanted t) (Value.parens wanted t') n := by
  cases wanted with
  | false => exact h
  | true => exact (h.before "(").after ")"

end Shrinks

@[simp] theorem isBinary_glue (v : Value) : v.glue.isBinary = v.isBinary := by
  cases v with
  | neg v => exact glue_neg_of (P := fun w => w.isBinary = false) v rfl (fun _ => rfl) fun _ => rfl
  | _ => rfl

@[simp] theorem needsParens_glue (op : Op) (right : Bool) (v : Value) :
    v.glue.needsParens op right = v.needsParens op right := by
  cases v with
  | neg v => exact glue_neg_of (P := fun w => w.needsParens op right = false) v rfl (fun _ => rfl) fun _ => rfl
  | _ => rfl

@[simp] theorem isTuple_glue (v : Value) : v.glue.isTuple = v.isTuple := by
  cases v with
  | neg v => exact glue_neg_of (P := fun w => w.isTuple = false) v rfl (fun _ => rfl) fun _ => rfl
  | _ => rfl

theorem isBare_glueItems (items : List Value) : isBare (glueItems items) = isBare items := by
  have hall : (glueItems items).all isTuple = items.all isTuple := by
    induction items with
    | nil => rfl
    | cons v vs ih => rw [glueItems, List.all_cons, List.all_cons, ih, isTuple_glue]
  rw [isBare, isBare, hall, length_glueItems]

/-- The text of a negative integer is that of its magnitude with a minus sign. -/
theorem int_neg {n : Int64} (h : 0 < n.toInt) : Literal.int (-n) = "-" ++ Literal.int n := by
  have hneg : (-n).toInt = -n.toInt := Lexes.toInt_neg_of_nonneg (Int.le_of_lt h)
  have hlt : -n.toInt < 0 := by omega
  have hge : ¬ n.toInt < 0 := by omega
  apply String.toList_injective
  rw [String.toList_append, Numeral.toList_int, Numeral.toList_int, Numeral.chars_integer, Numeral.chars_integer,
    hneg, Int.natAbs_neg, decide_eq_true hlt, decide_eq_false hge]
  rfl

theorem float_neg {x : Float} (hx : x.isFinite) (hs : FloatParts.isSigned x = false) :
    Literal.float (-x) = "-" ++ Literal.float x := by
  apply String.toList_injective
  rw [FloatParts.toList_float_neg hx hs, String.toList_append]
  rfl

/-- Of the negated integers without sign, zero alone is written without its minus sign. -/
theorem shrinks_int {n : Int64} (hn : 0 ≤ n.toInt) :
    Shrinks ("-" ++ Literal.int n) (Literal.int (-n)) (isIntZero (.int n)) := by
  by_cases h : n = 0
  · subst h
    exact ⟨fun h => absurd rfl h, fun _ => by decide⟩
  · have hzero : n.toInt ≠ 0 := fun h0 => h (Int64.toInt_inj.1 h0)
    refine ⟨fun _ => int_neg (by omega), fun hz => ?_⟩
    rw [isIntZero, decide_eq_true_iff] at hz
    exact absurd hz h

/-- Commas between texts that shrink. -/
theorem shrinks_commas {t t' : String} {us us' : List String} {n m : Prop} (h : Shrinks t t' n)
    (h' : Shrinks (commas us) (commas us') m) (hlen : us'.length = us.length) :
    Shrinks (commas (t :: us)) (commas (t' :: us')) (n ∨ m) := by
  cases us with
  | nil =>
    obtain rfl : us' = [] := List.length_eq_zero_iff.1 hlen
    have hm : ¬ m := h'.eq_iff.1 rfl
    simpa [commas, hm] using h
  | cons u us =>
    cases us' with
    | nil => simp at hlen
    | cons u' us' => exact (h.after ", ").append h'

/-- The text of a value and that of the glued value. -/
def Value.Shrinking (v : Value) : Prop :=
  ∀ t, v.written = .ok t → ∃ t', v.glue.written = .ok t' ∧ Shrinks t t' (v.Negates isIntZero)

theorem shrinks_items {items : List Value} (hv : ∀ v ∈ items, v.Shrinking) {ts : List String}
    (h : writtenItems items = .ok ts) : ∃ ts', writtenItems (glueItems items) = .ok ts' ∧ ts'.length = ts.length ∧
      Shrinks (commas ts) (commas ts') (ItemsNegate isIntZero items) := by
  induction items generalizing ts with
  | nil =>
    obtain rfl : [] = ts := Except.ok.inj h
    exact ⟨[], rfl, rfl, .const ""⟩
  | cons v vs ih =>
    obtain ⟨t, us, ht, hus, rfl⟩ := writtenItems_cons h
    obtain ⟨t', ht', hs⟩ := hv v List.mem_cons_self t ht
    obtain ⟨us', hus', hlen, hs'⟩ := ih (fun w hw => hv w (List.mem_cons_of_mem _ hw)) hus
    refine ⟨t' :: us', ?_, by simp [hlen], ?_⟩
    · rw [glueItems, writtenItems, ht', hus']
      rfl
    · rw [ItemsNegate]
      exact shrinks_commas hs hs' hlen

theorem shrinks_entries {es : List (Key × Value)} (hv : ∀ e ∈ es, e.2.Shrinking) {ts : List String}
    (h : writtenEntries es = .ok ts) : ∃ ts', writtenEntries (glueEntries es) = .ok ts' ∧ ts'.length = ts.length ∧
      Shrinks (commas ts) (commas ts') (EntriesNegate isIntZero es) := by
  induction es generalizing ts with
  | nil =>
    obtain rfl : [] = ts := Except.ok.inj h
    exact ⟨[], rfl, rfl, .const ""⟩
  | cons e es ih =>
    obtain ⟨k, v⟩ := e
    obtain ⟨a, t, us, ha, ht, hus, rfl⟩ := writtenEntries_cons h
    obtain ⟨t', ht', hs⟩ := hv _ List.mem_cons_self t ht
    obtain ⟨us', hus', hlen, hs'⟩ := ih (fun f hf => hv f (List.mem_cons_of_mem _ hf)) hus
    refine ⟨(a ++ ": " ++ t') :: us', ?_, by simp [hlen], ?_⟩
    · rw [glueEntries, writtenEntries, ha, ht', hus']
      rfl
    · rw [EntriesNegate]
      exact shrinks_commas (hs.before (a ++ ": ")) hs' hlen

theorem shrinking_of_glue_eq {v : Value} (hv : v.glue = v) (hn : ¬ v.Negates isIntZero) : v.Shrinking := by
  intro t h
  refine ⟨t, by rw [hv, h], fun _ => rfl, fun hneg => absurd hneg hn⟩

theorem shrinking_neg {v : Value} (ih : v.Shrinking) : (Value.neg v).Shrinking := by
  intro t h
  simp only [written, Outcome.bind_eq_ok, Outcome.pure_eq_ok] at h
  obtain ⟨t, ht, rfl⟩ := h
  rw [Value.Negates]
  rcases glue_neg_cases v with ⟨hu, h⟩ | ⟨n, rfl, hn, h⟩ | ⟨x, rfl, hx, h⟩
  · obtain ⟨t', ht', hs⟩ := ih t ht
    have hzero : ¬ isIntZero v := by
      cases v with
      | int n =>
        rintro hz
        rw [isIntZero, decide_eq_true_iff] at hz
        subst hz
        cases hu
      | _ => exact Bool.false_ne_true
    refine ⟨"-" ++ parens v.isBinary t', ?_, ?_⟩
    · rw [h, written, ht', isBinary_glue]
      rfl
    · simpa [hzero] using (hs.parens v.isBinary).before "-"
  · obtain rfl : Literal.int n = t := Except.ok.inj ht
    refine ⟨Literal.int (-n), by rw [h]; rfl, ?_⟩
    show Shrinks ("-" ++ Literal.int n) _ _
    simpa [Value.Negates] using shrinks_int hn
  · obtain ⟨hfin, rfl⟩ := finiteFloat_eq_ok ht
    refine ⟨Literal.float (-x), ?_, ?_⟩
    · rw [h, written, Literal.finiteFloat, if_pos (FloatParts.isFinite_neg hfin)]
    · show Shrinks ("-" ++ Literal.float x) _ _
      rw [float_neg hfin hx]
      simpa [Value.Negates, isIntZero] using Shrinks.const ("-" ++ Literal.float x)

theorem Value.shrinking (v : Value) : v.Shrinking := by
  induction v using Value.induction with
  | bool | int | float | str | var => exact shrinking_of_glue_eq rfl id
  | block => exact fun t h => nomatch h
  | list items ih =>
    intro t h
    simp only [written, Outcome.bind_eq_ok, Outcome.pure_eq_ok] at h
    obtain ⟨ts, hts, rfl⟩ := h
    obtain ⟨ts', hts', -, hs⟩ := shrinks_items ih hts
    refine ⟨"[" ++ commas ts' ++ "]", ?_, (hs.before "[").after "]"⟩
    rw [Value.glue, written, hts']
    rfl
  | tuple items ih =>
    intro t h
    simp only [written, Outcome.bind_eq_ok, Outcome.pure_eq_ok] at h
    obtain ⟨ts, hts, rfl⟩ := h
    obtain ⟨ts', hts', -, hs⟩ := shrinks_items ih hts
    refine ⟨"(" ++ commas ts' ++ ")", ?_, (hs.before "(").after ")"⟩
    rw [Value.glue, written, hts']
    rfl
  | dict entries ih =>
    intro t h
    simp only [written, Outcome.bind_eq_ok, Outcome.pure_eq_ok] at h
    obtain ⟨ts, hts, rfl⟩ := h
    obtain ⟨ts', hts', -, hs⟩ := shrinks_entries ih hts
    refine ⟨"\x7b" ++ commas ts' ++ "\x7d", ?_, (hs.before "\x7b").after "\x7d"⟩
    rw [Value.glue, written, hts']
    rfl
  | neg v ih => exact shrinking_neg ih
  | binary op l r ihl ihr =>
    intro t h
    simp only [written, Outcome.bind_eq_ok, Outcome.pure_eq_ok] at h
    obtain ⟨a, ha, b, hb, rfl⟩ := h
    obtain ⟨a', ha', hl⟩ := ihl a ha
    obtain ⟨b', hb', hr⟩ := ihr b hb
    refine ⟨_, by rw [Value.glue, written, ha', hb']; rfl, ?_⟩
    rw [needsParens_glue, needsParens_glue, Value.Negates]
    exact ((((hl.parens _).after " ").after op.symbol).after " ").append (hr.parens _)

theorem writtenRight_of_not_list {v : Value} (h : ∀ items, v ≠ .list items) : v.writtenRight = v.written := by
  cases v with
  | list items => exact absurd rfl (h items)
  | _ => rfl

theorem shrinks_right {v : Value} {t : String} (h : v.writtenRight = .ok t) :
    ∃ t', v.glue.writtenRight = .ok t' ∧ Shrinks t t' (v.Negates isIntZero) := by
  by_cases hv : ∃ items, v = .list items
  · obtain ⟨items, rfl⟩ := hv
    rw [Value.glue, writtenRight, isBare_glueItems]
    rw [writtenRight] at h
    split at h
    · rename_i hbare
      obtain ⟨ts, hts, rfl⟩ := Outcome.map_eq_ok.1 h
      obtain ⟨ts', hts', -, hs⟩ := shrinks_items (fun v _ => v.shrinking) hts
      refine ⟨commas ts', ?_, hs⟩
      rw [if_pos hbare, hts']
      rfl
    · rename_i hbare
      have hlist := (Value.list items).shrinking t h
      rw [Value.glue] at hlist
      rw [if_neg hbare]
      exact hlist
  · have hv : ∀ items, v ≠ .list items := fun items hitems => hv ⟨items, hitems⟩
    have hglue : ∀ items, v.glue ≠ .list items := by
      cases v with
      | list items => exact absurd rfl (hv items)
      | neg v => exact glue_neg_of (P := fun w => ∀ items, w ≠ .list items) v (by simp) (by simp) (by simp)
      | _ => simp [Value.glue]
    rw [writtenRight_of_not_list hglue]
    rw [writtenRight_of_not_list hv] at h
    exact v.shrinking t h

theorem shrinks_block {b : List (String × Value)} {depth : Nat} (hv : ∀ e ∈ b, ∀ name t,
      writtenBinding depth name e.2 = .ok t →
        ∃ t', writtenBinding depth name e.2.glue = .ok t' ∧ Shrinks t t' (e.2.Negates isIntZero)) {t : String}
    (h : writtenBlock depth b = .ok t) :
    ∃ t', writtenBlock depth (glueBlock b) = .ok t' ∧ Shrinks t t' (BlockNegates isIntZero b) := by
  induction b generalizing t with
  | nil =>
    obtain rfl : "" = t := Except.ok.inj h
    exact ⟨"", rfl, .const ""⟩
  | cons e b ih =>
    obtain ⟨name, v⟩ := e
    simp only [writtenBlock, Outcome.bind_eq_ok, Outcome.pure_eq_ok] at h
    obtain ⟨t, ht, ts, hts, rfl⟩ := h
    obtain ⟨t', ht', hs⟩ := hv _ List.mem_cons_self name t ht
    obtain ⟨ts', hts', hs'⟩ := ih (fun f hf => hv f (List.mem_cons_of_mem _ hf)) hts
    refine ⟨t' ++ ts', ?_, ?_⟩
    · rw [glueBlock, writtenBlock, ht', hts']
      rfl
    · rw [BlockNegates]
      exact hs.append hs'

theorem shrinks_assignment {v : Value} (hv : ∀ c, v ≠ .block c) {depth : Nat} {name t : String}
    (h : writtenBinding depth name v = .ok t) :
    ∃ t', writtenBinding depth name v.glue = .ok t' ∧ Shrinks t t' (v.Negates isIntZero) := by
  have hglue : ∀ c, v.glue ≠ .block c := by
    rcases glue_block_cases v with ⟨c, hc, -⟩ | ⟨-, hglue⟩
    · exact absurd hc (hv c)
    · exact hglue
  rw [writtenBinding_of_not_block hv] at h
  simp only [Outcome.bind_eq_ok, Outcome.pure_eq_ok] at h
  obtain ⟨t, ht, rfl⟩ := h
  obtain ⟨t', ht', hs⟩ := shrinks_right ht
  refine ⟨tabs depth ++ name ++ " = " ++ t' ++ "\n", ?_, (hs.before _).after "\n"⟩
  rw [writtenBinding_of_not_block hglue, ht']
  rfl

theorem shrinks_binding (v : Value) : ∀ depth name t, writtenBinding depth name v = .ok t →
    ∃ t', writtenBinding depth name v.glue = .ok t' ∧ Shrinks t t' (v.Negates isIntZero) := by
  induction v using Value.induction with
  | block b ih =>
    intro depth name t h
    simp only [writtenBinding, Outcome.bind_eq_ok, Outcome.pure_eq_ok] at h
    obtain ⟨t, ht, rfl⟩ := h
    obtain ⟨t', ht', hs⟩ := shrinks_block (fun e he => ih e he (depth + 1)) ht
    refine ⟨tabs depth ++ name ++ " \x7b\n" ++ t' ++ tabs depth ++ "\x7d\n", ?_,
      ((hs.before _).after (tabs depth)).after "\x7d\n"⟩
    rw [Value.glue, writtenBinding, ht']
    rfl
  | _ => exact fun _ _ _ h => shrinks_assignment (by simp) h

namespace Block

/-- The text of a document and that of the glued document. -/
theorem written_glue {b : Block} {t : String} (h : b.written = .ok t) :
    ∃ t', b.glue.written = .ok t' ∧ Shrinks t t' (b.Negates isIntZero) :=
  shrinks_block (fun e _ => shrinks_binding e.2 0) h

/-- What is written for a parsed block with finite keys is read back with all names and keys in
their order and with every value, and it is written again exactly if no integer zero is negated. -/
theorem serialize_keeps_document {text t : String} {b : Block} (hp : Block.parse text = .ok b) (hk : b.FiniteKeys)
    (hs : b.serialize false = .ok t) :
    ∃ c, Block.parse t = .ok c ∧ (c.serialize false = .ok t ↔ ¬ b.Negates isIntZero) ∧ c.places = b.places ∧
      (∀ path, Outcome.Agree Eq (b.getPath path) (c.getPath path)) ∧ c.evaluated = b.evaluated := by
  refine ⟨b.glue, parse_written (regular_of_parse hp) hk hs, ?_, b.places_glue, b.getPath_glue, b.evaluated_glue⟩
  obtain ⟨t', ht', hshrinks⟩ := written_glue hs
  rw [← hshrinks.eq_iff]
  show b.glue.written = .ok t ↔ _
  rw [ht', Except.ok.injEq]

/-- A negated zero is written with its sign once, and then without; its value stays. -/
theorem serialize_keeps_document_zero :
    Block.parse "x = - 0" = .ok [("x", .neg (.int 0))] ∧ Block.FiniteKeys [("x", .neg (.int 0))] ∧
      Block.serialize [("x", .neg (.int 0))] false = .ok "x = -0\n" ∧
      ∃ c, Block.parse "x = -0\n" = .ok c ∧ c.serialize false ≠ .ok "x = -0\n" ∧ c.places = [[.entry "x"]] ∧
        c.getPath "x" = .ok (.int 0) ∧ c.evaluated = .ok [("x", .int 0)] := by
  have hp : Block.parse "x = - 0" = .ok [("x", .neg (.int 0))] :=
    parse_assignment (p := ⟨1, 7⟩) (by decide +kernel) (by decide +kernel)
      (.item (.expression (.operand (.neg (g := none) (.int 0 none)))))
  have hk : Block.FiniteKeys [("x", .neg (.int 0))] := by simp [Block.FiniteKeys, BlockFiniteKeys, Value.FiniteKeys]
  have hs : Block.serialize [("x", .neg (.int 0))] false = .ok "x = -0\n" := by cbv
  have hget : Block.getPath [("x", .neg (.int 0))] "x" = .ok (.int 0) := by cbv
  have heval : Block.evaluated [("x", .neg (.int 0))] = .ok [("x", .int 0)] := by cbv
  obtain ⟨c, hc, hiff, hplaces, hpath, hall⟩ := serialize_keeps_document hp hk hs
  refine ⟨hp, hk, hs, c, hc, fun h => hiff.1 h ?_, hplaces, ?_, hall.trans heval⟩
  · simp [Block.Negates, BlockNegates, Value.Negates, Value.isIntZero]
  · have hagree := hpath "x"
    rw [hget] at hagree
    generalize c.getPath "x" = r at hagree
    cases hagree with
    | ok h => rw [h]

end Block

end CaseSetup
