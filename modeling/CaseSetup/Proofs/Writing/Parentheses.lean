import CaseSetup.Proofs.Token.Tiles
import CaseSetup.Proofs.Writing.Obstacles
import CaseSetup.Proofs.Writing.Readable

/-! # The fewest parentheses

A tree of operators needs a pair of parentheses around each operand that binds too loosely for its
place. Every text of the tree opens at least so many, and the written one opens no more. -/

namespace CaseSetup

open Grammar

namespace Value

/-- How many operands in the value bind too loosely for their place. -/
def parentheses : Value → Nat
  | neg v => v.isBinary.toNat + v.parentheses
  | binary op l r =>
    (l.needsParens op false).toNat + l.parentheses + ((r.needsParens op true).toNat + r.parentheses)
  | _ => 0
termination_by structural v => v

/-- Is the value an operation that binds less tightly than `p`? -/
def isLooser (p : Nat) : Value → Bool
  | binary o _ _ => o.precedence < p
  | _ => false

theorem needsParens_left (v : Value) (op : Op) : v.needsParens op false = v.isLooser op.precedence := by
  cases v with
  | binary o l r => simp [needsParens, isLooser]
  | _ => rfl

theorem needsParens_right (v : Value) (op : Op) : v.needsParens op true = v.isLooser (op.precedence + 1) := by
  cases v with
  | binary o l r =>
    rw [needsParens, isLooser, Bool.eq_iff_iff]
    simp only [Bool.true_and, Bool.or_eq_true, decide_eq_true_eq]
    omega
  | _ => rfl

theorem toNat_isLooser_le (p : Nat) (v : Value) : (v.isLooser p).toNat ≤ v.isBinary.toNat := by
  cases v with
  | binary => exact Bool.toNat_le _
  | _ => exact Nat.le_refl 0

end Value

namespace Grammar

/-- How many parentheses the words open. -/
def opened (ws : Words) : Nat := ws.countP (·.token = .openParen)

theorem opened_append (ws rs : Words) : opened (ws ++ rs) = opened ws + opened rs := List.countP_append

theorem opened_cons (w : Word) (ws : Words) :
    opened (w :: ws) = opened ws + if w.token = .openParen then 1 else 0 := by
  simp [opened, List.countP_cons]

/-- A number that is split off is no parenthesis. -/
theorem Joins.opened_eq_zero {w : Word} {o : Op} {us : Words} (h : Joins w o us) : opened us = 0 := by
  cases h with
  | symbol => rfl
  | glued hs => cases hs <;> rfl

mutual
/-- An expression that stands where operators bind as tightly as `p` is in parentheses if it is looser. -/
theorem Expression.parentheses_le {p : Nat} {ws : Words} {v : Value} :
    Expression p ws v → (v.isLooser p).toNat + v.parentheses ≤ opened ws
  | .operand h => by
    have hv := h.parentheses_le
    have hp := v.toNat_isLooser_le p
    omega
  | @Expression.binary _ w o us ls rs l r hj hp hl hr => by
    have hle := hl.parentheses_le
    have hre := hr.parentheses_le
    have hloose : (Value.binary o l r).isLooser p = false := decide_eq_false (by omega)
    rw [opened_append, hj.opened_eq_zero] at hre
    rw [hloose, Value.parentheses, Value.needsParens_left, Value.needsParens_right, opened_append, opened_cons]
    simp only [Bool.toNat_false]
    omega

/-- An operand that is an operation is in parentheses. -/
theorem Operand.parentheses_le {ws : Words} {v : Value} :
    Operand ws v → v.isBinary.toNat + v.parentheses ≤ opened ws
  | .int .. | .float .. | .name .. => Nat.zero_le _
  | .neg h => by
    have hv := h.parentheses_le
    rw [opened_cons, Value.parentheses]
    simpa [Value.isBinary] using hv
  | .parens h => by
    have hv := h.parentheses_le
    have hb := v.isBinary.toNat_le
    rw [opened_cons, opened_append]
    simp only [↓reduceIte]
    omega
end

end Grammar

/-- Each parenthesis among the tokens is one in the text. -/
theorem Tiles.opened_le {before cs : List Char} {ts : List Located} {e : Ending} (h : Tiles before cs ts e) :
    opened (wordsOf ts) ≤ cs.count '(' := by
  induction h with
  | finish => exact Nat.zero_le _
  | malformed => exact Nat.zero_le _
  | @token before gap slice cs t ts e _ _ spelled _ _ _ ih =>
    have hslice : (if t.token = .openParen then 1 else 0) ≤ slice.count '(' := by
      split
      · rename_i ht
        rw [ht] at spelled
        rw [spelled.2]
        decide
      · exact Nat.zero_le _
    show opened (t.word :: wordsOf ts) ≤ _
    rw [opened_cons, List.count_append, List.count_append]
    have hword : t.word.token = t.token := rfl
    rw [hword]
    omega

/-! ## The written text -/

theorem Numeral.Plain.not_mem_openParen {n : Numeral} (h : n.Plain) : '(' ∉ n.chars := by
  have hdigits {ds : List Char} (hds : ∀ c ∈ ds, c.isDigit) : '(' ∉ ds := fun hmem => by cases hds _ hmem
  obtain ⟨g, ws, f, x⟩ := n
  simp only [chars, List.mem_append, not_or]
  refine ⟨?_, hdigits h.whole, ?_, ?_⟩
  · rcases g with _ | _ | _ <;> decide
  · rcases f with _ | ds
    · exact List.not_mem_nil
    · exact List.not_mem_cons_of_ne_of_not_mem (by decide) (hdigits (h.fraction ds rfl))
  · rcases x with _ | ⟨negative, ds⟩
    · exact List.not_mem_nil
    · have hds : '(' ∉ ds := hdigits (h.exponent _ rfl)
      cases negative <;> simp [exponentChars, hds]

theorem IsName.not_mem_openParen {s : String} (h : IsName s) : '(' ∉ s.toList := by
  obtain ⟨c, cs, hs, hc, hcs, -⟩ := h
  rw [hs]
  intro hmem
  rcases List.mem_cons.1 hmem with rfl | hmem
  · cases hc
  · cases hcs _ hmem

namespace Value

theorem count_parens (wanted : Bool) (t : String) :
    (parens wanted t).toList.count '(' = wanted.toNat + t.toList.count '(' := by
  rw [toList_parens]
  cases wanted <;> simp [Nat.add_comm]

/-- Writing opens a parenthesis around each operand that binds too loosely, and no other. -/
theorem count_written {v : Value} (ha : v.isArithmetic) (hv : v.Inline) {t : String} (ht : v.written = .ok t) :
    t.toList.count '(' = v.parentheses := by
  induction v using Value.induction generalizing t with
  | int n =>
    obtain rfl : Literal.int n = t := Except.ok.inj ht
    rw [Numeral.toList_int]
    exact List.count_eq_zero.2 (Numeral.plain_integer _ _).not_mem_openParen
  | float x =>
    obtain ⟨hx, rfl⟩ := finiteFloat_eq_ok ht
    obtain ⟨n, hn, -, -, -, hchars⟩ := Numeral.exists_float hx
    rw [← hchars]
    exact List.count_eq_zero.2 hn.not_mem_openParen
  | var s =>
    obtain rfl : s = t := Except.ok.inj ht
    exact List.count_eq_zero.2 (IsName.not_mem_openParen hv)
  | neg v ih =>
    obtain ⟨a, hw, rfl⟩ := Outcome.map_eq_ok.1 ht
    have hminus : "-".toList.count '(' = 0 := by decide
    rw [String.toList_append, List.count_append, count_parens, ih hv.1 hv.2 hw, hminus, Nat.zero_add, parentheses]
  | binary op l r ihl ihr =>
    obtain ⟨a, hl, hrest⟩ := Outcome.bind_eq_ok.1 ht
    obtain ⟨b, hr, rfl⟩ := Outcome.map_eq_ok.1 hrest
    have hlcount := ihl hv.1.1 hv.1.2 hl
    have hrcount := ihr hv.2.1 hv.2.2 hr
    have hspace : " ".toList.count '(' = 0 := by decide
    have hsymbol : op.symbol.toList.count '(' = 0 := by cases op <;> decide
    simp only [String.toList_append, List.count_append, count_parens, hlcount, hrcount, hspace, hsymbol,
      Nat.add_zero, parentheses]
  | _ => cases ha

theorem expression_of_parse {text : String} {v : Value} (h : Value.parse text = .ok v) (ha : v.isArithmetic) :
    Expression 1 (Scan.ofText text).words v := by
  obtain ⟨-, hright⟩ := rightSide_of_parse h
  generalize (Scan.ofText text).words = ws at hright ⊢
  cases hright with
  | item hi => exact hi.expression_of_isArithmetic ha
  | _ => cases ha

/-- What is written for an expression that was read opens the fewest parentheses of all texts that are read
as the same tree. -/
theorem written_fewest_parentheses {text : String} {v : Value} (h : Value.parse text = .ok v)
    (ha : v.isArithmetic) (hf : ∀ x ∈ v.floats, x.isFinite) :
    ∃ t, v.written = .ok t ∧ ∀ text', Value.parse text' = .ok v → t.toList.count '(' ≤ text'.toList.count '(' := by
  have hv := (expression_of_parse h ha).inline (Scan.properWords_ofText text)
  have hnone : v.obstacles = [] := by
    rw [hv.obstacles, infinities, List.map_eq_nil_iff, List.filter_eq_nil_iff]
    intro x hx
    rw [hf x hx]
    decide
  have hfault : Outcome.fault? v.written = none := by rw [v.fault?_written, hnone, List.head?_nil]
  obtain ⟨t, ht⟩ := Outcome.fault?_eq_none.1 hfault
  refine ⟨t, ht, fun text' h' => ?_⟩
  calc t.toList.count '(' = v.parentheses := count_written ha hv ht
    _ ≤ opened (Scan.ofText text').words := by
      have hle := (expression_of_parse h' ha).parentheses_le
      omega
    _ ≤ text'.toList.count '(' := (Scan.tiles text').opened_le

/-- Of three pairs of parentheses one is needed. -/
theorem written_fewest_parentheses_product :
    let v : Value := .binary .mul (.binary .add (.var "a") (.var "b")) (.neg (.var "c"))
    Value.parse "((a) + b) * -(c)" = .ok v ∧ v.isArithmetic ∧ (∀ x ∈ v.floats, x.isFinite) ∧
      v.written = .ok "(a + b) * -c" ∧
      ∀ text, Value.parse text = .ok v → "(a + b) * -c".toList.count '(' ≤ text.toList.count '(' := by
  intro v
  have hclean : (Scan.ofText "((a) + b) * -(c)").ending = .clean ⟨1, 16⟩ := by decide +kernel
  have hwords : (Scan.ofText "((a) + b) * -(c)").words = [⟨.openParen, none⟩, ⟨.openParen, none⟩,
      ⟨.name "a", none⟩, ⟨.closeParen, none⟩, ⟨.plus, none⟩, ⟨.name "b", none⟩, ⟨.closeParen, none⟩,
      ⟨.star, none⟩, ⟨.minus, none⟩, ⟨.openParen, none⟩, ⟨.name "c", none⟩, ⟨.closeParen, none⟩] := by
    decide +kernel
  have hname (s : String) : Operand (⟨.openParen, none⟩ :: ([⟨.name s, none⟩] ++ [⟨.closeParen, none⟩])) (.var s) :=
    .parens (.operand (.name s none))
  have hplus : Joins ⟨.plus, none⟩ .add [] := .symbol rfl
  have hstar : Joins ⟨.star, none⟩ .mul [] := .symbol rfl
  have hsum : Expression 1 _ (.binary .add (.var "a") (.var "b")) :=
    .binary hplus (by decide) (.operand (hname "a")) (.operand (.name "b" none))
  have hgroup : Operand (⟨.openParen, none⟩ :: (_ ++ [⟨.closeParen, none⟩])) _ := .parens hsum
  have hneg : Operand (⟨.minus, none⟩ :: _) (.neg (.var "c")) := .neg (hname "c")
  have hproduct : Expression 1 _ v := .binary hstar (by decide) (.operand hgroup) (.operand hneg)
  have hparse : Value.parse "((a) + b) * -(c)" = .ok v := by
    refine parse_eq_ok_iff.2 ⟨⟨_, hclean⟩, ?_⟩
    rw [hwords]
    exact .item (.expression hproduct)
  have hfloats : ∀ x ∈ v.floats, x.isFinite := by decide
  have hwritten : v.written = .ok "(a + b) * -c" := by cbv
  obtain ⟨t, ht, hfewest⟩ := written_fewest_parentheses hparse rfl hfloats
  obtain rfl : t = "(a + b) * -c" := Except.ok.inj (ht.symm.trans hwritten)
  exact ⟨hparse, rfl, hfloats, hwritten, hfewest⟩

end Value

end CaseSetup
