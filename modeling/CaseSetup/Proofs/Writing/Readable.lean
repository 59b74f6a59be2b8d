import CaseSetup.Proofs.Induction
import CaseSetup.Proofs.Outcome
import CaseSetup.Proofs.Token.Reading
import CaseSetup.Proofs.Writing.FiniteKeys
import CaseSetup.Writing

/-! # Reading written values

What is written for a value inside a line is read as words that are an item for the value with its
minus signs glued. A value in operand position is also an expression that binds tightly enough for
the place it was written in. -/

namespace CaseSetup

open Grammar Value

theorem Lexes.anywhere {f : List Char → Prop} {cs : List Char} {ws : Words} (h : Lexes Anything cs ws) :
    Lexes f cs ws :=
  h.weaken fun _ _ => trivial

/-- A piece between two symbols. -/
theorem Lexes.enclosed {cs : List Char} {ws : Words} {a b : Char} {s t : Token} (h : Lexes Breaks cs ws)
    (ha : a ∈ plainSymbols) (hs : Lexeme.symbol? a = some s) (hb : b ∈ plainSymbols)
    (ht : Lexeme.symbol? b = some t) (hbreak : b ∈ breakChars) :
    Lexes Anything (a :: (cs ++ [b])) (⟨s, none⟩ :: (ws ++ [⟨t, none⟩])) :=
  (symbol ha hs).then_ (h.append (symbol hb ht) fun _ _ => breaks_cons hbreak _)

/-- A symbol with a blank after it. -/
theorem Lexes.symbol_gap {c d : Char} {t : Token} (hc : c ∈ plainSymbols) (ht : Lexeme.symbol? c = some t)
    (hd : Scan.isGap d) : Lexes Anything [c, d] [⟨t, none⟩] :=
  (symbol hc ht).then_ (gap hd)

theorem finiteWords_enclosed {ws : Words} {v w : Word} (h : FiniteWords ws) (hv : ∀ x, v.token ≠ .float x)
    (hw : ∀ x, w.token ≠ .float x) : FiniteWords (v :: (ws ++ [w])) := by
  have hnil : FiniteWords [] := by simp [FiniteWords]
  refine finiteWords_cons.2 ⟨fun x hx => absurd hx (hv x), finiteWords_append.2 ⟨h, ?_⟩⟩
  exact finiteWords_cons.2 ⟨fun x hx => absurd hx (hw x), hnil⟩

/-- The text `cs` of a value is read as the words `ws`. -/
structure Readable (v : Value) (cs : List Char) (ws : Words) : Prop where
  lexes : Lexes Breaks cs ws
  finite : FiniteWords ws
  item : v.FiniteKeys → Item ws v.glue
  operand : v.isArithmetic → v.isBinary = false → Operand ws v.glue
  expression : v.isArithmetic → ∀ p, (∀ op l r, v = .binary op l r → p ≤ op.precedence) →
    Expression p ws v.glue
  /-- A minus sign in front would not be glued to it. -/
  apart : v.isUnsigned = false → v.isArithmetic → v.isBinary = false →
    ∀ rest, Lexeme.startsDigits (cs ++ rest) = false

namespace Readable

variable {v : Value} {cs : List Char} {ws : Words}

theorem of_item (hl : Lexes Breaks cs ws) (hf : FiniteWords ws) (ha : v.isArithmetic = false)
    (hi : v.FiniteKeys → Item ws v.glue) : Readable v cs ws where
  lexes := hl
  finite := hf
  item := hi
  operand h := by simp [ha] at h
  expression h := by simp [ha] at h
  apart _ h := by simp [ha] at h

theorem of_operand (hl : Lexes Breaks cs ws) (hf : FiniteWords ws) (ho : Operand ws v.glue)
    (hapart : v.isUnsigned = false → ∀ rest, Lexeme.startsDigits (cs ++ rest) = false) : Readable v cs ws where
  lexes := hl
  finite := hf
  item _ := .expression (.operand ho)
  operand _ _ := ho
  expression _ _ _ := .operand ho
  apart hu _ _ := hapart hu

/-- In parentheses it is an operand. -/
theorem parens (h : Readable v cs ws) (ha : v.isArithmetic) :
    ∃ ws', Lexes Breaks ('(' :: (cs ++ [')'])) ws' ∧ FiniteWords ws' ∧ Operand ws' v.glue := by
  have hl := h.lexes.enclosed (a := '(') (b := ')') (by decide) rfl (by decide) rfl (by decide)
  refine ⟨_, hl.anywhere, finiteWords_enclosed h.finite (by simp) (by simp), ?_⟩
  exact .parens (h.expression ha 1 fun op _ _ _ => op.one_le_precedence)

/-- In parentheses or not, as wanted, it stands where operators bind as tightly as `p`. -/
theorem within (h : Readable v cs ws) (ha : v.isArithmetic) (wanted : Bool) {p : Nat}
    (hp : wanted = false → ∀ op l r, v = .binary op l r → p ≤ op.precedence) :
    ∃ ws', Lexes Breaks (if wanted then '(' :: (cs ++ [')']) else cs) ws' ∧ FiniteWords ws' ∧
      Expression p ws' v.glue := by
  cases wanted with
  | false => exact ⟨ws, h.lexes, h.finite, h.expression ha p (hp rfl)⟩
  | true =>
    obtain ⟨ws', hl, hf, ho⟩ := h.parens ha
    exact ⟨ws', hl, hf, .operand ho⟩

end Readable

theorem startsDigits_minus (cs : List Char) : Lexeme.startsDigits ('-' :: cs) = false := rfl

theorem startsDigits_of_isWordStart {c : Char} (hc : Lexeme.isWordStart c) (cs : List Char) :
    Lexeme.startsDigits (c :: cs) = false := by
  have hpoint : c ≠ '.' := by
    rintro rfl
    exact absurd hc (by decide)
  have hdigit : c.isDigit = false := by
    cases hd : c.isDigit with
    | false => rfl
    | true =>
      rw [Lexeme.not_isWordStart_of_isDigit hd] at hc
      cases hc
  simp [Lexeme.startsDigits, hpoint, hdigit]

theorem readable_bool (b : Bool) : Readable (.bool b) (Literal.bool b).toList [⟨.bool b, none⟩] :=
  .of_item (Lexes.bool b) (by simp [FiniteWords]) rfl fun _ => by
    rw [Value.glue]
    exact .bool b none

theorem readable_int (n : Int64) :
    Readable (.int n) (Literal.int n).toList [⟨.int n, Numeral.signOf (n.toInt < 0)⟩] := by
  refine .of_operand (Lexes.int n) (by simp [FiniteWords]) ?_ ?_
  · rw [Value.glue]
    exact .int n _
  · intro h rest
    have hneg : n.toInt < 0 := by simpa [isUnsigned] using h
    rw [Numeral.toList_int, Numeral.chars_integer, decide_eq_true hneg]
    exact startsDigits_minus _

theorem readable_float {x : Float} (hx : x.isFinite) :
    Readable (.float x) (Literal.float x).toList [⟨.float x, Numeral.signOf (FloatParts.isSigned x)⟩] := by
  refine .of_operand (Lexes.float hx) ?_ ?_ ?_
  · rw [FiniteWords, List.forall_mem_singleton]
    rintro y h
    obtain rfl : x = y := Token.float.inj h
    exact hx
  · rw [Value.glue]
    exact .float x _
  · intro h rest
    have hs : FloatParts.isSigned x = true := by simpa [isUnsigned] using h
    obtain ⟨d, -, -, htext⟩ := FloatParts.toList_float hx literalStyle rfl
    rw [Literal.float, htext, hs]
    exact startsDigits_minus _

theorem readable_str {s : String} (hs : '"' ∉ s.toList) :
    Readable (.str s) ("\"" ++ s ++ "\"").toList [⟨.str s, none⟩] := by
  have htext : ("\"" ++ s ++ "\"").toList = '"' :: (s.toList ++ ['"']) := by simp
  refine .of_item ?_ (by simp [FiniteWords]) rfl fun _ => ?_
  · rw [htext]
    exact (Lexes.str hs).anywhere
  · rw [Value.glue]
    exact .str s none

theorem readable_var {s : String} (hs : IsName s) : Readable (.var s) s.toList [⟨.name s, none⟩] := by
  refine .of_operand (Lexes.name hs) (by simp [FiniteWords]) ?_ fun _ rest => ?_
  · rw [Value.glue]
    exact .name s none
  · obtain ⟨c, cs, htext, hc, -, -⟩ := hs
    rw [htext]
    exact startsDigits_of_isWordStart hc _

theorem toList_parens (wanted : Bool) (t : String) :
    (parens wanted t).toList = if wanted then '(' :: (t.toList ++ [')']) else t.toList := by
  cases wanted <;> simp [parens]

theorem finiteFloat_eq_ok {x : Float} {t : String} (h : Literal.finiteFloat x = .ok t) :
    x.isFinite ∧ t = Literal.float x := by
  unfold Literal.finiteFloat at h
  split at h
  · rename_i hx
    cases h
    exact ⟨hx, rfl⟩
  · cases h

theorem quoted_eq_ok {s t : String} (h : Literal.quoted s = .ok t) : '"' ∉ s.toList ∧ t = "\"" ++ s ++ "\"" := by
  unfold Literal.quoted at h
  split at h
  · cases h
  · rename_i hs
    cases h
    exact ⟨hs, rfl⟩

section

variable {v l r : Value} {t a b : String} {ws ls rs : Words}

/-- A minus sign in front of a number without sign is read as a part of it. -/
theorem readable_neg_unsigned (h : v.isUnsigned) (ht : v.written = .ok t) :
    ∃ ws, Readable (.neg v) ('-' :: t.toList) ws := by
  cases v with
  | int n =>
    have hn : 0 ≤ n.toInt := by simpa [isUnsigned] using h
    obtain rfl : Literal.int n = t := Except.ok.inj ht
    refine ⟨_, .of_operand (Lexes.int_glued hn) (by simp [FiniteWords]) ?_ fun _ _ => startsDigits_minus _⟩
    rw [Value.glue, glueNeg, if_pos hn]
    exact .int (-n) _
  | float x =>
    have hs : FloatParts.isSigned x = false := by simpa [isUnsigned] using h
    obtain ⟨hx, rfl⟩ := finiteFloat_eq_ok ht
    refine ⟨_, .of_operand (Lexes.float_glued hx hs) ?_ ?_ fun _ _ => startsDigits_minus _⟩
    · rw [FiniteWords, List.forall_mem_singleton]
      rintro y h
      obtain rfl : -x = y := Token.float.inj h
      exact FloatParts.isFinite_neg hx
    · rw [Value.glue, glueNeg, hs]
      exact .float (-x) _
  | _ => cases h

/-- In front of all else it is a word of its own. -/
theorem readable_neg_apart (h : v.isUnsigned = false) (ha : v.isArithmetic) (hr : Readable v t.toList ws) :
    ∃ ws, Readable (.neg v) ('-' :: (parens v.isBinary t).toList) ws := by
  have hbody : ∃ ws', Lexes Breaks (parens v.isBinary t).toList ws' ∧ FiniteWords ws' ∧ Operand ws' v.glue ∧
      ∀ rest, Lexeme.startsDigits ((parens v.isBinary t).toList ++ rest) = false := by
    rw [toList_parens]
    cases hb : v.isBinary with
    | false => exact ⟨ws, hr.lexes, hr.finite, hr.operand ha hb, hr.apart h ha hb⟩
    | true =>
      obtain ⟨ws', hl, hf, ho⟩ := hr.parens ha
      exact ⟨ws', hl, hf, ho, fun _ => rfl⟩
  obtain ⟨ws', hl, hf, ho, hstart⟩ := hbody
  refine ⟨_, .of_operand (Lexes.minus.append hl fun rest _ => hstart rest) ?_ ?_ fun _ _ => startsDigits_minus _⟩
  · exact finiteWords_cons.2 ⟨by simp, hf⟩
  · rw [Value.glue, glueNeg_of_signed h]
    exact .neg ho

theorem readable_neg (ht : v.written = .ok t) (ha : v.isArithmetic) (hr : Readable v t.toList ws) :
    ∃ ws, Readable (.neg v) ('-' :: (parens v.isBinary t).toList) ws := by
  cases h : v.isUnsigned with
  | false => exact readable_neg_apart h ha hr
  | true =>
    have hb : v.isBinary = false := by
      cases v with
      | binary => cases h
      | _ => rfl
    have hparens : parens v.isBinary t = t := by rw [hb]; rfl
    rw [hparens]
    exact readable_neg_unsigned h ht

/-- An operand without parentheses binds as tightly as its place asks for. -/
theorem le_precedence_of_needsParens {op o : Op} {right : Bool} {l r : Value}
    (h : (Value.binary o l r).needsParens op right = false) :
    (if right then op.precedence + 1 else op.precedence) ≤ o.precedence := by
  simp only [needsParens, Bool.or_eq_false_iff, Bool.and_eq_false_iff, decide_eq_false_iff_not] at h
  cases right
  · simpa using h.1
  · have hne : ¬ o.precedence = op.precedence := by simpa using h.2
    have hle := h.1
    simp only [↓reduceIte]
    omega

theorem readable_binary (op : Op) (hl : Readable l a.toList ls) (hla : l.isArithmetic)
    (hr : Readable r b.toList rs) (hra : r.isArithmetic) :
    ∃ ws, Readable (.binary op l r) (parens (l.needsParens op false) a ++ " " ++ op.symbol ++ " " ++
      parens (r.needsParens op true) b).toList ws := by
  obtain ⟨ls', hll, hlf, hle⟩ := hl.within hla (l.needsParens op false) (p := op.precedence) (by
    rintro h o l r rfl
    exact le_precedence_of_needsParens h)
  obtain ⟨rs', hrl, hrf, hre⟩ := hr.within hra (r.needsParens op true) (p := op.precedence + 1) (by
    rintro h o l r rfl
    exact le_precedence_of_needsParens h)
  have htext : (parens (l.needsParens op false) a ++ " " ++ op.symbol ++ " " ++
        parens (r.needsParens op true) b).toList =
      (if l.needsParens op false then '(' :: (a.toList ++ [')']) else a.toList) ++ ((' ' :: op.char :: [' ']) ++
        (if r.needsParens op true then '(' :: (b.toList ++ [')']) else b.toList)) := by
    simp [toList_parens, Op.symbol_toList]
  have hexpr : ∀ p, p ≤ op.precedence →
      Expression p (ls' ++ ([⟨op.token, none⟩] ++ rs')) (.binary op l.glue r.glue) :=
    fun p hp => .binary (.symbol (Op.op?_token op)) hp hle hre
  refine ⟨ls' ++ ([⟨op.token, none⟩] ++ rs'), ?_, ?_, ?_, ?_, ?_, ?_⟩
  · rw [htext]
    exact hll.append ((Lexes.operator op).then_ hrl) fun _ _ => breaks_cons (by decide) _
  · refine finiteWords_append.2 ⟨hlf, finiteWords_cons.2 ⟨?_, hrf⟩⟩
    cases op <;> simp [Op.token]
  · intro _
    rw [Value.glue]
    exact .expression (hexpr 1 op.one_le_precedence)
  · intro _ h
    cases h
  · intro _ p hp
    rw [Value.glue]
    exact hexpr p (hp op l r rfl)
  · intro _ _ h
    cases h

end

end CaseSetup
