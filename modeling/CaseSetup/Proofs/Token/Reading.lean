import CaseSetup.Proofs.Grammar.Relation
import CaseSetup.Proofs.Token.Literal
import CaseSetup.Proofs.Token.Pattern
import CaseSetup.Proofs.Token.Proper

/-! # Reading a text piece by piece

`Lexes fits cs ws` says that the scan of a text starting with `cs` has the words `ws` and then goes
on, whatever follows that fits. The pieces of a written configuration are put together by it. -/

namespace CaseSetup

/-- The equation of the scan without the proofs that it ends. -/
theorem Scan.ofChars_eq (p : Position) (cs : List Char) :
    Scan.ofChars p cs = match cs.dropWhile isGap with
      | [] => ⟨[], .clean (p.after (cs.takeWhile isGap))⟩
      | c :: rest => match Lexeme.scan c rest with
        | .error m => ⟨[], .malformed (p.after (cs.takeWhile isGap)) m⟩
        | .ok (l, rest') => ⟨⟨l.token, l.sign, p.after (cs.takeWhile isGap),
              (p.after (cs.takeWhile isGap)).after l.slice⟩ ::
            (Scan.ofChars ((p.after (cs.takeWhile isGap)).after l.slice) rest').tokens,
            (Scan.ofChars ((p.after (cs.takeWhile isGap)).after l.slice) rest').ending⟩ := by
  rw [Scan.ofChars]
  split
  · rename_i h
    rw [h]
  · rename_i c rest h
    rw [h]
    split
    · rename_i m hm
      simp only [hm]
    · rename_i l rest' hl
      simp only [hl]

/-- The scan with the tokens `ts` in front. -/
def Scan.prepend (ts : List Located) (s : Scan) : Scan := ⟨ts ++ s.tokens, s.ending⟩

/-- The text `cs` is read as the words `ws` in front of any text that fits. -/
def Lexes (fits : List Char → Prop) (cs : List Char) (ws : Words) : Prop :=
  ∀ p rest, fits rest → ∃ ts q, wordsOf ts = ws ∧ Scan.ofChars p (cs ++ rest) = (Scan.ofChars q rest).prepend ts

/-- Any text may follow. -/
def Anything (_ : List Char) : Prop := True

/-- The character and the token of an operator. -/
def Op.char : Op → Char
  | add => '+'
  | sub => '-'
  | mul => '*'
  | div => '/'
  | pow => '^'

def Op.token : Op → Token
  | add => .plus
  | sub => .minus
  | mul => .star
  | div => .slash
  | pow => .caret

theorem Op.symbol_toList (o : Op) : o.symbol.toList = [o.char] := by
  cases o <;> decide

theorem Op.op?_token (o : Op) : o.token.op? = some o := by
  cases o <;> rfl

namespace Lexes

variable {f g : List Char → Prop} {cs ds : List Char} {ws vs : Words}

theorem nil : Lexes f [] [] := fun p _ _ => ⟨[], p, rfl, rfl⟩

theorem append (h : Lexes f cs ws) (h' : Lexes g ds vs) (hfits : ∀ rest, g rest → f (ds ++ rest)) :
    Lexes g (cs ++ ds) (ws ++ vs) := by
  intro p rest hrest
  obtain ⟨ts, q, hts, hscan⟩ := h p (ds ++ rest) (hfits rest hrest)
  obtain ⟨ts', q', hts', hscan'⟩ := h' q rest hrest
  refine ⟨ts ++ ts', q', by simp [wordsOf] at hts hts' ⊢; rw [hts, hts'], ?_⟩
  rw [List.append_assoc, hscan, hscan']
  simp [Scan.prepend]

/-- A piece that anything may follow. -/
theorem then_ (h : Lexes Anything cs ws) (h' : Lexes g ds vs) : Lexes g (cs ++ ds) (ws ++ vs) :=
  h.append h' fun _ _ => trivial

theorem weaken (h : Lexes f cs ws) (hfits : ∀ rest, g rest → f rest) : Lexes g cs ws :=
  fun p rest hrest => h p rest (hfits rest hrest)

/-- A whole text is scanned to its end. -/
theorem scan {text : String} (h : Lexes f text.toList ws) (hf : f []) :
    (Scan.ofText text).words = ws ∧ ∃ p, (Scan.ofText text).ending = .clean p := by
  obtain ⟨ts, q, hts, hscan⟩ := h .start [] hf
  have hempty : Scan.ofChars q [] = ⟨[], .clean (q.after [])⟩ := by rw [Scan.ofChars_eq]; rfl
  rw [List.append_nil, hempty] at hscan
  rw [Scan.ofText, hscan]
  refine ⟨?_, _, rfl⟩
  rw [Scan.words, Scan.prepend, List.append_nil]
  exact hts

/-- A blank character between tokens adds no word. -/
theorem gap {c : Char} (hc : Scan.isGap c) : Lexes Anything [c] [] := by
  intro p rest _
  refine ⟨[], p.next c, rfl, ?_⟩
  show Scan.ofChars p (c :: rest) = Scan.ofChars (p.next c) rest
  rw [Scan.ofChars_eq, Scan.ofChars_eq (p.next c)]
  simp only [List.takeWhile_cons, List.dropWhile_cons, hc, ↓reduceIte, Position.after_cons]

/-- One lexeme. -/
theorem lexeme {w : Word} (h : ∀ rest, f rest → ∃ c cs', cs ++ rest = c :: cs' ∧ Scan.isGap c = false ∧
    ∃ slice, Lexeme.scan c cs' = .ok (⟨w.token, w.sign, slice⟩, rest)) : Lexes f cs [w] := by
  intro p rest hrest
  obtain ⟨c, cs', hcs, hgap, slice, hscan⟩ := h rest hrest
  refine ⟨[⟨w.token, w.sign, p, p.after slice⟩], p.after slice, rfl, ?_⟩
  rw [hcs, Scan.ofChars_eq]
  simp only [List.takeWhile_cons, List.dropWhile_cons, hgap, Bool.false_eq_true, ↓reduceIte, hscan,
    Position.after_nil]
  rfl

/-- The symbols that are read alike whatever follows. -/
def plainSymbols : List Char := ['=', ',', ':', '(', ')', '[', ']', '\x7b', '\x7d']

theorem symbol {c : Char} {t : Token} (hc : c ∈ plainSymbols) (ht : Lexeme.symbol? c = some t) :
    Lexes Anything [c] [⟨t, none⟩] := by
  have hall : ∀ c ∈ plainSymbols, Scan.isGap c = false ∧ Lexeme.isWordStart c = false ∧ c.isDigit = false ∧
      c ≠ '/' ∧ c ≠ '"' ∧ c ≠ '-' ∧ c ≠ '+' ∧ c ≠ '.' := List.all_iff_forall_prop.1 (by decide)
  obtain ⟨hgap, hword, hdigit, hslash, hquote, hminus, hplus, hpoint⟩ := hall c hc
  refine lexeme fun rest _ => ⟨c, rest, rfl, hgap, [c], ?_⟩
  have hnum : Lexeme.startsNumber (c :: rest) = false := by
    simp [Lexeme.startsNumber, Numeral.scanSign, hminus, hplus, Lexeme.startsDigits, hpoint, hdigit]
  simp [Lexeme.scan, hslash, hquote, hword, hnum, ht]

/-- A minus sign in front of what is no digit. -/
theorem minus : Lexes (fun rest => Lexeme.startsDigits rest = false) ['-'] [⟨.minus, none⟩] := by
  refine lexeme fun rest hrest => ⟨'-', rest, rfl, by decide, ['-'], ?_⟩
  have hnum : Lexeme.startsNumber ('-' :: rest) = false := hrest
  have hword : Lexeme.isWordStart '-' = false := by decide
  simp [Lexeme.scan, hword, hnum, Lexeme.symbol?]

/-- An operator between blanks. -/
theorem operator (o : Op) : Lexes Anything (' ' :: o.char :: [' ']) [⟨o.token, none⟩] := by
  have hmid : Lexes (fun rest => rest.head? = some ' ') [o.char] [⟨o.token, none⟩] := by
    refine lexeme fun rest hrest => ⟨o.char, rest, rfl, ?_, [o.char], ?_⟩
    · cases o <;> decide
    · obtain ⟨rest, rfl⟩ : ∃ rest', rest = ' ' :: rest' := by
        cases rest with
        | nil => cases hrest
        | cons c rest =>
          obtain rfl : c = ' ' := Option.some.inj hrest
          exact ⟨rest, rfl⟩
      cases o <;> rfl
  have hspace : Lexes Anything [' '] [] := gap (by decide)
  exact hspace.then_ (hmid.append hspace fun _ _ => rfl)

theorem blanks {cs : List Char} (h : ∀ c ∈ cs, Scan.isGap c) : Lexes Anything cs [] := by
  induction cs with
  | nil => exact nil
  | cons c cs ih =>
    have hc : Lexes Anything [c] [] := gap (h c List.mem_cons_self)
    exact hc.then_ (ih fun d hd => h d (List.mem_cons_of_mem _ hd))

/-- A string without quote, between quotes. -/
theorem str {s : String} (hs : '"' ∉ s.toList) : Lexes Anything ('"' :: (s.toList ++ ['"'])) [⟨.str s, none⟩] := by
  refine lexeme fun rest _ => ⟨'"', s.toList ++ '"' :: rest, by simp, by decide, '"' :: s.toList ++ ['"'], ?_⟩
  have hbody : ∀ c ∈ s.toList, (decide (c ≠ '"')) = true := by
    intro c hc
    refine decide_eq_true ?_
    rintro rfl
    exact hs hc
  have hstop : ∀ c ∈ ('"' :: rest).head?, decide (c ≠ '"') = false := by
    rintro c hc
    obtain rfl : '"' = c := Option.some.inj hc
    rfl
  have hslash : ¬ ('"' = '/' ∧ (s.toList ++ '"' :: rest).head? = some '/') := by
    rintro ⟨h, -⟩
    exact absurd h (by decide)
  rw [Lexeme.scan, if_neg hslash, if_pos rfl, Lexeme.scanString]
  simp only [takeWhile_append_stop hbody hstop, dropWhile_append_stop hbody hstop, String.ofList_toList]

theorem not_isWordChar_of_breaks {rest : List Char} (h : Breaks rest) :
    ∀ c ∈ rest.head?, Lexeme.isWordChar c = false := by
  have hall : ∀ c ∈ breakChars, Lexeme.isWordChar c = false := List.all_iff_forall_prop.1 (by decide)
  exact fun c hc => hall c (h c hc)

theorem not_isGap_of_isWordStart {c : Char} (h : Lexeme.isWordStart c) : Scan.isGap c = false := by
  cases hg : Scan.isGap c with
  | false => rfl
  | true =>
    simp only [Scan.isGap, Bool.or_eq_true, decide_eq_true_eq] at hg
    rcases hg with ((rfl | rfl) | rfl) | rfl <;> exact absurd h (by decide)

/-- A word, with the token that it spells. -/
theorem word {c : Char} {cs : List Char} (hc : Lexeme.isWordStart c) (hcs : ∀ d ∈ cs, Lexeme.isWordChar d) :
    Lexes Breaks (c :: cs) [⟨Lexeme.wordToken (c :: cs), none⟩] := by
  have hall : ∀ d ∈ c :: cs, Lexeme.isWordChar d := by
    intro d hd
    rcases List.mem_cons.1 hd with rfl | hd
    · exact Lexeme.isWordChar_of_isWordStart hc
    · exact hcs d hd
  refine lexeme fun rest hrest => ⟨c, cs ++ rest, rfl, not_isGap_of_isWordStart hc, c :: cs, ?_⟩
  have hstop := not_isWordChar_of_breaks hrest
  have hslash : c ≠ '/' := by
    rintro rfl
    exact absurd hc (by decide)
  have hquote : c ≠ '"' := by
    rintro rfl
    exact absurd hc (by decide)
  rw [Lexeme.scan, if_neg (fun h => hslash h.1), if_neg hquote, if_pos hc, ← List.cons_append]
  simp only [takeWhile_append_stop hall hstop, dropWhile_append_stop hall hstop]

theorem name {s : String} (hs : IsName s) : Lexes Breaks s.toList [⟨.name s, none⟩] := by
  obtain ⟨c, cs, htext, hc, hcs, htoken⟩ := hs
  rw [htext, ← htoken]
  exact word hc hcs

theorem bool (b : Bool) : Lexes Breaks (Literal.bool b).toList [⟨.bool b, none⟩] := by
  cases b
  · have h : Lexes Breaks ['F', 'A', 'L', 'S', 'E'] [⟨.bool false, none⟩] :=
      word (by decide) (List.all_iff_forall_prop.1 (by decide))
    exact h
  · have h : Lexes Breaks ['T', 'R', 'U', 'E'] [⟨.bool true, none⟩] :=
      word (by decide) (List.all_iff_forall_prop.1 (by decide))
    exact h

theorem numeral {n : Numeral} {t : Token} (h : n.Plain)
    (hscan : ∀ rest, Breaks rest → Lexeme.scanNumber (n.chars ++ rest) = .ok (⟨t, n.sign, n.chars⟩, rest)) :
    Lexes Breaks n.chars [⟨t, n.sign⟩] := by
  refine lexeme fun rest hrest => ?_
  have hne : n.chars ++ rest ≠ [] := by
    simp [Numeral.chars, h.whole_ne]
  obtain ⟨c, cs, hcs⟩ := List.exists_cons_of_ne_nil hne
  have hne : ∀ d ∈ [' ', '\t', '\r', '\n'], c ≠ d := by
    intro d hd
    have hall : ∀ d ∈ [' ', '\t', '\r', '\n'], d.isDigit = false ∧ d ≠ '-' ∧ d ≠ '+' :=
      List.all_iff_forall_prop.1 (by decide)
    obtain ⟨hdigit, hminus, hplus⟩ := hall d hd
    exact Lexeme.head_number_ne h hcs hdigit hminus hplus
  refine ⟨c, cs, hcs, ?_, n.chars, ?_⟩
  · simpa [Scan.isGap, and_assoc] using hne
  · rw [Lexeme.scan_number h hcs, ← hcs, hscan rest hrest]

open Numeral FloatParts

/-- The text of an integer, or of one without sign after a minus sign. -/
theorem integer {g : Option Sign} {k : Nat} {n : Int64} (h : n.toInt = if g = some .minus then -(k : Int) else k) :
    Lexes Breaks (Numeral.integer g k).chars [⟨.int n, g⟩] :=
  numeral (plain_integer g k) fun _ hrest =>
    Lexeme.scanNumber_int (plain_integer g k) rfl (toInt?_integer h) hrest

theorem int (n : Int64) : Lexes Breaks (Literal.int n).toList [⟨.int n, signOf (n.toInt < 0)⟩] := by
  rw [toList_int]
  exact numeral (plain_integer _ _) fun _ hrest =>
    Lexeme.scanNumber_int (plain_integer _ _) rfl (toInt?_int n) hrest

theorem toInt_neg_of_nonneg {n : Int64} (hn : 0 ≤ n.toInt) : (-n).toInt = -n.toInt := by
  have hlt := n.toInt_lt
  rw [Int64.toInt_neg, Int.bmod_eq_of_le]
  · omega
  · omega

/-- A minus sign in front of an integer without sign is glued to it. -/
theorem int_glued {n : Int64} (hn : 0 ≤ n.toInt) :
    Lexes Breaks ('-' :: (Literal.int n).toList) [⟨.int (-n), some .minus⟩] := by
  have hneg : ¬ n.toInt < 0 := by omega
  have htext : '-' :: (Literal.int n).toList = (Numeral.integer (some .minus) n.toInt.natAbs).chars := by
    rw [toList_int, chars_integer, chars_integer]
    simp [signOf, hneg, signChars, Sign.char]
  rw [htext]
  refine integer ?_
  rw [toInt_neg_of_nonneg hn, if_pos rfl]
  omega

theorem float {x : Float} (hx : x.isFinite) :
    Lexes Breaks (Literal.float x).toList [⟨.float x, signOf (isSigned x)⟩] := by
  obtain ⟨n, hplain, hfloat, hsign, hval, hchars⟩ := exists_float hx
  rw [← hchars, ← hsign]
  exact numeral hplain fun _ hrest => Lexeme.scanNumber_float hplain hfloat hval hrest

theorem float_glued {x : Float} (hx : x.isFinite) (hs : isSigned x = false) :
    Lexes Breaks ('-' :: (Literal.float x).toList) [⟨.float (-x), some .minus⟩] := by
  have h := float (isFinite_neg hx)
  rw [toList_float_neg hx hs, isSigned_neg hx, hs] at h
  exact h

/-- What is written for a float that is not finite is no number, and no key of any kind. -/
theorem not_finite {x : Float} (hx : x.isFinite = false) :
    ∃ ws, Lexes Breaks (Literal.float x).toList ws ∧ ws ≠ [] ∧ ∀ w ∈ ws, w.token.key? = none := by
  have hx : x.toModel.unpack.isFinite = false := hx
  have hinf : Lexes Breaks ['i', 'n', 'f'] [⟨.name (.ofList ['i', 'n', 'f']), none⟩] :=
    word (by decide) (List.all_iff_forall_prop.1 (by decide))
  have hnan : Lexes Breaks ['N', 'a', 'N'] [⟨.name (.ofList ['N', 'a', 'N']), none⟩] :=
    word (by decide) (List.all_iff_forall_prop.1 (by decide))
  rw [Literal.float, NumberStyle.float, String.toList_ofList]
  cases hu : x.toModel.unpack with
  | zero s | finite s m q hm =>
    rw [hu] at hx
    cases hx
  | notANumber => exact ⟨_, hnan, by simp, by simp [Token.key?]⟩
  | infinity s =>
    cases s with
    | positive => exact ⟨_, hinf, by simp, by simp [Token.key?]⟩
    | negative => exact ⟨_, minus.append hinf fun _ _ => rfl, by simp, by simp [Token.key?]⟩

end Lexes

end CaseSetup
