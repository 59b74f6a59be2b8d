import CaseSetup.Proofs.Token.Numeral
import Mathlib.Computability.Language

/-! # What patterns find

A pattern has a language, and the matches at the front of a text are the ones in its language that the
text starts with. Which of them is found depends on the order in which they are tried. The patterns of
numbers find the numeral that `Numeral.scan` takes apart: a point or an exponent is tried before it is
left out, and digits are never given back, as what comes after them starts with none. -/

namespace CaseSetup

open scoped Computability

namespace Pattern

variable {p q : Char → Bool} {r s : Pattern} {c : Char} {cs m rest : List Char}

/-- The single characters for which `p` holds. -/
def singles (p : Char → Bool) : Language Char := {cs | ∃ c, p c ∧ cs = [c]}

def language : Pattern → Language Char
  | skip => 1
  | one p => singles p
  | many p => (singles p)∗
  | seq r s => r.language * s.language
  | alt r s => r.language + s.language

theorem mem_language_many : m ∈ (many p).language ↔ ∀ c ∈ m, p c := by
  rw [language, Language.mem_kstar]
  constructor
  · rintro ⟨parts, rfl, hparts⟩ c hc
    obtain ⟨part, hpart, hc⟩ := List.mem_flatten.1 hc
    obtain ⟨d, hd, rfl⟩ := hparts part hpart
    rwa [List.mem_singleton.1 hc]
  · intro h
    refine ⟨m.map fun c => [c], by simp [← List.flatMap_def], fun part hpart => ?_⟩
    obtain ⟨c, hc, rfl⟩ := List.mem_map.1 hpart
    exact ⟨c, h c hc, rfl⟩

theorem mem_language_plus : m ∈ (plus p).language ↔ m ≠ [] ∧ ∀ c ∈ m, p c := by
  constructor
  · rintro ⟨_, ⟨c, hc, rfl⟩, rest, hrest, rfl⟩
    exact ⟨by simp, List.forall_mem_cons.2 ⟨hc, mem_language_many.1 hrest⟩⟩
  · rintro ⟨hne, hall⟩
    obtain ⟨c, rest, rfl⟩ := List.exists_cons_of_ne_nil hne
    obtain ⟨hc, hrest⟩ := List.forall_mem_cons.1 hall
    exact ⟨[c], ⟨c, hc, rfl⟩, rest, mem_language_many.2 hrest, rfl⟩

theorem mem_manyEnds : rest ∈ manyEnds p cs ↔ ∃ m, (∀ c ∈ m, p c) ∧ m ++ rest = cs := by
  induction cs with
  | nil => simp [manyEnds]
  | cons c cs ih =>
    rw [manyEnds]
    constructor
    · intro h
      split at h
      · rename_i hc
        rcases List.mem_append.1 h with h | h
        · obtain ⟨m, hm, rfl⟩ := ih.1 h
          exact ⟨c :: m, List.forall_mem_cons.2 ⟨hc, hm⟩, rfl⟩
        · exact ⟨[], by simp, List.mem_singleton.1 h⟩
      · exact ⟨[], by simp, List.mem_singleton.1 h⟩
    · rintro ⟨_ | ⟨d, m⟩, hm, happ⟩
      · obtain rfl : rest = c :: cs := happ
        split <;> simp
      · obtain ⟨rfl, rfl⟩ := List.cons.inj happ
        obtain ⟨hd, hm⟩ := List.forall_mem_cons.1 hm
        rw [if_pos hd]
        exact List.mem_append_left _ (ih.2 ⟨m, hm, rfl⟩)

/-- The matches that are tried are those of the language. -/
theorem mem_ends : rest ∈ r.ends cs ↔ ∃ m ∈ r.language, m ++ rest = cs := by
  induction r generalizing cs rest with
  | skip => simp [ends, language, Language.mem_one]
  | one p =>
    cases cs with
    | nil =>
      refine iff_of_false (by simp [ends]) ?_
      rintro ⟨_, ⟨d, -, rfl⟩, happ⟩
      cases happ
    | cons c cs =>
      rw [ends]
      constructor
      · intro h
        split at h
        · rename_i hc
          exact ⟨[c], ⟨c, hc, rfl⟩, by rw [List.mem_singleton.1 h, List.singleton_append]⟩
        · cases h
      · rintro ⟨_, ⟨d, hd, rfl⟩, happ⟩
        obtain ⟨rfl, rfl⟩ := List.cons.inj happ
        exact if_pos hd ▸ List.mem_singleton_self _
  | many p => simp only [ends, mem_manyEnds, mem_language_many]
  | seq r s ihr ihs =>
    simp only [ends, List.mem_flatMap, ihr, ihs]
    constructor
    · rintro ⟨_, ⟨m, hm, rfl⟩, m', hm', rfl⟩
      exact ⟨m ++ m', ⟨m, hm, m', hm', rfl⟩, List.append_assoc ..⟩
    · rintro ⟨_, ⟨m, hm, m', hm', rfl⟩, rfl⟩
      exact ⟨m' ++ rest, ⟨m, hm, (List.append_assoc ..).symm⟩, m', hm', rfl⟩
  | alt r s ihr ihs =>
    simp only [ends, List.mem_append, ihr, ihs]
    constructor
    · rintro (⟨m, hm, happ⟩ | ⟨m, hm, happ⟩)
      · exact ⟨m, .inl hm, happ⟩
      · exact ⟨m, .inr hm, happ⟩
    · rintro ⟨m, hm | hm, happ⟩
      · exact .inl ⟨m, hm, happ⟩
      · exact .inr ⟨m, hm, happ⟩

/-- What is found is a match, -/
theorem mem_language_of_find? (h : r.find? cs = some (m, rest)) : m ∈ r.language := by
  obtain ⟨hfirst, happ⟩ := find?_eq_some.1 h
  obtain ⟨m', hm, happ'⟩ := mem_ends.1 (List.mem_of_head? hfirst)
  rwa [List.append_cancel_right (happ.trans happ'.symm)]

/-- and something is found if there is a match. -/
theorem exists_find? (hm : m ∈ r.language) (h : m <+: cs) : ∃ m' rest, r.find? cs = some (m', rest) := by
  obtain ⟨rest, happ⟩ := h
  have hrest : rest ∈ r.ends cs := mem_ends.2 ⟨m, hm, happ⟩
  obtain ⟨rest', hfirst⟩ : ∃ rest', r.first? cs = some rest' :=
    Option.isSome_iff_exists.1 (List.isSome_head?.2 (List.ne_nil_of_mem hrest))
  obtain ⟨m', happ'⟩ := suffix_of_mem_ends (List.mem_of_head? hfirst)
  exact ⟨m', rest', find?_eq_some.2 ⟨hfirst, happ'⟩⟩

example : (alt (char 'a') (seq (char 'a') (char 'b'))).find? ['a', 'b'] = some (['a'], ['b']) := by decide

/-! ### The match that is tried first -/

theorem first?_alt : (alt r s).first? cs = (r.first? cs).or (s.first? cs) := List.head?_append

theorem first?_opt : (opt r).first? cs = some ((r.first? cs).getD cs) := by
  rw [opt, first?_alt]
  cases r.first? cs <;> rfl

theorem ends_eq_nil (h : r.first? cs = none) : r.ends cs = [] := List.head?_eq_none_iff.1 h

theorem first?_seq_none (h : r.first? cs = none) : (seq r s).first? cs = none := by
  rw [first?, ends, ends_eq_nil h]
  rfl

/-- The first match of `r` is kept if `s` has a match after it. -/
theorem first?_seq_some {m : List Char} (h : r.first? cs = some m) (hs : s.first? m = some rest) :
    (seq r s).first? cs = some rest := by
  obtain ⟨ms, hms⟩ := List.head?_eq_some_iff.1 h
  rw [first?, ends, hms, List.flatMap_cons, List.head?_append, show (s.ends m).head? = some rest from hs]
  rfl

theorem first?_char_seq : (seq (char c) s).first? (c :: cs) = s.first? cs := by
  simp [first?, char, ends]

theorem first?_char_seq_of_ne (h : ∀ d ∈ cs.head?, d ≠ c) : (seq (char c) s).first? cs = none := by
  cases cs with
  | nil => rfl
  | cons d cs => simp [first?, char, ends, h d rfl]

theorem first?_many : (many p).first? cs = some (cs.dropWhile p) := by
  induction cs with
  | nil => rfl
  | cons c cs ih =>
    have ih : (manyEnds p cs).head? = some (cs.dropWhile p) := ih
    cases hc : p c <;> simp [first?, ends, manyEnds, hc, ih]

theorem first?_plus : (plus p).first? cs = if cs.takeWhile p = [] then none else some (cs.dropWhile p) := by
  cases cs with
  | nil => rfl
  | cons c cs =>
    have hmany : (manyEnds p cs).head? = some (cs.dropWhile p) := first?_many
    cases hc : p c <;> simp [first?, plus, ends, hc, hmany]

/-- No match starts with a character for which `q` holds, not even one that takes nothing. -/
def Refuses (r : Pattern) (q : Char → Bool) : Prop := ∀ c cs, q c → r.ends (c :: cs) = []

theorem Refuses.one (h : ∀ c, q c → p c = false) : (one p).Refuses q := by
  intro c cs hc
  simp [ends, h c hc]

theorem Refuses.seq (h : r.Refuses q) : (seq r s).Refuses q := by
  intro c cs hc
  simp [ends, h c cs hc]

theorem Refuses.alt (hr : r.Refuses q) (hs : s.Refuses q) : (alt r s).Refuses q := by
  intro c cs hc
  simp [ends, hr c cs hc, hs c cs hc]

/-- What is repeated is not given back to a pattern that refuses it. -/
theorem ends_many_seq (hs : s.Refuses p) : (seq (many p) s).ends cs = s.ends (cs.dropWhile p) := by
  show (manyEnds p cs).flatMap s.ends = _
  induction cs with
  | nil => simp [manyEnds]
  | cons c cs ih => cases hc : p c <;> simp [manyEnds, hc, ih, hs c cs]

theorem first?_plus_seq (hs : s.Refuses p) :
    (seq (plus p) s).first? cs = if cs.takeWhile p = [] then none else s.first? (cs.dropWhile p) := by
  cases cs with
  | nil => rfl
  | cons c cs =>
    have hmany : (manyEnds p cs).flatMap s.ends = s.ends (cs.dropWhile p) := ends_many_seq hs
    cases hc : p c <;> simp [first?, plus, ends, hc, hmany]

/-- A character that may be left out is taken in front of a pattern that refuses it. -/
theorem first?_opt_one_seq (hs : s.Refuses p) (cs : List Char) :
    (seq (opt (one p)) s).first? cs = match cs with
      | [] => s.first? []
      | c :: cs => if p c then s.first? cs else s.first? (c :: cs) := by
  cases cs with
  | nil => simp [first?, opt, ends]
  | cons c cs => cases hc : p c <;> simp [first?, opt, ends, hc, hs c cs]

theorem refuses_char (h : p c = false) : (char c).Refuses p := by
  refine .one fun d hd => decide_eq_false ?_
  rintro rfl
  rw [hd] at h
  contradiction

end Pattern

namespace Numeral

open Text (isDecimalDigit)
open Pattern

variable {cs : List Char} {n : Numeral}

theorem not_digit_of_mark {c : Char} (h : c = '-' ∨ c = '+' ∨ c = '.' ∨ c = 'e') : isDecimalDigit c = false := by
  rcases h with rfl | rfl | rfl | rfl <;> decide

theorem first?_digits (cs : List Char) : digitsPattern.first? cs =
    if cs.takeWhile isDecimalDigit = [] then none else some (cs.dropWhile isDecimalDigit) := first?_plus

theorem refuses_digits {q : Char → Bool} (h : ∀ c, q c → isDecimalDigit c = false) : digitsPattern.Refuses q :=
  .seq (.one h)

theorem first?_exponent (cs : List Char) :
    exponentPattern.first? cs = (scanExponent cs).1.map fun _ => (scanExponent cs).2 := by
  have hminus : ∀ c, decide (c = '-') = true → isDecimalDigit c = false := fun c hc =>
    not_digit_of_mark (.inl (of_decide_eq_true hc))
  have hdigits := first?_opt_one_seq (refuses_digits hminus)
  unfold scanExponent
  split
  · rename_i u
    rw [exponentPattern, first?_char_seq, char, hdigits]
    by_cases h : u.takeWhile isDecimalDigit = [] <;> simp [first?_digits, h]
  · rename_i u hu
    rw [exponentPattern, first?_char_seq, char, hdigits]
    cases u with
    | nil => simp [first?_digits]
    | cons c u =>
      have hc : c ≠ '-' := fun hc => hu u (hc ▸ rfl)
      by_cases h : (c :: u).takeWhile isDecimalDigit = [] <;> simp [first?_digits, h, hc]
  · rename_i h
    refine first?_char_seq_of_ne fun d hd hde => ?_
    obtain ⟨u, rfl⟩ := List.head?_eq_some_iff.1 hd
    exact h u (hde ▸ rfl)

theorem point_or_ne (cs : List Char) : (∃ u, cs = '.' :: u) ∨ ∀ d ∈ cs.head?, d ≠ '.' := by
  cases cs with
  | nil => exact .inr (by simp)
  | cons d u =>
    by_cases hd : d = '.'
    · exact .inl ⟨u, hd ▸ rfl⟩
    · exact .inr (by simpa using hd)

theorem scanFraction_of_ne {whole : List Char} (h : ∀ d ∈ cs.head?, d ≠ '.') : scanFraction whole cs = (none, cs) := by
  cases cs with
  | nil => rfl
  | cons d cs =>
    have hd := h d rfl
    simp [scanFraction, hd]

/-- If digits stand in front of a point, the digits after it may be missing. -/
theorem first?_point (ds : List Char) : pointPattern.first? ds =
    (scanFraction (ds.takeWhile isDecimalDigit) (ds.dropWhile isDecimalDigit)).1.map fun _ =>
      (scanFraction (ds.takeWhile isDecimalDigit) (ds.dropWhile isDecimalDigit)).2 := by
  have hdot : (seq (char '.') (many isDecimalDigit)).Refuses isDecimalDigit := .seq (refuses_char (by decide))
  rw [pointPattern, first?_alt, digitsPattern, first?_plus_seq hdot]
  by_cases hw : ds.takeWhile isDecimalDigit = []
  · have hdrop : ds.dropWhile isDecimalDigit = ds := by
      simpa [hw] using ds.takeWhile_append_dropWhile (p := isDecimalDigit)
    rw [if_pos hw, hdrop, Option.none_or, hw]
    rcases point_or_ne ds with ⟨u, rfl⟩ | hne
    · rw [first?_char_seq]
      by_cases hu : u.takeWhile isDecimalDigit = [] <;> simp [first?_plus, scanFraction, hu]
    · rw [first?_char_seq_of_ne hne, scanFraction_of_ne hne]
      rfl
  · have hnone : (seq (char '.') (plus isDecimalDigit)).first? ds = none := by
      refine first?_char_seq_of_ne fun d hd hdot => hw ?_
      obtain ⟨u, rfl⟩ := List.head?_eq_some_iff.1 hd
      rw [hdot, List.takeWhile_cons, if_neg (by decide)]
    rw [if_neg hw, hnone, Option.or_none]
    rcases point_or_ne (ds.dropWhile isDecimalDigit) with ⟨u, hu⟩ | hne
    · simp [hu, first?_char_seq, first?_many, scanFraction, hw]
    · rw [first?_char_seq_of_ne hne, scanFraction_of_ne hne]
      rfl

/-- In front of a point or a digit no sign is left. -/
theorem refuses_sign {q : Char → Bool} (hq : ∀ c, q c → c = '-' ∨ c = '+') :
    (alt (seq pointPattern (opt exponentPattern)) (seq digitsPattern exponentPattern)).Refuses q ∧
      digitsPattern.Refuses q := by
  have hdigits : digitsPattern.Refuses q := refuses_digits fun c hc =>
    not_digit_of_mark ((hq c hc).imp_right .inl)
  have hdot : (char '.').Refuses q := refuses_char <| Bool.eq_false_iff.2 fun h => absurd (hq '.' h) (by decide)
  exact ⟨.alt (.seq (.alt (.seq hdigits) (.seq hdot))) (.seq hdigits), hdigits⟩

/-- The sign is taken. -/
theorem first?_sign_seq {s : Pattern} (hs : s.Refuses fun c => c = '-' || c = '+') (cs : List Char) :
    (seq signPattern s).first? cs = s.first? (scanSign cs).2 := by
  rw [signPattern, first?_opt_one_seq hs]
  cases cs with
  | nil => rfl
  | cons c cs =>
    by_cases hminus : c = '-'
    · subst hminus
      rfl
    by_cases hplus : c = '+'
    · subst hplus
      rfl
    · simp [scanSign, hminus, hplus]

theorem scanExponent_none (h : (scanExponent cs).1 = none) : (scanExponent cs).2 = cs := by
  simpa [h, exponentChars] using scanExponent_append cs

theorem scanFraction_none {whole : List Char} (h : (scanFraction whole cs).1 = none) :
    (scanFraction whole cs).2 = cs := by
  simpa [h, fractionChars] using scanFraction_append whole cs

/-- A point is looked for before an exponent, and both are taken if they are there. -/
theorem first?_unsigned {ds : List Char} {f : Option (List Char) × List Char}
    {x : Option (Bool × List Char) × List Char}
    (hf : scanFraction (ds.takeWhile isDecimalDigit) (ds.dropWhile isDecimalDigit) = f) (hx : scanExponent f.2 = x)
    (hne : ds.takeWhile isDecimalDigit ++ f.1.getD [] ≠ []) :
    (alt (seq pointPattern (opt exponentPattern)) (seq digitsPattern exponentPattern)).first? ds =
      if f.1.isSome || x.1.isSome then some x.2 else none := by
  have hpoint := first?_point ds
  have hexponent := first?_exponent f.2
  rw [hf] at hpoint
  rw [hx] at hexponent
  rw [first?_alt]
  cases hfrac : f.1 with
  | some fs =>
    rw [hfrac, Option.map_some] at hpoint
    rw [first?_seq_some hpoint first?_opt, hexponent]
    cases hexp : x.1 with
    | some y => rfl
    | none =>
      have hrest : x.2 = f.2 := by
        rw [← hx] at hexp ⊢
        exact scanExponent_none hexp
      simp [hrest]
  | none =>
    have hrest : f.2 = ds.dropWhile isDecimalDigit := by
      rw [← hf] at hfrac ⊢
      exact scanFraction_none hfrac
    have hw : ds.takeWhile isDecimalDigit ≠ [] := by simpa [hfrac] using hne
    rw [hfrac, Option.map_none] at hpoint
    have hmark : exponentPattern.Refuses isDecimalDigit := .seq (refuses_char (by decide))
    rw [first?_seq_none hpoint, digitsPattern, first?_plus_seq hmark, if_neg hw, ← hrest, hexponent]
    cases x.1 <;> rfl

variable (h : Lexeme.startsNumber cs)
include h

/-- The pattern of floats finds the numeral that is scanned, if that is a float. -/
theorem find?_float : floatPattern.find? cs =
    if (scan cs).1.isFloat then some ((scan cs).1.chars, (scan cs).2) else none := by
  have hfirst : floatPattern.first? cs = if (scan cs).1.isFloat then some (scan cs).2 else none := by
    rw [floatPattern, first?_sign_seq (refuses_sign (by simp)).1]
    exact first?_unsigned rfl rfl (Lexeme.digits_scan_ne_nil h)
  split
  · rename_i hf
    exact find?_eq_some.2 ⟨by rw [hfirst, if_pos hf], chars_scan_append cs⟩
  · rename_i hf
    rw [find?, hfirst, if_neg hf]
    rfl

/-- If it is none, the pattern of integers finds it. -/
theorem find?_integer (hf : (scan cs).1.isFloat = false) :
    integerPattern.find? cs = some ((scan cs).1.chars, (scan cs).2) := by
  obtain ⟨hfrac, hexp⟩ : (scan cs).1.fraction = none ∧ (scan cs).1.exponent = none := by simpa [isFloat] using hf
  have hw : (scan cs).1.whole ≠ [] := by simpa [digits, hfrac] using Lexeme.digits_scan_ne_nil h
  have hrest : (scan cs).2 = (scanSign cs).2.dropWhile isDecimalDigit :=
    (scanExponent_none hexp).trans (scanFraction_none hfrac)
  refine find?_eq_some.2 ⟨?_, chars_scan_append cs⟩
  rw [integerPattern, first?_sign_seq (refuses_sign (by simp)).2, first?_digits, hrest]
  exact if_neg hw

end Numeral

namespace Lexeme

/-- The two patterns together find the numeral that is scanned. -/
theorem scanNumber_eq (h : startsNumber cs) : scanNumber cs =
    if (Numeral.scan cs).1.isFloat then
      match (Numeral.scan cs).1.toFloat? with
      | some x => .ok (⟨.float x, (Numeral.scan cs).1.sign, (Numeral.scan cs).1.chars⟩, (Numeral.scan cs).2)
      | none => .error ⟨.floatDigits, (Numeral.scan cs).1.chars⟩
    else if (Numeral.scan cs).2.head? = some 'e' then .error (.upToBlank .bareExponent cs)
    else match (Numeral.scan cs).1.toInt? with
      | some i => .ok (⟨.int i, (Numeral.scan cs).1.sign, (Numeral.scan cs).1.chars⟩, (Numeral.scan cs).2)
      | none => .error ⟨.integerRange, (Numeral.scan cs).1.chars⟩ := by
  have hagain := (Numeral.shaped_scan h).scan_chars
  have hsign : (Numeral.scanSign cs).1 = (Numeral.scan cs).1.sign := rfl
  rw [scanNumber, Numeral.find?_float h]
  cases hf : (Numeral.scan cs).1.isFloat with
  | true =>
    cases hx : (Numeral.scan cs).1.toFloat? <;> simp only [if_true, hagain, hsign, hx]
  | false =>
    cases hi : (Numeral.scan cs).1.toInt? <;>
      simp only [Bool.false_eq_true, if_false, Numeral.find?_integer h hf, hagain, hsign, hi]

variable {n : Numeral} {rest : List Char}

theorem scanNumber_float (h : n.Plain) (hf : n.isFloat) {x : Float} (hx : n.toFloat? = some x) (hr : Breaks rest) :
    scanNumber (n.chars ++ rest) = .ok (⟨.float x, n.sign, n.chars⟩, rest) := by
  simp [scanNumber_eq (startsNumber_chars h rest), Numeral.scan_plain h hr, hf, hx]

theorem scanNumber_int (h : n.Plain) (hf : n.isFloat = false) {i : Int64} (hi : n.toInt? = some i) (hr : Breaks rest) :
    scanNumber (n.chars ++ rest) = .ok (⟨.int i, n.sign, n.chars⟩, rest) := by
  simp [scanNumber_eq (startsNumber_chars h rest), Numeral.scan_plain h hr, hf, head_ne_e hr, hi]

end Lexeme

end CaseSetup
