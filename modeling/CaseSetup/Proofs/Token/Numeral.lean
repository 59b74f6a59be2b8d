import CaseSetup.Token.Lexeme
import Mathlib.Data.Bool.AllAny

/-! # Reading numerals

A numeral with ASCII digits in all places is scanned as it is written, when what follows cannot
be a part of it. -/

namespace CaseSetup

/-- The characters that stand after a number or a word in a written configuration. -/
def breakChars : List Char := [' ', '\n', ',', ':', ')', ']', '\x7d']

/-- A number or a word ends in front of `cs`. -/
def Breaks (cs : List Char) : Prop := ∀ c ∈ cs.head?, c ∈ breakChars

theorem breaks_cons {c : Char} (h : c ∈ breakChars) (cs : List Char) : Breaks (c :: cs) := by
  simpa [Breaks] using h

section

variable {p : Char → Bool} {cs rest : List Char}

theorem takeWhile_append_stop (h : ∀ c ∈ cs, p c) (hr : ∀ c ∈ rest.head?, p c = false) :
    (cs ++ rest).takeWhile p = cs := by
  rw [List.takeWhile_append_of_pos h]
  cases rest with
  | nil => simp
  | cons c rest => simp [hr c rfl]

theorem dropWhile_append_stop (h : ∀ c ∈ cs, p c) (hr : ∀ c ∈ rest.head?, p c = false) :
    (cs ++ rest).dropWhile p = rest := by
  rw [List.dropWhile_append_of_pos h]
  cases rest with
  | nil => simp
  | cons c rest => simp [hr c rfl]

end

namespace Lexeme

theorem isDecimalDigit_of_isDigit {c : Char} (h : c.isDigit) : Text.isDecimalDigit c := by
  have hc : c.toNat < 0x80 := by
    simp only [Char.isDigit, Bool.and_eq_true, decide_eq_true_eq, ge_iff_le, UInt32.le_iff_toNat_le] at h
    simp at h
    omega
  simp [Text.isDecimalDigit, hc, h]

/-- What starts like a number has digits. -/
theorem digits_scan_ne_nil {cs : List Char} (h : startsNumber cs) : (Numeral.scan cs).1.digits ≠ [] := by
  intro hn
  simp only [Numeral.scan, Numeral.digits, List.append_eq_nil_iff] at hn
  obtain ⟨hw, hf⟩ := hn
  rw [hw] at hf
  revert h hw hf
  unfold startsNumber startsDigits
  generalize (Numeral.scanSign cs).2 = ds
  intro h hw hf
  split at h
  · have hd : Text.isDecimalDigit '.' = false := by decide
    simp [hd, Numeral.scanFraction, isDecimalDigit_of_isDigit h] at hf
  · simp [isDecimalDigit_of_isDigit h] at hw
  · simp at h

theorem chars_scan_ne_nil {cs : List Char} (h : startsNumber cs) : (Numeral.scan cs).1.chars ≠ [] := by
  intro hn
  refine digits_scan_ne_nil h ?_
  generalize (Numeral.scan cs).1 = n at hn
  obtain ⟨g, ws, f, x⟩ := n
  simp only [Numeral.chars, List.append_eq_nil_iff] at hn
  obtain ⟨-, rfl, hf, -⟩ := hn
  cases f with
  | none => rfl
  | some ds => cases hf

end Lexeme

namespace Numeral

open Text (isDecimalDigit)

theorem Breaks.digits {rest : List Char} (h : Breaks rest) : ∀ c ∈ rest.head?, isDecimalDigit c = false := by
  have hall : ∀ c ∈ breakChars, isDecimalDigit c = false := List.all_iff_forall_prop.1 (by decide)
  exact fun c hc => hall c (h c hc)

theorem ne_of_isDigit {c d : Char} (h : c.isDigit) (hd : d.isDigit = false) : c ≠ d := by
  rintro rfl
  rw [hd] at h
  contradiction

/-! ### What is scanned -/

theorem scanSign_append (cs : List Char) : signChars (scanSign cs).1 ++ (scanSign cs).2 = cs := by
  unfold scanSign; split <;> simp [signChars, Sign.char]

theorem scanFraction_append (whole cs : List Char) :
    fractionChars (scanFraction whole cs).1 ++ (scanFraction whole cs).2 = cs := by
  unfold scanFraction
  split
  · simp only; split <;> simp [fractionChars, List.takeWhile_append_dropWhile]
  · simp [fractionChars]

theorem scanExponent_append (cs : List Char) :
    exponentChars (scanExponent cs).1 ++ (scanExponent cs).2 = cs := by
  unfold scanExponent
  split
  · simp only; split <;> simp [exponentChars, List.takeWhile_append_dropWhile]
  · simp only; split <;> simp [exponentChars, List.takeWhile_append_dropWhile]
  · simp [exponentChars]

/-- The numeral is the front of the text. -/
theorem chars_scan_append (cs : List Char) : (scan cs).1.chars ++ (scan cs).2 = cs := by
  simp only [scan, chars, List.append_assoc, scanExponent_append, scanFraction_append,
    List.takeWhile_append_dropWhile, scanSign_append]

variable {cs ds rest : List Char} {n : Numeral}

theorem scanExponent_ne (cs : List Char) : ∀ x ∈ (scanExponent cs).1, x.2 ≠ [] := by
  intro x hx
  unfold scanExponent at hx
  split at hx
  · dsimp only at hx
    split at hx <;> cases hx
    assumption
  · dsimp only at hx
    split at hx <;> cases hx
    assumption
  · cases hx

theorem exponent_scan_ne (cs : List Char) : ∀ x ∈ (scan cs).1.exponent, x.2 ≠ [] :=
  scanExponent_ne _

/-- A numeral without point and exponent is a sign and digits. -/
theorem chars_of_not_isFloat (h : n.isFloat = false) :
    n.chars = signChars n.sign ++ n.whole ∧ n.digits = n.whole ∧ n.exponent = none := by
  obtain ⟨g, ws, f, x⟩ := n
  simp only [isFloat, Bool.or_eq_false_iff, Option.isSome_eq_false_iff, Option.isNone_iff_eq_none] at h
  obtain ⟨rfl, rfl⟩ := h
  simp [chars, digits, fractionChars, exponentChars]

/-- What follows a numeral without exponent starts no exponent. -/
theorem scanExponent_scan (h : (scan cs).1.exponent = none) : (scanExponent (scan cs).2).1 = none := by
  simp only [scan] at h ⊢
  generalize (scanFraction _ _).2 = ds at h ⊢
  have happ := scanExponent_append ds
  rw [h, exponentChars, List.nil_append] at happ
  rw [happ, h]

theorem whole_scan (cs : List Char) : ∀ c ∈ (scan cs).1.whole, isDecimalDigit c :=
  List.all_eq_true.1 List.all_takeWhile

/-- A sign is scanned in front of what has none. -/
theorem scanSign_chars {cs : List Char} (h : ∀ c ∈ cs.head?, c ≠ '-' ∧ c ≠ '+') (g : Option Sign) :
    scanSign (signChars g ++ cs) = (g, cs) := by
  cases g with
  | some s => cases s <;> rfl
  | none =>
    cases cs with
    | nil => rfl
    | cons c cs =>
      obtain ⟨hminus, hplus⟩ := h c rfl
      simp [signChars, scanSign, hminus, hplus]

/-- A point is scanned with all digits after it. -/
theorem scanFraction_point {whole : List Char} (hne : whole ++ ds ≠ []) (hall : ∀ c ∈ ds, isDecimalDigit c)
    (rest : List Char) :
    scanFraction whole ('.' :: (ds ++ rest)) =
      (some (ds ++ rest.takeWhile isDecimalDigit), rest.dropWhile isDecimalDigit) := by
  have hsome : ¬ (whole = [] ∧ ds ++ rest.takeWhile isDecimalDigit = []) := by
    rintro ⟨rfl, h⟩
    exact hne (List.append_eq_nil_iff.1 h).1
  simp only [scanFraction, List.takeWhile_append_of_pos hall, List.dropWhile_append_of_pos hall, if_neg hsome]

/-- An exponent is scanned with all digits after it. -/
theorem scanExponent_mark (negative : Bool) (hne : ds ≠ []) (hall : ∀ c ∈ ds, isDecimalDigit c) (rest : List Char) :
    scanExponent (exponentChars (some (negative, ds)) ++ rest) =
      (some (negative, ds ++ rest.takeWhile isDecimalDigit), rest.dropWhile isDecimalDigit) := by
  have htake : (ds ++ rest).takeWhile isDecimalDigit = ds ++ rest.takeWhile isDecimalDigit :=
    List.takeWhile_append_of_pos hall
  have hdrop : (ds ++ rest).dropWhile isDecimalDigit = rest.dropWhile isDecimalDigit :=
    List.dropWhile_append_of_pos hall
  cases negative with
  | true =>
    show scanExponent ('e' :: '-' :: (ds ++ rest)) = _
    simp [scanExponent, htake, hdrop, hne]
  | false =>
    obtain ⟨d, ds, rfl⟩ := List.exists_cons_of_ne_nil hne
    have hd : d ≠ '-' := by
      rintro rfl
      exact absurd (hall '-' List.mem_cons_self) (by decide)
    rw [List.cons_append] at htake hdrop
    show scanExponent ('e' :: d :: (ds ++ rest)) = _
    simp [scanExponent, hd, htake, hdrop]

/-- A point is no part of the digits before it. -/
theorem not_digit_point (rest : List Char) : ∀ c ∈ ('.' :: rest).head?, isDecimalDigit c = false := by
  intro c hc
  obtain rfl : '.' = c := Option.some.inj hc
  decide

/-- An exponent is no part of the digits before it. -/
theorem not_digit_mark (x : Bool × List Char) (rest : List Char) :
    ∀ c ∈ (exponentChars (some x) ++ rest).head?, isDecimalDigit c = false := by
  intro c hc
  obtain rfl : 'e' = c := by simpa [exponentChars] using hc
  decide

/-- No digit is scanned in front of what starts with none. -/
theorem scan_no_digit (h : ∀ c ∈ rest.head?, isDecimalDigit c = false) :
    rest.takeWhile isDecimalDigit = [] ∧ rest.dropWhile isDecimalDigit = rest :=
  ⟨takeWhile_append_stop (List.forall_mem_nil _) h, dropWhile_append_stop (List.forall_mem_nil _) h⟩

/-! ### Numerals of any digits -/

/-- A numeral with digits, also in the exponent if there is one, of any script. -/
structure Shaped (n : Numeral) : Prop where
  digits_ne : n.digits ≠ []
  digits : ∀ c ∈ n.digits, isDecimalDigit c
  exponent_ne : ∀ x ∈ n.exponent, x.2 ≠ []
  exponent : ∀ x ∈ n.exponent, ∀ c ∈ x.2, isDecimalDigit c

theorem decimal_scanFraction (whole cs : List Char) :
    ∀ ds ∈ (scanFraction whole cs).1, ∀ c ∈ ds, isDecimalDigit c := by
  intro ds hds
  unfold scanFraction at hds
  split at hds
  · dsimp only at hds
    split at hds <;> cases hds
    exact List.all_eq_true.1 List.all_takeWhile
  · cases hds

theorem decimal_scanExponent (cs : List Char) : ∀ x ∈ (scanExponent cs).1, ∀ c ∈ x.2, isDecimalDigit c := by
  intro x hx
  unfold scanExponent at hx
  split at hx
  · dsimp only at hx
    split at hx <;> cases hx
    exact List.all_eq_true.1 List.all_takeWhile
  · dsimp only at hx
    split at hx <;> cases hx
    exact List.all_eq_true.1 List.all_takeWhile
  · cases hx

/-- What starts like a number is scanned as a numeral with digits. -/
theorem shaped_scan (h : Lexeme.startsNumber cs) : (scan cs).1.Shaped where
  digits_ne := Lexeme.digits_scan_ne_nil h
  digits := by
    refine List.forall_mem_append.2 ⟨whole_scan cs, ?_⟩
    cases hf : (scan cs).1.fraction with
    | none => simp
    | some fs => exact decimal_scanFraction _ _ fs hf
  exponent_ne := exponent_scan_ne cs
  exponent := decimal_scanExponent _

theorem Shaped.scanSign (h : n.Shaped) (rest : List Char) :
    scanSign (n.chars ++ rest) =
      (n.sign, n.whole ++ (fractionChars n.fraction ++ (exponentChars n.exponent ++ rest))) := by
  obtain ⟨g, ws, f, x⟩ := n
  simp only [chars, List.append_assoc]
  refine scanSign_chars (fun c hc => ?_) g
  have hdigits : ∀ d ∈ ws ++ f.getD [], isDecimalDigit d := h.digits
  have hdigit : isDecimalDigit c ∨ c = '.' := by
    cases ws with
    | cons d ws =>
      obtain rfl : d = c := by simpa using hc
      exact .inl (hdigits d (by simp))
    | nil =>
      cases f with
      | none => exact absurd rfl h.digits_ne
      | some fs =>
        obtain rfl : '.' = c := by simpa [fractionChars] using hc
        exact .inr rfl
  constructor <;> (rintro rfl; exact absurd hdigit (by decide))

/-- A numeral with an exponent is scanned with all digits after it. -/
theorem Shaped.scan_exponent (h : n.Shaped) {b : Bool} (hx : n.exponent = some (b, ds)) (rest : List Char) :
    scan (n.chars ++ rest) =
      ({ n with exponent := some (b, ds ++ rest.takeWhile isDecimalDigit) }, rest.dropWhile isDecimalDigit) := by
  have hsign := h.scanSign rest
  obtain ⟨g, ws, f, x⟩ := n
  obtain rfl : x = some (b, ds) := hx
  obtain ⟨hws, hfs⟩ := List.forall_mem_append.1 h.digits
  have hmark := scanExponent_mark b (h.exponent_ne _ rfl) (h.exponent _ rfl) rest
  have hstop := not_digit_mark (b, ds) rest
  cases f with
  | none =>
    have hnone : scanFraction ws (exponentChars (some (b, ds)) ++ rest) =
        (none, exponentChars (some (b, ds)) ++ rest) := by
      simp [scanFraction, exponentChars]
    simp only [scan, hsign, fractionChars, List.nil_append, takeWhile_append_stop hws hstop,
      dropWhile_append_stop hws hstop, hnone, hmark]
  | some fs =>
    have hpoint := scanFraction_point h.digits_ne hfs (exponentChars (some (b, ds)) ++ rest)
    obtain ⟨htake, hdrop⟩ := scan_no_digit hstop
    have hdot := not_digit_point (fs ++ (exponentChars (some (b, ds)) ++ rest))
    simp only [Option.getD_some, htake, hdrop, List.append_nil] at hpoint
    simp only [scan, hsign, fractionChars, List.cons_append, takeWhile_append_stop hws hdot,
      dropWhile_append_stop hws hdot, hpoint, hmark]

/-- A numeral with a point and no exponent is scanned with all digits after it, and an exponent if there is one. -/
theorem Shaped.scan_point (h : n.Shaped) (hf : n.fraction = some ds) (hx : n.exponent = none) (rest : List Char) :
    (scan (n.chars ++ rest)).1 =
      { n with
        fraction := some (ds ++ rest.takeWhile isDecimalDigit)
        exponent := (scanExponent (rest.dropWhile isDecimalDigit)).1 } := by
  have hsign := h.scanSign rest
  obtain ⟨g, ws, f, x⟩ := n
  obtain rfl : f = some ds := hf
  obtain rfl : x = none := hx
  obtain ⟨hws, hfs⟩ := List.forall_mem_append.1 h.digits
  have hpoint : scanFraction ws ('.' :: (ds ++ rest)) =
      (some (ds ++ rest.takeWhile isDecimalDigit), rest.dropWhile isDecimalDigit) :=
    scanFraction_point h.digits_ne hfs rest
  have hdot := not_digit_point (ds ++ rest)
  simp only [scan, hsign, fractionChars, exponentChars, List.cons_append, List.nil_append,
    takeWhile_append_stop hws hdot, dropWhile_append_stop hws hdot, hpoint]

/-- An integer is scanned with all digits after it. -/
theorem Shaped.scan_digits (h : n.Shaped) (hf : n.isFloat = false) (rest : List Char) :
    (scan (n.chars ++ rest)).1.sign = n.sign ∧
      (scan (n.chars ++ rest)).1.whole = n.whole ++ rest.takeWhile isDecimalDigit := by
  obtain ⟨-, hdigits, hx⟩ := chars_of_not_isFloat hf
  have hnone : n.fraction = none := by simpa [isFloat, hx] using hf
  have hws : ∀ c ∈ n.whole, isDecimalDigit c := hdigits ▸ h.digits
  simp only [scan, h.scanSign rest, hnone, hx, fractionChars, exponentChars, List.nil_append,
    List.takeWhile_append_of_pos hws, and_self]

/-- A numeral is scanned as it is when nothing follows. -/
theorem Shaped.scan_chars (h : n.Shaped) : (scan n.chars).1 = n := by
  rw [← List.append_nil n.chars]
  cases hx : n.exponent with
  | some x =>
    rw [h.scan_exponent hx]
    simp [← hx]
  | none =>
    cases hf : n.fraction with
    | some fs =>
      rw [h.scan_point hf hx]
      simp [scanExponent, ← hf, ← hx]
    | none =>
      have hws : ∀ c ∈ n.whole, isDecimalDigit c := by simpa [Numeral.digits, hf] using h.digits
      have htake : (n.whole ++ []).takeWhile isDecimalDigit = n.whole := takeWhile_append_stop hws (by simp)
      have hdrop : (n.whole ++ []).dropWhile isDecimalDigit = [] := dropWhile_append_stop hws (by simp)
      simp only [scan, h.scanSign, hf, hx, fractionChars, exponentChars, List.nil_append, htake, hdrop, scanFraction,
        scanExponent]
      simp [← hf, ← hx]

/-! ### Numerals as they are written -/

/-- A numeral of ASCII digits, at least one before the point and one in the exponent if there is one. -/
structure Plain (n : Numeral) : Prop where
  whole_ne : n.whole ≠ []
  whole : ∀ c ∈ n.whole, c.isDigit
  fraction : ∀ ds ∈ n.fraction, ∀ c ∈ ds, c.isDigit
  exponent_ne : ∀ x ∈ n.exponent, x.2 ≠ []
  exponent : ∀ x ∈ n.exponent, ∀ c ∈ x.2, c.isDigit

theorem scanExponent_plain {x : Option (Bool × List Char)} (hne : ∀ y ∈ x, y.2 ≠ [])
    (hd : ∀ y ∈ x, ∀ c ∈ y.2, c.isDigit) (hr : Breaks rest) :
    scanExponent (exponentChars x ++ rest) = (x, rest) := by
  cases x with
  | none =>
    cases rest with
    | nil => rfl
    | cons c rest =>
      have hc : c ≠ 'e' := by
        rintro rfl
        exact absurd (hr 'e' rfl) (by decide)
      simp only [exponentChars, List.nil_append]
      unfold scanExponent
      split <;> simp_all
  | some x =>
    obtain ⟨negative, ds⟩ := x
    have hds : ∀ c ∈ ds, isDecimalDigit c := fun c hc =>
      Lexeme.isDecimalDigit_of_isDigit (hd (negative, ds) rfl c hc)
    obtain ⟨htake, hdrop⟩ := scan_no_digit (Breaks.digits hr)
    rw [scanExponent_mark negative (hne (negative, ds) rfl) hds, htake, hdrop, List.append_nil]

/-- What follows the digits of a numeral: an exponent, or the end. -/
theorem not_digit_exponent {x : Option (Bool × List Char)} (hr : Breaks rest) :
    ∀ c ∈ (exponentChars x ++ rest).head?, isDecimalDigit c = false := by
  cases x with
  | none => exact Breaks.digits hr
  | some x => exact not_digit_mark x rest

theorem scanFraction_plain {whole : List Char} {f : Option (List Char)} {x : Option (Bool × List Char)}
    (hw : whole ≠ []) (hd : ∀ ds ∈ f, ∀ c ∈ ds, c.isDigit) (hr : Breaks rest) :
    scanFraction whole (fractionChars f ++ (exponentChars x ++ rest)) = (f, exponentChars x ++ rest) := by
  cases f with
  | none =>
    have hpoint : ∀ c ∈ (exponentChars x ++ rest).head?, c ≠ '.' := by
      cases x with
      | none =>
        rintro c hc rfl
        exact absurd (hr '.' hc) (by decide)
      | some x =>
        rintro c hc rfl
        simp [exponentChars] at hc
    simp only [fractionChars, List.nil_append]
    generalize exponentChars x ++ rest = cs at hpoint
    cases cs with
    | nil => rfl
    | cons c cs =>
      have hc := hpoint c rfl
      simp [scanFraction, hc]
  | some ds =>
    have hds : ∀ c ∈ ds, isDecimalDigit c := fun c hc => Lexeme.isDecimalDigit_of_isDigit (hd ds rfl c hc)
    obtain ⟨htake, hdrop⟩ := scan_no_digit (not_digit_exponent (x := x) hr)
    rw [fractionChars, List.cons_append, scanFraction_point (List.append_ne_nil_of_left_ne_nil hw ds) hds, htake, hdrop,
      List.append_nil]

theorem scanSign_plain {g : Option Sign} {ds cs : List Char} (hne : ds ≠ []) (hd : ∀ c ∈ ds, c.isDigit) :
    scanSign (signChars g ++ (ds ++ cs)) = (g, ds ++ cs) := by
  obtain ⟨d, ds, rfl⟩ := List.exists_cons_of_ne_nil hne
  refine scanSign_chars (fun c hc => ?_) g
  obtain rfl : d = c := by simpa using hc
  have hdigit := hd d List.mem_cons_self
  exact ⟨ne_of_isDigit hdigit (by decide), ne_of_isDigit hdigit (by decide)⟩

/-- A plain numeral is scanned as it is. -/
theorem scan_plain {n : Numeral} (h : n.Plain) (hr : Breaks rest) : scan (n.chars ++ rest) = (n, rest) := by
  obtain ⟨g, ws, f, x⟩ := n
  have hdigits : ∀ c ∈ ws, isDecimalDigit c := fun c hc => Lexeme.isDecimalDigit_of_isDigit (h.whole c hc)
  have hstop : ∀ c ∈ (fractionChars f ++ (exponentChars x ++ rest)).head?, isDecimalDigit c = false := by
    cases f with
    | none => exact not_digit_exponent hr
    | some ds => exact not_digit_point _
  simp only [scan, chars, List.append_assoc, scanSign_plain h.whole_ne h.whole,
    takeWhile_append_stop hdigits hstop, dropWhile_append_stop hdigits hstop,
    scanFraction_plain h.whole_ne h.fraction hr, scanExponent_plain h.exponent_ne h.exponent hr]

theorem Plain.all_isDigit {n : Numeral} (h : n.Plain) : (n.digits ++ n.exponentDigits).all Char.isDigit := by
  obtain ⟨g, ws, f, x⟩ := n
  simp only [digits, exponentDigits, List.all_append, Bool.and_eq_true, List.all_eq_true]
  refine ⟨⟨h.whole, ?_⟩, ?_⟩
  · cases f with
    | none => simp
    | some ds => exact h.fraction ds rfl
  · cases x with
    | none => simp
    | some x => exact h.exponent x rfl

end Numeral

namespace Lexeme

variable {n : Numeral} {rest : List Char}

theorem head_ne_e (hr : Breaks rest) : rest.head? ≠ some 'e' := by
  intro h
  exact absurd (hr 'e' h) (by decide)

theorem not_isWordStart_of_isDigit {c : Char} (h : c.isDigit) : isWordStart c = false := by
  have hd : (decide (c.val ≥ '0'.val) && decide (c.val ≤ '9'.val)) = true := h
  have ha : c.isAlpha = (decide (c.val ≥ 'A'.val ∧ c.val ≤ 'Z'.val) || (c.val ≥ 'a'.val && c.val ≤ 'z'.val)) := rfl
  have hu : c ≠ '_' := Numeral.ne_of_isDigit h (by decide)
  simp only [Bool.and_eq_true, decide_eq_true_eq, ge_iff_le, UInt32.le_iff_toNat_le] at hd
  simp only [isWordStart, ha, hu, decide_false, Bool.or_false, Bool.or_eq_false_iff, decide_eq_false_iff_not,
    Bool.and_eq_false_iff, ge_iff_le, UInt32.le_iff_toNat_le]
  simp at hd ⊢
  omega

/-- A number starts with a sign, a point or a digit. -/
theorem head_startsNumber {c : Char} {cs : List Char} (h : startsNumber (c :: cs)) :
    c = '-' ∨ c = '+' ∨ c = '.' ∨ c.isDigit := by
  by_cases hminus : c = '-'
  · exact .inl hminus
  by_cases hplus : c = '+'
  · exact .inr (.inl hplus)
  by_cases hpoint : c = '.'
  · exact .inr (.inr (.inl hpoint))
  have hd : c.isDigit := by simpa [startsNumber, Numeral.scanSign, hminus, hplus, startsDigits, hpoint] using h
  exact .inr (.inr (.inr hd))

theorem scan_eq_scanNumber {c : Char} {cs : List Char} (h : startsNumber (c :: cs)) :
    scan c cs = scanNumber (c :: cs) := by
  have hother : c ≠ '/' ∧ c ≠ '"' ∧ isWordStart c = false := by
    rcases head_startsNumber h with rfl | rfl | rfl | hd
    · decide
    · decide
    · decide
    · have hne : ∀ d : Char, d.isDigit = false → c ≠ d := fun d => Numeral.ne_of_isDigit hd
      exact ⟨hne '/' (by decide), hne '"' (by decide), not_isWordStart_of_isDigit hd⟩
  obtain ⟨hslash, hquote, hword⟩ := hother
  simp [scan, hslash, hquote, hword, h]

theorem chars_cons {c : Char} {cs : List Char} (hc : n.chars ++ rest = c :: cs) :
    Numeral.signChars n.sign ++
      (n.whole ++ (Numeral.fractionChars n.fraction ++ (Numeral.exponentChars n.exponent ++ rest))) = c :: cs := by
  simpa [Numeral.chars] using hc

/-- A number starts with a sign or a digit. -/
theorem head_number {c : Char} {cs : List Char} (h : n.Plain) (hc : n.chars ++ rest = c :: cs) :
    c = '-' ∨ c = '+' ∨ c.isDigit := by
  have hall := chars_cons hc
  obtain ⟨g, ws, f, x⟩ := n
  cases g with
  | none =>
    cases ws with
    | nil => exact absurd rfl h.whole_ne
    | cons d ws =>
      obtain rfl : d = c := by simpa [Numeral.signChars] using (List.cons.inj hall).1
      exact .inr (.inr (h.whole d List.mem_cons_self))
  | some s =>
    have hs : s.char = c := by simpa [Numeral.signChars] using (List.cons.inj hall).1
    cases s
    · exact .inr (.inl hs.symm)
    · exact .inl hs.symm

/-- What a number starts with is none of the characters that other tokens start with. -/
theorem head_number_ne {c d : Char} {cs : List Char} (h : n.Plain) (hc : n.chars ++ rest = c :: cs)
    (hd : d.isDigit = false) (hminus : d ≠ '-') (hplus : d ≠ '+') : c ≠ d := by
  rcases head_number h hc with rfl | rfl | hdigit
  · exact hminus.symm
  · exact hplus.symm
  · exact Numeral.ne_of_isDigit hdigit hd

theorem startsNumber_chars (h : n.Plain) (rest : List Char) : startsNumber (n.chars ++ rest) := by
  obtain ⟨g, ws, f, x⟩ := n
  have hscan : Numeral.scanSign (Numeral.signChars g ++
      (ws ++ (Numeral.fractionChars f ++ (Numeral.exponentChars x ++ rest)))) = (g, _) :=
    Numeral.scanSign_plain h.whole_ne h.whole
  simp only [startsNumber, Numeral.chars, List.append_assoc, hscan]
  cases ws with
  | nil => exact absurd rfl h.whole_ne
  | cons d ws =>
    have hd := h.whole d List.mem_cons_self
    have hpoint : d ≠ '.' := Numeral.ne_of_isDigit hd (by decide)
    simp [startsDigits, hpoint, hd]

theorem scan_number {c : Char} {cs : List Char} (h : n.Plain) (hc : n.chars ++ rest = c :: cs) :
    scan c cs = scanNumber (c :: cs) :=
  scan_eq_scanNumber (hc ▸ startsNumber_chars h rest)

end Lexeme

end CaseSetup
