import CaseSetup.Proofs.Token.Spelling

/-! # The longest number

What the pattern of floats finds is the longest front of the text in its language, and so it is for
integers where no float stands, although in both the first match is taken and not the longest. So a
number is scanned as the longest float, or, if there is none, as the longest integer. -/

namespace CaseSetup

/-- `p` is the longest of the texts that `cs` starts with and that are in `L`. -/
structure Longest (L : Language Char) (cs p : List Char) : Prop where
  front : p <+: cs
  mem : p ∈ L
  length_le : ∀ q, q <+: cs → q ∈ L → q.length ≤ p.length

theorem Longest.unique {L : Language Char} {cs p q : List Char} (hp : Longest L cs p) (hq : Longest L cs q) : p = q :=
  have hle := hp.length_le q hq.front hq.mem
  have hge := hq.length_le p hp.front hp.mem
  (List.prefix_of_prefix_length_le hp.front hq.front hge).eq_of_length (Nat.le_antisymm hge hle)

namespace Numeral

open Text (isDecimalDigit)
open Pattern (mem_language_many mem_language_plus)

variable {cs ds p : List Char} {n : Numeral}

theorem mem_signPattern : p ∈ signPattern.language ↔ ∃ g, p = signChars g := by
  constructor
  · rintro (⟨c, hc, rfl⟩ | rfl)
    · rcases Bool.or_eq_true_iff.1 hc with hc | hc <;> obtain rfl := of_decide_eq_true hc
      · exact ⟨some .minus, rfl⟩
      · exact ⟨some .plus, rfl⟩
    · exact ⟨none, rfl⟩
  · rintro ⟨_ | (_ | _), rfl⟩
    · exact .inr rfl
    · exact .inl ⟨'+', by decide, rfl⟩
    · exact .inl ⟨'-', by decide, rfl⟩

theorem mem_exponentPattern : p ∈ exponentPattern.language ↔
    ∃ b ds, ds ≠ [] ∧ (∀ c ∈ ds, isDecimalDigit c) ∧ p = exponentChars (some (b, ds)) := by
  constructor
  · rintro ⟨_, ⟨c, hc, rfl⟩, _, ⟨_, ⟨d, hd, rfl⟩ | rfl, ds, hds, rfl⟩, rfl⟩ <;>
      obtain ⟨hne, hall⟩ := mem_language_plus.1 hds <;> obtain rfl := of_decide_eq_true hc
    · obtain rfl := of_decide_eq_true hd
      exact ⟨true, ds, hne, hall, rfl⟩
    · exact ⟨false, ds, hne, hall, rfl⟩
  · rintro ⟨b, ds, hne, hall, rfl⟩
    have hds : ds ∈ digitsPattern.language := mem_language_plus.2 ⟨hne, hall⟩
    refine ⟨['e'], ⟨'e', by decide, rfl⟩, _, ?_, rfl⟩
    cases b with
    | false => exact ⟨[], .inr rfl, ds, hds, rfl⟩
    | true => exact ⟨['-'], .inl ⟨'-', by decide, rfl⟩, ds, hds, rfl⟩

/-- Digits around a point, on one side of it at least. -/
theorem mem_pointPattern : p ∈ pointPattern.language ↔
    ∃ ws fs, ws ++ fs ≠ [] ∧ (∀ c ∈ ws ++ fs, isDecimalDigit c) ∧ p = ws ++ '.' :: fs := by
  constructor
  · rintro (⟨ws, hws, _, ⟨_, ⟨c, hc, rfl⟩, fs, hfs, rfl⟩, rfl⟩ | ⟨_, ⟨c, hc, rfl⟩, fs, hfs, rfl⟩) <;>
      obtain rfl := of_decide_eq_true hc
    · obtain ⟨hne, hws⟩ := mem_language_plus.1 hws
      have hall := List.forall_mem_append.2 ⟨hws, mem_language_many.1 hfs⟩
      exact ⟨ws, fs, List.append_ne_nil_of_left_ne_nil hne fs, hall, rfl⟩
    · obtain ⟨hne, hfs⟩ := mem_language_plus.1 hfs
      exact ⟨[], fs, hne, hfs, rfl⟩
  · rintro ⟨ws, fs, hne, hall, rfl⟩
    obtain ⟨hws, hfs⟩ := List.forall_mem_append.1 hall
    have hdot : ['.'] ∈ (Pattern.char '.').language := ⟨'.', by decide, rfl⟩
    cases ws with
    | nil => exact .inr ⟨['.'], hdot, fs, mem_language_plus.2 ⟨hne, hfs⟩, rfl⟩
    | cons c ws =>
      exact .inl ⟨c :: ws, mem_language_plus.2 ⟨by simp, hws⟩, '.' :: fs,
        ⟨['.'], hdot, fs, mem_language_many.2 hfs, rfl⟩, rfl⟩

theorem mem_integerPattern : p ∈ integerPattern.language ↔
    ∃ n : Numeral, n.Shaped ∧ n.isFloat = false ∧ n.chars = p := by
  constructor
  · rintro ⟨s, hs, ds, hds, rfl⟩
    obtain ⟨g, rfl⟩ := mem_signPattern.1 hs
    obtain ⟨hne, hds⟩ := mem_language_plus.1 hds
    refine ⟨⟨g, ds, none, none⟩, ⟨?_, ?_, by simp, by simp⟩, rfl, ?_⟩
    · simpa [digits] using hne
    · simpa [digits] using hds
    · simp [chars, fractionChars, exponentChars]
  · rintro ⟨n, hn, hf, rfl⟩
    obtain ⟨hchars, hdigits, -⟩ := chars_of_not_isFloat hf
    have hds : n.whole ∈ digitsPattern.language := hdigits ▸ mem_language_plus.2 ⟨hn.digits_ne, hn.digits⟩
    exact ⟨_, mem_signPattern.2 ⟨_, rfl⟩, _, hds, hchars.symm⟩

/-- A float has a point, or else an exponent. -/
theorem mem_floatPattern : p ∈ floatPattern.language ↔ ∃ n : Numeral, n.Shaped ∧ n.isFloat ∧ n.chars = p := by
  constructor
  · rintro ⟨s, hs, _, ⟨m, hm, x, hx | rfl, rfl⟩ | ⟨ds, hds, x, hx, rfl⟩, rfl⟩ <;>
      obtain ⟨g, rfl⟩ := mem_signPattern.1 hs
    · obtain ⟨ws, fs, hne, hall, rfl⟩ := mem_pointPattern.1 hm
      obtain ⟨b, es, hes, hexp, rfl⟩ := mem_exponentPattern.1 hx
      refine ⟨⟨g, ws, some fs, some (b, es)⟩, ⟨hne, hall, by simpa using hes, by simpa using hexp⟩, rfl, ?_⟩
      simp [chars, fractionChars]
    · obtain ⟨ws, fs, hne, hall, rfl⟩ := mem_pointPattern.1 hm
      refine ⟨⟨g, ws, some fs, none⟩, ⟨hne, hall, by simp, by simp⟩, rfl, ?_⟩
      simp [chars, fractionChars, exponentChars]
    · obtain ⟨b, es, hes, hexp, rfl⟩ := mem_exponentPattern.1 hx
      obtain ⟨hne, hall⟩ := mem_language_plus.1 hds
      refine ⟨⟨g, ds, none, some (b, es)⟩, ⟨?_, ?_, by simpa using hes, by simpa using hexp⟩, rfl, ?_⟩
      · simpa [digits] using hne
      · simpa [digits] using hall
      · simp [chars, fractionChars]
  · rintro ⟨⟨g, ws, f, x⟩, hn, hf, rfl⟩
    refine ⟨_, mem_signPattern.2 ⟨g, rfl⟩, _, ?_, rfl⟩
    have hexp : ∀ y ∈ x, exponentChars (some y) ∈ exponentPattern.language := fun y hy =>
      mem_exponentPattern.2 ⟨y.1, y.2, hn.exponent_ne y hy, hn.exponent y hy, rfl⟩
    cases f with
    | some fs =>
      have hpoint := mem_pointPattern.2 ⟨ws, fs, hn.digits_ne, hn.digits, rfl⟩
      refine .inl ⟨_, hpoint, exponentChars x, ?_, by simp [fractionChars]⟩
      cases x with
      | none => exact .inr rfl
      | some y => exact .inl (hexp y rfl)
    | none =>
      obtain ⟨y, rfl⟩ : ∃ y, x = some y := Option.isSome_iff_exists.1 (by simpa [isFloat] using hf)
      have hws : ws ∈ digitsPattern.language :=
        mem_language_plus.2 (by simpa [digits] using And.intro hn.digits_ne hn.digits)
      exact .inr ⟨ws, hws, _, hexp y rfl, rfl⟩

theorem length_chars (n : Numeral) : n.chars.length = (signChars n.sign).length +
    (n.whole.length + ((fractionChars n.fraction).length + (exponentChars n.exponent).length)) := by
  simp only [chars, List.length_append]

/-- No numeral that a text starts with is longer than the scanned one, and if it is a float, so is that. -/
theorem Shaped.le_scan (h : n.Shaped) (rest : List Char) :
    n.chars.length ≤ (scan (n.chars ++ rest)).1.chars.length ∧
      (n.isFloat → (scan (n.chars ++ rest)).1.isFloat) := by
  rw [length_chars, length_chars]
  cases hx : n.exponent with
  | some x =>
    obtain ⟨b, ds⟩ := x
    rw [h.scan_exponent hx]
    refine ⟨?_, by simp [isFloat]⟩
    cases b <;> simp [exponentChars]
  | none =>
    cases hf : n.fraction with
    | some ds =>
      rw [h.scan_point hf hx]
      refine ⟨?_, by simp [isFloat]⟩
      simp only [fractionChars, exponentChars, List.length_cons, List.length_append, List.length_nil]
      omega
    | none =>
      have hint : n.isFloat = false := by simp [isFloat, hf, hx]
      obtain ⟨hsign, hwhole⟩ := h.scan_digits hint rest
      refine ⟨?_, by simp [hint]⟩
      rw [hsign, hwhole, List.length_append]
      simp only [fractionChars, exponentChars, List.length_nil]
      omega

/-- Every digit of a numeral is a decimal digit that stands in its text. -/
theorem Shaped.digit (h : n.Shaped) : ∀ c ∈ n.digits ++ n.exponentDigits, c ∈ n.chars ∧ isDecimalDigit c := by
  intro c hc
  obtain ⟨g, ws, f, x⟩ := n
  rcases List.mem_append.1 hc with hc | hc
  · refine ⟨?_, h.digits c hc⟩
    have hdigits : c ∈ ws ++ f.getD [] := hc
    cases f with
    | none =>
      have hws : c ∈ ws := by simpa using hdigits
      simp [chars, hws]
    | some fs =>
      rcases List.mem_append.1 hdigits with hws | hfs
      · simp [chars, hws]
      · have hfs : c ∈ fs := hfs
        simp [chars, fractionChars, hfs]
  · cases x with
    | none => simp [exponentDigits] at hc
    | some x =>
      obtain ⟨b, ds⟩ := x
      have hds : c ∈ ds := by simpa [exponentDigits] using hc
      refine ⟨?_, h.exponent _ rfl c hds⟩
      cases b <;> simp [chars, exponentChars, hds]

variable {rest : List Char}

/-- Of all floats that the text starts with, the one that is found is the longest. -/
theorem longest_find?_float (h : Lexeme.startsNumber cs) (hp : floatPattern.find? cs = some (p, rest)) :
    Longest floatPattern.language cs p where
  front := ⟨rest, Pattern.find?_append hp⟩
  mem := Pattern.mem_language_of_find? hp
  length_le := by
    rintro q ⟨t, rfl⟩ hq
    obtain ⟨m, hm, -, rfl⟩ := mem_floatPattern.1 hq
    rw [find?_float h] at hp
    split at hp <;> cases hp
    exact (hm.le_scan t).1

theorem isFloat_scan_iff (h : Lexeme.startsNumber cs) :
    (scan cs).1.isFloat ↔ ∃ q, q <+: cs ∧ q ∈ floatPattern.language := by
  constructor
  · intro hf
    have hlongest := longest_find?_float h ((find?_float h).trans (if_pos hf))
    exact ⟨_, hlongest.front, hlongest.mem⟩
  · rintro ⟨q, hq, hmem⟩
    obtain ⟨m, rest, hfind⟩ := Pattern.exists_find? hmem hq
    rw [find?_float h] at hfind
    split at hfind
    · assumption
    · cases hfind

/-- If no float stands there, the integer that is found is the longest. -/
theorem longest_find?_integer (h : Lexeme.startsNumber cs) (hf : (scan cs).1.isFloat = false)
    (hp : integerPattern.find? cs = some (p, rest)) : Longest integerPattern.language cs p where
  front := ⟨rest, Pattern.find?_append hp⟩
  mem := Pattern.mem_language_of_find? hp
  length_le := by
    rintro q ⟨t, rfl⟩ hq
    obtain ⟨m, hm, -, rfl⟩ := mem_integerPattern.1 hq
    rw [find?_integer h hf] at hp
    cases hp
    exact (hm.le_scan t).1

/-- After an integer that is not followed by an exponent stands neither a digit nor a point, or it would be longer. -/
theorem rest_scan_integer (h : Lexeme.startsNumber cs) (hf : (scan cs).1.isFloat = false) :
    ∀ d ∈ (scan cs).2.head?, isDecimalDigit d = false ∧ d ≠ '.' := by
  intro d hd
  obtain ⟨hchars, hdigits, -⟩ := chars_of_not_isFloat hf
  have hshaped := shaped_scan h
  have hne : (scan cs).1.whole ≠ [] := hdigits ▸ hshaped.digits_ne
  have hall : ∀ c ∈ (scan cs).1.whole, isDecimalDigit c := hdigits ▸ hshaped.digits
  obtain ⟨rest, hrest⟩ := List.head?_eq_some_iff.1 hd
  have hlonger : (scan cs).1.chars ++ [d] <+: cs := ⟨rest, by
    rw [List.append_assoc, List.singleton_append, ← hrest, chars_scan_append]⟩
  refine ⟨Bool.eq_false_iff.2 fun hdigit => ?_, ?_⟩
  · have hmem : (scan cs).1.chars ++ [d] ∈ integerPattern.language := by
      rw [hchars, List.append_assoc]
      refine ⟨_, mem_signPattern.2 ⟨_, rfl⟩, _, mem_language_plus.2 ⟨by simp, ?_⟩, rfl⟩
      exact List.forall_mem_append.2 ⟨hall, by simpa using hdigit⟩
    have hle := (longest_find?_integer h hf (find?_integer h hf)).length_le _ hlonger hmem
    rw [List.length_append, List.length_singleton] at hle
    omega
  · rintro rfl
    have hmem : (scan cs).1.chars ++ ['.'] ∈ floatPattern.language := by
      rw [hchars, List.append_assoc]
      refine mem_floatPattern.2
        ⟨⟨(scan cs).1.sign, (scan cs).1.whole, some [], none⟩, ⟨?_, ?_, by simp, by simp⟩, rfl, ?_⟩
      · simpa [digits] using hne
      · simpa [digits] using hall
      · simp [chars, fractionChars, exponentChars]
    have hfloat := (isFloat_scan_iff h).2 ⟨_, hlonger, hmem⟩
    rw [hf] at hfloat
    contradiction

end Numeral

namespace Lexeme

variable {c : Char} {cs : List Char}

open Numeral (floatPattern integerPattern signChars)

/-- Integers are read as numbers only. -/
theorem startsNumber_of_scan_int {i : Int64} {g : Option Sign} {p rest : List Char}
    (h : scan c cs = .ok (⟨.int i, g, p⟩, rest)) : startsNumber (c :: cs) := by
  unfold scan at h
  split at h
  · cases h
  split at h
  · simp only [scanString] at h
    split at h <;> cases h
  split at h
  · dsimp only at h
    rcases wordToken_cases ((c :: cs).takeWhile isWordChar) with ⟨b, hb⟩ | hn
    · rw [hb] at h
      cases h
    · rw [hn] at h
      cases h
  split at h
  · assumption
  split at h
  · rename_i hs
    cases h
    unfold symbol? at hs
    split at hs <;> cases hs
  · cases h

/-- A number with ASCII digits only is read as a float if a float stands there. -/
theorem scanNumber_float_longest (h : startsNumber cs) (hd : ∀ d ∈ cs, Text.isDecimalDigit d → d.isDigit)
    (hp : ∃ p, p <+: cs ∧ p ∈ floatPattern.language) :
    ∃ x g p rest, scanNumber cs = .ok (⟨.float x, g, p⟩, rest) ∧ Longest floatPattern.language cs p := by
  have hf := (Numeral.isFloat_scan_iff h).2 hp
  have hlongest := Numeral.longest_find?_float h ((Numeral.find?_float h).trans (if_pos hf))
  have hall : ∀ d ∈ (Numeral.scan cs).1.digits ++ (Numeral.scan cs).1.exponentDigits, d.isDigit := by
    intro d hdigit
    obtain ⟨hmem, hdec⟩ := (Numeral.shaped_scan h).digit d hdigit
    exact hd d (List.IsPrefix.subset ⟨_, Numeral.chars_scan_append cs⟩ hmem) hdec
  have hx : (Numeral.scan cs).1.toFloat? = some _ := if_pos (List.all_eq_true.2 hall)
  exact ⟨_, _, _, _, by rw [scanNumber_eq h, if_pos hf, hx], hlongest⟩

/-- Else it is read as an integer, whose value decides. -/
theorem scanNumber_integer_longest (h : startsNumber cs) (hd : ∀ d ∈ cs, Text.isDecimalDigit d → d.isDigit)
    (hp : ∀ p, p <+: cs → p ∉ floatPattern.language) :
    ∃ g ds rest, cs = signChars g ++ ds ++ rest ∧ Longest integerPattern.language cs (signChars g ++ ds) ∧
      (rest.head? = some 'e' → ∃ m, scanNumber cs = .error m ∧ m.reason.code = 103) ∧
      (rest.head? ≠ some 'e' →
        (Int64.minValue.toInt ≤ signedValue g ds ∧ signedValue g ds ≤ Int64.maxValue.toInt →
          ∃ i, scanNumber cs = .ok (⟨.int i, g, signChars g ++ ds⟩, rest) ∧ i.toInt = signedValue g ds) ∧
        (signedValue g ds < Int64.minValue.toInt ∨ Int64.maxValue.toInt < signedValue g ds →
          ∃ m, scanNumber cs = .error m ∧ m.reason.code = 102)) := by
  have hf : (Numeral.scan cs).1.isFloat = false := Bool.eq_false_iff.2 fun hf =>
    have ⟨q, hq, hmem⟩ := (Numeral.isFloat_scan_iff h).1 hf
    hp q hq hmem
  obtain ⟨hchars, hdigits, -⟩ := Numeral.chars_of_not_isFloat hf
  have hlongest := Numeral.longest_find?_integer h hf (Numeral.find?_integer h hf)
  have hall : (Numeral.scan cs).1.whole.all Char.isDigit := by
    refine List.all_eq_true.2 fun d hdigit => hd d ?_ (Numeral.whole_scan cs d hdigit)
    exact hlongest.front.subset (by simp [hchars, hdigit])
  have hint := Numeral.toInt?_eq (Numeral.scan cs).1
  rw [if_pos hall] at hint
  have happ := Numeral.chars_scan_append cs
  rw [hchars] at happ hlongest
  have hnot : ¬ (Numeral.scan cs).1.isFloat := by simp [hf]
  refine ⟨_, _, _, happ.symm, hlongest, fun he => ?bare, fun he => ⟨fun hrange => ?inside, fun hrange => ?outside⟩⟩
  case bare =>
    exact ⟨_, by rw [scanNumber_eq h, if_neg hnot, if_pos he], rfl⟩
  case inside =>
    rw [if_pos hrange] at hint
    refine ⟨_, by rw [scanNumber_eq h, if_neg hnot, if_neg he, hint, hchars], ?_⟩
    exact Int64.toInt_ofInt_of_le hrange.1 (Int.lt_of_le_of_lt hrange.2 (by decide))
  case outside =>
    rw [if_neg (by omega)] at hint
    exact ⟨_, by rw [scanNumber_eq h, if_neg hnot, if_neg he, hint], rfl⟩

/-- If a float stands at the front of the text, the longest one is read. If not, the longest integer is, unless an
`e` follows it or it is out of range. So nothing that could make it longer follows an integer. -/
theorem scan_longest (c : Char) (cs : List Char) :
    (startsNumber (c :: cs) → (∀ d ∈ c :: cs, Text.isDecimalDigit d → d.isDigit) →
      ((∃ p, p <+: c :: cs ∧ p ∈ floatPattern.language) →
        ∃ x g p rest, scan c cs = .ok (⟨.float x, g, p⟩, rest) ∧ Longest floatPattern.language (c :: cs) p) ∧
      ((∀ p, p <+: c :: cs → p ∉ floatPattern.language) →
        ∃ g ds rest, c :: cs = signChars g ++ ds ++ rest ∧
          Longest integerPattern.language (c :: cs) (signChars g ++ ds) ∧
          (rest.head? = some 'e' → ∃ m, scan c cs = .error m ∧ m.reason.code = 103) ∧
          (rest.head? ≠ some 'e' →
            (Int64.minValue.toInt ≤ signedValue g ds ∧ signedValue g ds ≤ Int64.maxValue.toInt →
              ∃ i, scan c cs = .ok (⟨.int i, g, signChars g ++ ds⟩, rest) ∧ i.toInt = signedValue g ds) ∧
            (signedValue g ds < Int64.minValue.toInt ∨ Int64.maxValue.toInt < signedValue g ds →
              ∃ m, scan c cs = .error m ∧ m.reason.code = 102)))) ∧
    ∀ i g p rest, scan c cs = .ok (⟨.int i, g, p⟩, rest) →
      ∀ d ∈ rest.head?, Text.isDecimalDigit d = false ∧ d ≠ '.' ∧ d ≠ 'e' := by
  refine ⟨fun hs hascii => ⟨fun hp => ?float, fun hp => ?integer⟩, fun i g p rest h d hd => ?follows⟩
  case float =>
    rw [scan_eq_scanNumber hs]
    exact scanNumber_float_longest hs hascii hp
  case integer =>
    rw [scan_eq_scanNumber hs]
    exact scanNumber_integer_longest hs hascii hp
  case follows =>
    have hs := startsNumber_of_scan_int h
    rw [scan_eq_scanNumber hs, scanNumber_eq hs] at h
    split at h
    · split at h <;> cases h
    rename_i hf
    split at h
    · cases h
    rename_i he
    split at h
    · cases h
      obtain ⟨hdigit, hpoint⟩ := Numeral.rest_scan_integer hs (Bool.eq_false_iff.2 hf) d hd
      refine ⟨hdigit, hpoint, ?_⟩
      rintro rfl
      exact he hd
    · cases h

theorem scan_longest_dangling :
    (∃ x g rest, scan '-' ['1', '.', '5', 'e', '-'] = .ok (⟨.float x, g, ['-', '1', '.', '5']⟩, rest)) ∧
      ∃ m, scan '1' ['2', 'e', '-'] = .error m ∧ m.reason.code = 103 := by
  constructor
  · have hs : startsNumber ['-', '1', '.', '5', 'e', '-'] := by decide
    have hfind : floatPattern.find? ['-', '1', '.', '5', 'e', '-'] = some (['-', '1', '.', '5'], ['e', '-']) := by
      decide
    have hlongest := Numeral.longest_find?_float hs hfind
    have hread := (scan_longest '-' ['1', '.', '5', 'e', '-']).1 hs (by simp [Text.isDecimalDigit])
    obtain ⟨x, g, p, rest, hscan, hp⟩ := hread.1 ⟨_, hlongest.front, hlongest.mem⟩
    obtain rfl := hp.unique hlongest
    exact ⟨x, g, rest, hscan⟩
  · have hs : startsNumber ['1', '2', 'e', '-'] := by decide
    have hfind : integerPattern.find? ['1', '2', 'e', '-'] = some (['1', '2'], ['e', '-']) := by decide
    have hlongest := Numeral.longest_find?_integer hs (by decide) hfind
    have hnone : ∀ p, p <+: ['1', '2', 'e', '-'] → p ∉ floatPattern.language := fun p hp hmem =>
      absurd ((Numeral.isFloat_scan_iff hs).2 ⟨p, hp, hmem⟩) (by decide)
    have hread := (scan_longest '1' ['2', 'e', '-']).1 hs (by simp [Text.isDecimalDigit])
    obtain ⟨g, ds, rest, happ, hint, he, -⟩ := hread.2 hnone
    rw [hint.unique hlongest] at happ
    have hrest : rest = ['e', '-'] := by simpa using happ.symm
    exact he (by rw [hrest]; rfl)

end Lexeme

end CaseSetup
