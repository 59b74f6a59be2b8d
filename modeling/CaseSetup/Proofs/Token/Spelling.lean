import CaseSetup.Proofs.Token.Pattern
import CaseSetup.Proofs.Token.Proper
import Mathlib.Data.List.TakeWhile

/-! # How tokens are spelled

`Token.SpelledBy t g cs` says what it means that the characters `cs` are a text of the token `t`
with the sign `g`, and `Malformed.Offends m cs` what is wrong with a text `cs` that starts with the
malformed part `m`. The two hold of what `Lexeme.scan` returns, a token or what stopped it. -/

namespace CaseSetup

/-- A numeral that has a value: digits, also in the exponent if there is one, all of them ASCII. -/
structure Numeral.Legible (n : Numeral) : Prop where
  digits_ne : n.digits ≠ []
  exponent_ne : ∀ x ∈ n.exponent, x.2 ≠ []
  ascii : ∀ c ∈ n.digits ++ n.exponentDigits, c.isDigit

/-- The integer of the digits `ds` with the sign `g`. -/
def signedValue (g : Option Sign) (ds : List Char) : Int :=
  if g = some .minus then -(Nat.ofDigitChars 10 ds 0 : Int) else Nat.ofDigitChars 10 ds 0

/-- Names and comments are their text, strings their text between quotes, numbers the value of their
digits, and all others have one text each. -/
def Token.SpelledBy : Token → Option Sign → List Char → Prop
  | comment s, g, cs => g = none ∧ cs = s.toList ∧ ['/', '/'] <+: cs ∧ '\n' ∉ cs
  | str s, g, cs => g = none ∧ cs = '"' :: s.toList ++ ['"'] ∧ '"' ∉ s.toList
  | name s, g, cs => g = none ∧ cs = s.toList ∧ IsName s
  | bool b, g, cs => g = none ∧ cs.map Char.toLower = (toString b).toList
  | int n, g, cs =>
    ∃ ds, ds ≠ [] ∧ (∀ c ∈ ds, c.isDigit) ∧ cs = Numeral.signChars g ++ ds ∧ n.toInt = signedValue g ds
  | float x, g, cs =>
    ∃ n : Numeral, n.Legible ∧ n.isFloat ∧ n.sign = g ∧ cs = n.chars ∧
      x = if g = some .minus then -n.magnitude.toFloat else n.magnitude.toFloat
  | t, g, cs => g = none ∧ cs = t.text.toList

/-- The text `cs` starts with the part that is shown, and that part is malformed as it is said to be. -/
def Malformed.Offends (m : Malformed) (cs : List Char) : Prop :=
  m.fragment <+: cs ∧
  match m.reason with
  | .unclosedString => ∃ body, cs = '"' :: body ∧ '"' ∉ body
  | .bareExponent =>
    ∃ g ds rest, cs = Numeral.signChars g ++ (ds ++ 'e' :: rest) ∧ ds ≠ [] ∧
      (∀ c ∈ ds, Text.isDecimalDigit c) ∧ (Numeral.scanExponent ('e' :: rest)).1 = none
  | .noToken => ∃ c rest, cs = c :: rest ∧ c ≠ '"' ∧ c.isDigit = false ∧ Lexeme.isWordStart c = false ∧
      Lexeme.symbol? c = none
  | .floatDigits => ∃ n : Numeral, m.fragment = n.chars ∧ n.isFloat ∧
      ∃ c ∈ n.digits ++ n.exponentDigits, c.isDigit = false
  | .integerRange => ∃ g ds, m.fragment = Numeral.signChars g ++ ds ∧ ds ≠ [] ∧
      ((∀ c ∈ ds, c.isDigit) → signedValue g ds < Int64.minValue.toInt ∨ Int64.maxValue.toInt < signedValue g ds)

namespace Numeral

variable {n : Numeral}

theorem toFloat?_eq_some {x : Float} (h : n.toFloat? = some x) :
    (∀ c ∈ n.digits ++ n.exponentDigits, c.isDigit) ∧
      x = if n.sign = some .minus then -n.magnitude.toFloat else n.magnitude.toFloat := by
  unfold toFloat? at h
  split at h
  · rename_i hall
    exact ⟨List.all_eq_true.1 hall, (Option.some.inj h).symm⟩
  · cases h

theorem toFloat?_eq_none (h : n.toFloat? = none) : ∃ c ∈ n.digits ++ n.exponentDigits, c.isDigit = false := by
  unfold toFloat? at h
  split at h
  · cases h
  · rename_i hall
    obtain ⟨c, hc, hd⟩ := List.all_eq_false.1 (Bool.eq_false_iff.2 hall)
    exact ⟨c, hc, Bool.eq_false_iff.2 hd⟩

theorem toInt?_eq (n : Numeral) : n.toInt? =
    if n.whole.all Char.isDigit then
      if Int64.minValue.toInt ≤ signedValue n.sign n.whole ∧ signedValue n.sign n.whole ≤ Int64.maxValue.toInt then
        some (Int64.ofInt (signedValue n.sign n.whole))
      else none
    else none := rfl

theorem toInt?_eq_some {i : Int64} (h : n.toInt? = some i) :
    (∀ c ∈ n.whole, c.isDigit) ∧ i.toInt = signedValue n.sign n.whole := by
  rw [toInt?_eq] at h
  split at h
  · rename_i hall
    split at h
    · rename_i hrange
      cases h
      exact ⟨List.all_eq_true.1 hall, Int64.toInt_ofInt_of_le hrange.1 (Int.lt_of_le_of_lt hrange.2 (by decide))⟩
    · cases h
  · cases h

theorem toInt?_eq_none (h : n.toInt? = none) (hall : ∀ c ∈ n.whole, c.isDigit) :
    signedValue n.sign n.whole < Int64.minValue.toInt ∨ Int64.maxValue.toInt < signedValue n.sign n.whole := by
  rw [toInt?_eq, if_pos (List.all_eq_true.2 hall)] at h
  split at h
  · cases h
  · rename_i hrange
    omega

end Numeral

namespace Lexeme

variable {c : Char} {cs rest : List Char} {l : Lexeme} {m : Malformed}

theorem fragment_upToBlank (r : Malformed.Reason) (cs : List Char) : (Malformed.upToBlank r cs).fragment <+: cs :=
  List.takeWhile_prefix _

theorem spelled_scanNumber (hs : startsNumber cs) (h : scanNumber cs = .ok (l, rest)) :
    l.token.SpelledBy l.sign l.slice := by
  have hne := digits_scan_ne_nil hs
  rw [scanNumber_eq hs] at h
  split at h
  · rename_i hf
    split at h
    · rename_i x hx
      cases h
      obtain ⟨hall, hval⟩ := Numeral.toFloat?_eq_some hx
      exact ⟨_, ⟨hne, Numeral.exponent_scan_ne cs, hall⟩, hf, rfl, rfl, hval⟩
    · cases h
  · rename_i hf
    obtain ⟨hchars, hdigits, hexp⟩ := Numeral.chars_of_not_isFloat (Bool.eq_false_iff.2 hf)
    split at h
    · cases h
    · split at h
      · rename_i i hi
        cases h
        obtain ⟨hall, hval⟩ := Numeral.toInt?_eq_some hi
        exact ⟨_, hdigits ▸ hne, hall, hchars, hval⟩
      · cases h

theorem offends_scanNumber (hs : startsNumber cs) (h : scanNumber cs = .error m) : m.Offends cs := by
  have hne := digits_scan_ne_nil hs
  have happ := Numeral.chars_scan_append cs
  rw [scanNumber_eq hs] at h
  split at h
  · rename_i hf
    split at h
    · cases h
    · rename_i hx
      cases h
      exact ⟨⟨_, happ⟩, _, rfl, hf, Numeral.toFloat?_eq_none hx⟩
  · rename_i hf
    obtain ⟨hchars, hdigits, hexp⟩ := Numeral.chars_of_not_isFloat (Bool.eq_false_iff.2 hf)
    rw [hdigits] at hne
    split at h
    · rename_i he
      cases h
      obtain ⟨rest', hrest⟩ := List.head?_eq_some_iff.1 he
      have hnone := Numeral.scanExponent_scan hexp
      rw [hchars, hrest, List.append_assoc] at happ
      rw [hrest] at hnone
      exact ⟨fragment_upToBlank _ _, _, _, rest', happ.symm, hne, Numeral.whole_scan cs, hnone⟩
    · split at h
      · cases h
      · rename_i hi
        cases h
        exact ⟨⟨_, happ⟩, _, _, hchars, hne, Numeral.toInt?_eq_none hi⟩

theorem spelled_scanString (h : scanString cs = .ok (l, rest)) : l.token.SpelledBy l.sign l.slice := by
  have hp := proper_scanString h
  simp only [scanString] at h
  split at h
  · rename_i q rest' hd
    cases h
    obtain rfl : q = '"' := by
      have hq := List.head?_dropWhile_not (· ≠ '"') cs
      rw [hd] at hq
      simpa using hq
    exact ⟨rfl, by rw [String.toList_ofList], hp⟩
  · cases h

theorem offends_scanString (h : scanString cs = .error m) : m.Offends ('"' :: cs) := by
  simp only [scanString] at h
  split at h
  · cases h
  · rename_i hd
    cases h
    refine ⟨fragment_upToBlank _ _, cs, rfl, fun hq => ?_⟩
    have hne := List.dropWhile_eq_nil_iff.1 hd '"' hq
    simp at hne

theorem spelled_comment (h : c = '/' ∧ cs.head? = some '/') :
    (Token.comment (.ofList ((c :: cs).takeWhile (· ≠ '\n')))).SpelledBy none ((c :: cs).takeWhile (· ≠ '\n')) := by
  obtain ⟨rfl, hcs⟩ := h
  obtain ⟨rest, rfl⟩ := List.head?_eq_some_iff.1 hcs
  refine ⟨rfl, by rw [String.toList_ofList], ⟨rest.takeWhile (· ≠ '\n'), by simp⟩, fun hn => ?_⟩
  have hne := List.all_eq_true.1 List.all_takeWhile '\n' hn
  simp at hne

theorem map_toLower_of_wordToken {b : Bool} (h : wordToken cs = .bool b) :
    cs.map Char.toLower = (toString b).toList := by
  unfold wordToken at h
  split at h <;> cases h <;> assumption

theorem spelled_word (h : isWordStart c) :
    (wordToken ((c :: cs).takeWhile isWordChar)).SpelledBy none ((c :: cs).takeWhile isWordChar) := by
  have htake : (c :: cs).takeWhile isWordChar = c :: cs.takeWhile isWordChar := by
    simp [isWordChar_of_isWordStart h]
  have hp := proper_wordToken h (List.all_eq_true.1 (List.all_takeWhile (p := isWordChar) (l := cs)))
  rw [htake]
  rcases wordToken_cases (c :: cs.takeWhile isWordChar) with ⟨b, hb⟩ | hn
  · rw [hb]
    exact ⟨rfl, map_toLower_of_wordToken hb⟩
  · rw [hn] at hp ⊢
    exact ⟨rfl, by rw [String.toList_ofList], hp⟩

theorem spelled_symbol {t : Token} (h : symbol? c = some t) : t.SpelledBy none [c] := by
  unfold symbol? at h
  split at h <;> cases h <;> exact ⟨rfl, rfl⟩

theorem startsNumber_of_isDigit (h : c.isDigit) (cs : List Char) : startsNumber (c :: cs) := by
  have hminus : c ≠ '-' := Numeral.ne_of_isDigit h (by decide)
  have hplus : c ≠ '+' := Numeral.ne_of_isDigit h (by decide)
  have hpoint : c ≠ '.' := Numeral.ne_of_isDigit h (by decide)
  simp [startsNumber, Numeral.scanSign, hminus, hplus, startsDigits, hpoint, h]

/-- A token is spelled by the slice it was read from. -/
theorem spelled_scan (h : scan c cs = .ok (l, rest)) : l.token.SpelledBy l.sign l.slice := by
  unfold scan at h
  split at h
  · rename_i hc
    cases h
    exact spelled_comment hc
  split at h
  · exact spelled_scanString h
  split at h
  · rename_i hc
    cases h
    exact spelled_word hc
  split at h
  · rename_i hn
    exact spelled_scanNumber hn h
  split at h
  · rename_i t ht
    cases h
    exact spelled_symbol ht
  · cases h

/-- Where no token is read, the text is malformed as the report says. -/
theorem offends_scan (h : scan c cs = .error m) : m.Offends (c :: cs) := by
  unfold scan at h
  split at h
  · cases h
  split at h
  · rename_i hq
    subst hq
    exact offends_scanString h
  rename_i hq
  split at h
  · cases h
  rename_i hw
  split at h
  · rename_i hn
    exact offends_scanNumber hn h
  rename_i hn
  split at h
  · cases h
  · rename_i hs
    cases h
    have hd : c.isDigit = false := Bool.eq_false_iff.2 fun hd => hn (startsNumber_of_isDigit hd cs)
    exact ⟨fragment_upToBlank _ _, c, cs, rfl, hq, hd, Bool.eq_false_iff.2 hw, hs⟩

end Lexeme

end CaseSetup
