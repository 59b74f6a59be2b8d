import CaseSetup.Token.Scan

/-! # What tokens hold

A name is a word that spells no boolean, and a string holds no quote. -/

namespace CaseSetup

/-- A word that is read as a name. -/
def IsName (s : String) : Prop :=
  ∃ c cs, s.toList = c :: cs ∧ Lexeme.isWordStart c ∧ (∀ d ∈ cs, Lexeme.isWordChar d) ∧
    Lexeme.wordToken (c :: cs) = .name s

/-- Does the token hold what the text of one can? -/
def Token.Proper : Token → Prop
  | name s => IsName s
  | str s => '"' ∉ s.toList
  | _ => True

namespace Lexeme

variable {c : Char} {cs rest : List Char} {l : Lexeme}

theorem wordToken_cases (cs : List Char) : (∃ b, wordToken cs = .bool b) ∨ wordToken cs = .name (.ofList cs) := by
  unfold wordToken
  split
  · exact .inl ⟨true, rfl⟩
  · exact .inl ⟨false, rfl⟩
  · exact .inr rfl

theorem proper_wordToken (hc : isWordStart c) (hcs : ∀ d ∈ cs, isWordChar d) : (wordToken (c :: cs)).Proper := by
  rcases wordToken_cases (c :: cs) with ⟨b, h⟩ | h
  · rw [h]
    trivial
  · rw [h]
    exact ⟨c, cs, String.toList_ofList, hc, hcs, h⟩

theorem proper_scanString (h : scanString cs = .ok (l, rest)) : l.token.Proper := by
  simp only [scanString] at h
  split at h
  · cases h
    show '"' ∉ (String.ofList _).toList
    rw [String.toList_ofList]
    intro hq
    have hne := List.all_eq_true.1 List.all_takeWhile '"' hq
    simp at hne
  · cases h

theorem proper_scanNumber (h : scanNumber cs = .ok (l, rest)) : l.token.Proper := by
  unfold scanNumber at h
  split at h
  · split at h <;> cases h
    trivial
  · split at h
    · cases h
    · split at h
      · cases h
      · split at h <;> cases h
        trivial

theorem proper_symbol {t : Token} (h : symbol? c = some t) : t.Proper := by
  unfold symbol? at h
  split at h <;> cases h <;> trivial

theorem proper_scan (h : scan c cs = .ok (l, rest)) : l.token.Proper := by
  unfold scan at h
  split at h
  · cases h
    trivial
  split at h
  · exact proper_scanString h
  split at h
  · rename_i hc
    cases h
    have htake : (c :: cs).takeWhile isWordChar = c :: cs.takeWhile isWordChar := by
      simp [isWordChar_of_isWordStart hc]
    show (wordToken ((c :: cs).takeWhile isWordChar)).Proper
    rw [htake]
    exact proper_wordToken hc (List.all_eq_true.1 List.all_takeWhile)
  split at h
  · exact proper_scanNumber h
  split at h
  · rename_i t ht
    cases h
    exact proper_symbol ht
  · cases h

end Lexeme

/-- Every token of a text is proper. -/
theorem Scan.proper (p : Position) (cs : List Char) : ∀ t ∈ (Scan.ofChars p cs).tokens, t.token.Proper := by
  fun_induction Scan.ofChars p cs with
  | case1 | case2 => simp
  | case3 p cs q c rest hr l rest' hl q' s ih =>
    intro t ht
    rcases List.mem_cons.1 ht with rfl | ht
    · exact Lexeme.proper_scan hl
    · exact ih t ht

end CaseSetup
