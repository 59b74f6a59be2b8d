import CaseSetup.Proofs.Token.Tiles

/-! # What a lexical fault shows

A lexical fault gives a line and a column, and a fragment of the text. At that line and column stands
the first character that cannot be read, and the fragment starts with it. Only a blank that may not
stand between tokens is not shown: the fragment ends in front of it, and is empty. -/

namespace CaseSetup

/-- The character of the text at a line and a column, both counted from 1. -/
def charAt? (text : List Char) : Nat → Nat → Option Char
  | line + 1, column + 1 => (text.splitOn '\n')[line]?.bind (·[column]?)
  | _, _ => none

section

variable {c d : Char} {cs : List Char}

theorem splitOn_cons_newline (cs : List Char) : ('\n' :: cs).splitOn '\n' = [] :: cs.splitOn '\n' := by
  simp [List.splitOn, List.splitOnP_cons_eq_if_modifyHead]

theorem splitOn_cons_of_ne (h : c ≠ '\n') (cs : List Char) :
    (c :: cs).splitOn '\n' = (cs.splitOn '\n').modifyHead (c :: ·) := by
  simp [List.splitOn, List.splitOnP_cons_eq_if_modifyHead, h]

namespace Position

theorem length_takeWhile_reverse (cs : List Char) :
    (cs.reverse.takeWhile (· ≠ '\n')).length = cs.reverse.length ↔ '\n' ∉ cs := by
  rw [(List.takeWhile_sublist _).length_eq, List.takeWhile_eq_self_iff]
  simp only [List.mem_reverse, decide_eq_true_eq]
  exact ⟨fun h hn => h _ hn rfl, fun h d hd hn => h (hn ▸ hd)⟩

theorem column_behind_of_no_newline (h : '\n' ∉ cs) : (behind cs).column = cs.length :=
  ((length_takeWhile_reverse cs).2 h).trans List.length_reverse

/-- What stands on earlier lines is no part of the column. -/
theorem column_behind_cons (h : d = '\n' ∨ '\n' ∈ cs) : (behind (d :: cs)).column = (behind cs).column := by
  show ((d :: cs).reverse.takeWhile _).length = (cs.reverse.takeWhile _).length
  rw [List.reverse_cons, List.takeWhile_append]
  split
  · rename_i hall
    obtain rfl := h.resolve_right ((length_takeWhile_reverse cs).1 hall)
    rw [hall]
    simp
  · rfl

end Position

/-- The character that stands behind a text, unless it starts a new line. -/
theorem charAt?_behind (h : c ≠ '\n') (before rest : List Char) :
    charAt? (before ++ c :: rest) (Position.behind before).line ((Position.behind before).column + 1) = some c := by
  show ((before ++ c :: rest).splitOn '\n')[before.count '\n']?.bind (·[(Position.behind before).column]?) = some c
  induction before with
  | nil =>
    obtain ⟨l, ls, hl⟩ := List.exists_cons_of_ne_nil (List.splitOn_ne_nil '\n' rest)
    simp [splitOn_cons_of_ne h, hl, Position.behind]
  | cons d before ih =>
    rw [List.cons_append]
    by_cases hd : d = '\n'
    · subst hd
      rwa [splitOn_cons_newline, List.count_cons_self, Position.column_behind_cons (.inl rfl), List.getElem?_cons_succ]
    rw [splitOn_cons_of_ne hd, List.count_cons_of_ne hd]
    obtain ⟨l, ls, hl⟩ := List.exists_cons_of_ne_nil (List.splitOn_ne_nil '\n' (before ++ c :: rest))
    rw [hl] at ih ⊢
    by_cases hn : '\n' ∈ before
    · -- the character `d` lengthens another line
      obtain ⟨k, hk⟩ := Nat.exists_eq_add_one.2 (List.count_pos_iff.2 hn)
      rw [hk] at ih ⊢
      rwa [Position.column_behind_cons (.inr hn)]
    · have hnd : '\n' ∉ d :: before := List.not_mem_cons_of_ne_of_not_mem (Ne.symm hd) hn
      rw [List.count_eq_zero.2 hn, Position.column_behind_of_no_newline hn] at ih
      rwa [List.count_eq_zero.2 hn, Position.column_behind_of_no_newline hnd]

end

namespace Lexeme

variable {c : Char} {cs : List Char} {m : Malformed}

theorem isBlank_eq_false_of_startsNumber (h : startsNumber (c :: cs)) : Text.isBlank c = false := by
  rcases head_startsNumber h with rfl | rfl | rfl | hd
  · rfl
  · rfl
  · rfl
  · have hdigit : 48 ≤ c.toNat ∧ c.toNat ≤ 57 := by
      simpa [Char.isDigit, UInt32.le_iff_toNat_le] using hd
    simp [Text.isBlank, Text.blankRanges, Text.within]
    omega

theorem head?_upToBlank (r : Malformed.Reason) (c : Char) (cs : List Char) :
    (Malformed.upToBlank r (c :: cs)).fragment.head? = if Text.isBlank c then none else some c := by
  cases h : Text.isBlank c <;> simp [Malformed.upToBlank, h]

/-- What starts like a number and cannot be read is shown from its first character on. -/
theorem head?_fragment_scanNumber (hs : startsNumber (c :: cs)) (h : scanNumber (c :: cs) = .error m) :
    m.fragment.head? = if Text.isBlank c then none else some c := by
  have hchars : (Numeral.scan (c :: cs)).1.chars.head? = some c := by
    obtain ⟨d, ds, hds⟩ := List.exists_cons_of_ne_nil (chars_scan_ne_nil hs)
    have happ := Numeral.chars_scan_append (c :: cs)
    rw [hds] at happ ⊢
    exact congrArg some (List.cons.inj happ).1
  have hblank := isBlank_eq_false_of_startsNumber hs
  rw [scanNumber_eq hs] at h
  split at h
  · split at h <;> cases h
    simp [hchars, hblank]
  · split at h
    · cases h
      exact head?_upToBlank _ _ _
    · split at h <;> cases h
      simp [hchars, hblank]

/-- The fragment of what cannot be read starts with its first character, if that is not a blank. -/
theorem head?_fragment (h : scan c cs = .error m) :
    m.fragment.head? = if Text.isBlank c then none else some c := by
  unfold scan at h
  split at h
  · cases h
  split at h
  · rename_i hq
    subst hq
    simp only [scanString] at h
    split at h <;> cases h
    exact head?_upToBlank _ _ _
  split at h
  · cases h
  split at h
  · rename_i hn
    exact head?_fragment_scanNumber hn h
  split at h <;> cases h
  exact head?_upToBlank _ _ _

end Lexeme

namespace Scan

/-- A scan ends in front of a character that is no gap and at which no token can be read. -/
theorem exists_of_malformed {before cs : List Char} {p : Position} {m : Malformed}
    (h : (ofChars (.behind before) cs).ending = .malformed p m) :
    ∃ front c rest, cs = front ++ c :: rest ∧ p = .behind (before ++ front) ∧ isGap c = false ∧
      Lexeme.scan c rest = .error m := by
  generalize hq : Position.behind before = q at h
  fun_induction ofChars q cs generalizing before with
  | case1 => cases h
  | case2 q cs q' c rest hr m' =>
    rename_i hl
    subst hq
    obtain ⟨rfl, rfl⟩ := Ending.malformed.inj h
    exact ⟨_, c, rest, takeWhile_isGap_append hr, (Position.behind_append _ _).symm, isGap_head_dropWhile hr, hl⟩
  | case3 q cs q' c rest hr l rest' hl q'' s =>
    rename_i ih
    subst hq
    have hq : .behind (before ++ cs.takeWhile isGap ++ l.slice) = q'' := by
      rw [Position.behind_append, Position.behind_append]
    have hcs : cs = cs.takeWhile isGap ++ (l.slice ++ rest') := by
      rw [Lexeme.scan_append hl, ← takeWhile_isGap_append hr]
    obtain ⟨front, d, rest'', hrest, hat, hgap, hscan⟩ := ih hq h
    refine ⟨cs.takeWhile isGap ++ l.slice ++ front, d, rest'', ?_, by simpa using hat, hgap, hscan⟩
    rw [hrest] at hcs
    simpa using hcs

/-- A fault of the scan of `cs`, wherever in a text `cs` stands, gives the line and column of a character of
the text that is no gap. The fragment starts with this character, or is empty if it is a blank. -/
theorem shows_offending (before cs : List Char) {f : Fault}
    (h : (ofChars (.behind before) cs).tokens? = .error f) :
    ∃ (fragment : String) (line column : Nat) (c : Char), f.cause = .lexical fragment line column ∧
      charAt? (before ++ cs) line column = some c ∧ isGap c = false ∧
      fragment.toList.head? = if Text.isBlank c then none else some c := by
  unfold tokens? at h
  split at h
  · cases h
  · rename_i p m he
    cases h
    obtain ⟨front, c, rest, rfl, rfl, hgap, hscan⟩ := exists_of_malformed he
    have hline : c ≠ '\n' := by
      rintro rfl
      cases hgap
    refine ⟨_, _, _, c, rfl, ?_, hgap, ?_⟩
    · rw [← List.append_assoc]
      exact charAt?_behind hline _ _
    · rw [String.toList_ofList]
      exact Lexeme.head?_fragment hscan

/-- A no-break space is not shown, though it is what cannot be read. -/
theorem shows_offending_noBreakSpace :
    (ofChars (.behind "s = \"a\nb\"".toList) "\r\n \u00a0= 1".toList).tokens? =
        .error ⟨.lexical "" 3 2, some "No token starts here", some 104⟩ ∧
      ∃ (fragment : String) (line column : Nat) (c : Char), Cause.lexical "" 3 2 = .lexical fragment line column ∧
        charAt? ("s = \"a\nb\"".toList ++ "\r\n \u00a0= 1".toList) line column = some c ∧ isGap c = false ∧
        fragment.toList.head? = if Text.isBlank c then none else some c :=
  have h : (ofChars (.behind "s = \"a\nb\"".toList) "\r\n \u00a0= 1".toList).tokens? =
      .error ⟨.lexical "" 3 2, some "No token starts here", some 104⟩ := by decide +kernel
  ⟨h, shows_offending _ _ h⟩

end Scan

end CaseSetup
