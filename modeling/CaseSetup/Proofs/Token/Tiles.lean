import CaseSetup.Proofs.Token.Spelling

/-! # The tiling of a text

The tokens of a text and the blanks between them make up the text, each token spelled by its own
part and placed where counting newlines and characters places that part. `Tiles` is this relation;
it names no function of the scan. -/

namespace CaseSetup

namespace Position

/-- The position after the text `before`: its newlines are counted, and the characters after the last one. -/
def behind (before : List Char) : Position :=
  ⟨before.count '\n' + 1, (before.reverse.takeWhile (· ≠ '\n')).length⟩

theorem behind_concat (before : List Char) (c : Char) : behind (before ++ [c]) = (behind before).next c := by
  by_cases h : c = '\n' <;> simp [behind, next, h]

theorem behind_append (before cs : List Char) : behind (before ++ cs) = (behind before).after cs := by
  induction cs generalizing before with
  | nil => simp
  | cons c cs ih => rw [List.append_cons, ih, behind_concat, after_cons]

end Position

/-- `Tiles before cs ts e`: after the text `before`, the text `cs` is made up of the tokens `ts`, with
blanks between them, up to the ending `e`. -/
inductive Tiles : List Char → List Char → List Located → Ending → Prop
  | finish {before gap} (blank : ∀ c ∈ gap, Scan.isGap c) :
      Tiles before gap [] (.clean (.behind (before ++ gap)))
  | malformed {before gap cs m} (blank : ∀ c ∈ gap, Scan.isGap c) (solid : ∀ c ∈ cs.head?, Scan.isGap c = false)
      (offends : m.Offends cs) : Tiles before (gap ++ cs) [] (.malformed (.behind (before ++ gap)) m)
  | token {before gap slice cs t ts e} (blank : ∀ c ∈ gap, Scan.isGap c) (ne : slice ≠ [])
      (spelled : t.token.SpelledBy t.sign slice) (start : t.start = .behind (before ++ gap))
      (stop : t.stop = .behind (before ++ gap ++ slice)) (rest : Tiles (before ++ gap ++ slice) cs ts e) :
      Tiles before (gap ++ (slice ++ cs)) (t :: ts) e

namespace Tiles

variable {before cs : List Char} {ts : List Located}

/-- The text in front of a malformed part is all that was read, and the part stands where the ending says. -/
theorem malformed_at {p : Position} {m : Malformed} {e : Ending} (h : Tiles before cs ts e)
    (he : e = .malformed p m) :
    ∃ front rest, cs = front ++ rest ∧ m.Offends rest ∧ p = .behind (before ++ front) := by
  induction h with
  | finish => cases he
  | malformed _ _ offends =>
    cases he
    exact ⟨_, _, rfl, offends, rfl⟩
  | @token before gap slice cs t ts e _ _ _ _ _ _ ih =>
    obtain ⟨front, rest, rfl, hm, rfl⟩ := ih he
    exact ⟨gap ++ (slice ++ front), rest, by simp, hm, by simp⟩

end Tiles

namespace Scan

theorem isGap_head_dropWhile {cs rest : List Char} {c : Char} (h : cs.dropWhile isGap = c :: rest) :
    isGap c = false := by
  have hc := List.head?_dropWhile_not isGap cs
  rw [h] at hc
  exact hc

theorem takeWhile_isGap_append {cs rest : List Char} (h : cs.dropWhile isGap = rest) :
    cs = cs.takeWhile isGap ++ rest := by
  rw [← h, List.takeWhile_append_dropWhile]

theorem isGap_of_mem_takeWhile (cs : List Char) : ∀ c ∈ cs.takeWhile isGap, isGap c :=
  List.all_eq_true.1 List.all_takeWhile

/-- The tokens of a text tile it, whatever stands before it. -/
theorem tiles_ofChars (before cs : List Char) :
    Tiles before cs (ofChars (.behind before) cs).tokens (ofChars (.behind before) cs).ending := by
  generalize hp : Position.behind before = p
  fun_induction ofChars p cs generalizing before with
  | case1 p cs q hr =>
    subst hp
    have hcs := takeWhile_isGap_append hr
    have hq : q = .behind (before ++ cs) := by
      rw [Position.behind_append, hcs, List.append_nil]
    show Tiles before cs [] (.clean q)
    rw [hq]
    refine .finish ?_
    rw [hcs, List.append_nil]
    exact isGap_of_mem_takeWhile cs
  | case2 p cs q c rest hr m hl =>
    subst hp
    have hq : q = .behind (before ++ cs.takeWhile isGap) := (Position.behind_append _ _).symm
    have htiles : Tiles before (cs.takeWhile isGap ++ c :: rest) [] (.malformed q m) := by
      rw [hq]
      refine .malformed (isGap_of_mem_takeWhile cs) ?_ (Lexeme.offends_scan hl)
      rintro _ ⟨rfl⟩
      exact isGap_head_dropWhile hr
    rwa [← takeWhile_isGap_append hr] at htiles
  | case3 p cs q c rest hr l rest' hl q' s ih =>
    subst hp
    have hq : q = .behind (before ++ cs.takeWhile isGap) := (Position.behind_append _ _).symm
    have hq' : .behind (before ++ cs.takeWhile isGap ++ l.slice) = q' := by
      rw [Position.behind_append, ← hq]
    have htiles : Tiles before (cs.takeWhile isGap ++ (l.slice ++ rest')) (⟨l.token, l.sign, q, q'⟩ :: s.tokens)
        s.ending :=
      .token (isGap_of_mem_takeWhile cs) (Lexeme.slice_ne_nil hl) (Lexeme.spelled_scan hl) hq hq'.symm (ih _ hq')
    rwa [Lexeme.scan_append hl, ← takeWhile_isGap_append hr] at htiles

theorem tiles (text : String) : Tiles [] text.toList (ofText text).tokens (ofText text).ending :=
  tiles_ofChars [] text.toList

/-- The tokens of a text tile it from its start, and a fault of the scan shows the malformed part at the
line and column that the text in front of it gives. -/
theorem tiles_ofText (text : String) :
    Tiles [] text.toList (ofText text).tokens (ofText text).ending ∧
      ∀ f, (ofText text).tokens? = .error f →
        ∃ (before : List Char) (m : Malformed) (rest : List Char), text.toList = before ++ rest ∧ m.Offends rest ∧
          f.cause = .lexical (.ofList m.fragment) (Position.behind before).line
            ((Position.behind before).column + 1) := by
  refine ⟨tiles text, fun f hf => ?_⟩
  unfold tokens? at hf
  split at hf
  · cases hf
  · rename_i p m he
    cases hf
    obtain ⟨before, rest, htext, hm, rfl⟩ := (tiles text).malformed_at he
    exact ⟨before, m, rest, htext, hm, rfl⟩

/-- A string over two lines, and on the third an exponent without digits. -/
theorem tiles_ofText_bareExponent :
    (ofText "s = \"a\nb\" -2.5\n  -12e é").tokens? =
        .error ⟨.lexical "-12e" 3 3, some "Exponent needs digits, as in 1e5 or 1e-5", some 103⟩ ∧
      ∃ (before : List Char) (m : Malformed) (rest : List Char),
        "s = \"a\nb\" -2.5\n  -12e é".toList = before ++ rest ∧ m.Offends rest ∧
          Cause.lexical "-12e" 3 3 = .lexical (.ofList m.fragment) (Position.behind before).line
            ((Position.behind before).column + 1) :=
  have h : (ofText "s = \"a\nb\" -2.5\n  -12e é").tokens? =
      .error ⟨.lexical "-12e" 3 3, some "Exponent needs digits, as in 1e5 or 1e-5", some 103⟩ := by decide +kernel
  ⟨h, (tiles_ofText _).2 _ h⟩

end Scan

end CaseSetup
