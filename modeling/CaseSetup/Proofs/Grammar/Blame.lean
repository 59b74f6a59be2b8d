import CaseSetup.Proofs.Grammar.Local

/-! # What a blame depends on

The readers of the grammar are local: none looks past the token ahead, and none blames another. So
a document that is refused for the token or the end that stands at some place is refused with the
same fault whatever stands after that place. -/

namespace CaseSetup

namespace Reader

theorem Local.closed : Closed fun c R e n ts => e.Ahead ts → Local R c e n ts where
  weaken h hd ha := (h ha).weaken hd
  result a _ _ _ _ ha := .result ha a
  blame x _ _ _ _ ha := .blamed ha x
  fail hf _ := .fail hf
  depth h _ := .depth h
  succ heq h ha := .succ heq (h ha)
  look h ha := .look (h ha)
  take ht h _ := .take ht h
  andThen hA hB ha := .andThen (hA ha) hB

end Reader

variable {α : Type} {f : Fault}

/-- A blame is that of the reader, which had the first token ahead. -/
theorem Scan.read_blame {s : Scan} {R : Reader α} (h : s.read R = .error f) (hf : f.cause.kind = .unexpected) :
    s.ending.Ahead s.tokens ∧ R s.ending s.depth s.tokens = .error (.fault f) := by
  unfold read at h
  split at h
  · cases h
  · rename_i g hg
    cases h
    rcases Outcome.bind_eq_error.1 hg with hresume | ⟨ts, hresume, hrun⟩
    · exact absurd hf (Ending.resume_ne_unexpected hresume)
    · obtain ⟨rfl, ha⟩ := Ending.resume_eq_ok.1 hresume
      exact ⟨ha, hrun⟩
  · cases h
    cases hf

theorem Scan.read_of_error {s : Scan} {R : Reader α} (ha : s.ending.Ahead s.tokens)
    (h : R s.ending s.depth s.tokens = .error (.fault f)) : s.read R = .error f := by
  have hrun : s.ending.resume s.tokens >>= R s.ending s.depth = .error (.fault f) := by
    rw [show s.ending.resume s.tokens = .ok s.tokens from ha]
    exact h
  unfold read
  rw [hrun]

/-- A document refused for the token or end at one place of its text is refused with the same fault in any
text that is seen the same up to that place. The fault has the code of the end exactly if the place is
the end. -/
theorem Block.parse_blame {text : String} (h : Block.parse text = .error f) (hf : f.cause.kind = .unexpected) :
    ∃ (k : Nat) (s : Sight) (x : Expected), (Scan.ofText text).sights[k]? = some s ∧ f = s.unexpected x ∧
      (∀ (j : Nat) (s' : Sight), (Scan.ofText text).sights[j]? = some s' → s'.pos = s.pos → j = k) ∧
      (f.code = some 201 ↔ k = (Scan.ofText text).tokens.length) ∧
      ∀ text' : String, (Scan.ofText text').sights.take (k + 1) = (Scan.ofText text).sights.take (k + 1) →
        Block.parse text' = .error f := by
  obtain ⟨ha, hrun⟩ := Scan.read_blame h hf
  obtain ⟨us, x, rfl, cs, hts, hus, hsame⟩ := ((Reader.Local.closed.each _ _).statements false [] ha).blame hrun hf
  obtain ⟨ss, hsights⟩ := Ending.sights_eq hus cs
  rw [← hts] at hsights
  have hk : (Scan.ofText text).sights[cs.length]? = some ((Scan.ofText text).ending.front us) := by
    rw [Scan.sights, hsights, List.getElem?_append_right (by simp)]
    simp
  refine ⟨cs.length, _, x, hk, rfl, fun j s' hj hpos => Scan.sights_unique hk hj hpos, ?_, fun text' htake => ?_⟩
  · rw [Sight.code_unexpected, show (Ending.front _ us).token = none ↔ us = [] from Ending.peek_eq_none, hts,
      List.length_append]
    constructor
    · rintro rfl
      rfl
    · intro hlen
      exact List.eq_nil_of_length_eq_zero (by omega)
  · have hfirst : (Scan.ofText text).sights.take (cs.length + 1) =
        cs.map Located.seen ++ [(Scan.ofText text).ending.front us] := by
      simp [Scan.sights, hsights, List.take_append, List.take_of_length_le]
    have hprefix : cs.map Located.seen ++ [(Scan.ofText text).ending.front us] <+: (Scan.ofText text').sights := by
      rw [← hfirst, ← htake]
      exact List.take_prefix _ _
    obtain ⟨cs', us', hts', hcs', hus', hfront⟩ := Ending.exists_of_sights hprefix
    have hlen : cs'.length = cs.length := by simpa using congrArg List.length hcs'
    have hdepth : 5 * cs.length + 2 ≤ (Scan.ofText text').depth := by
      rw [Scan.depth, hts', List.length_append]
      omega
    have hrun' : statements _ false _ [] (cs' ++ us') = .error (Ending.unexpected _ us' x) :=
      hsame hdepth hcs' hus' hfront
    rw [← hts', Ending.unexpected, hfront] at hrun'
    refine Scan.read_of_error ?_ hrun'
    rw [hts']
    exact hus'.append cs'

/-- A brace in a list that no bracket has closed. -/
theorem Block.parse_blame_list :
    ∃ f, f = Sight.unexpected ⟨some .closeBrace, none, ⟨3, 0⟩⟩ .listEnd ∧
      Block.parse "a \x7b\n  b = [8, -4\n\x7d c = 1e" = .error f ∧ f.cause.kind = .unexpected ∧
      ∃ (k : Nat) (s : Sight) (x : Expected),
        (Scan.ofText "a \x7b\n  b = [8, -4\n\x7d c = 1e").sights[k]? = some s ∧ f = s.unexpected x ∧
        (∀ (j : Nat) (s' : Sight), (Scan.ofText "a \x7b\n  b = [8, -4\n\x7d c = 1e").sights[j]? = some s' →
          s'.pos = s.pos → j = k) ∧
        (f.code = some 201 ↔ k = (Scan.ofText "a \x7b\n  b = [8, -4\n\x7d c = 1e").tokens.length) ∧
        ∀ text' : String, (Scan.ofText text').sights.take (k + 1) =
          (Scan.ofText "a \x7b\n  b = [8, -4\n\x7d c = 1e").sights.take (k + 1) → Block.parse text' = .error f :=
  have h : Block.parse "a \x7b\n  b = [8, -4\n\x7d c = 1e" =
      .error (Sight.unexpected ⟨some .closeBrace, none, ⟨3, 0⟩⟩ .listEnd) :=
    Outcome.fault?_eq_some.1 (by decide +kernel)
  ⟨_, rfl, h, rfl, parse_blame h rfl⟩

end CaseSetup
