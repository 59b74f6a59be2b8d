import CaseSetup.Proofs.Grammar.Cursor
import CaseSetup.Proofs.Token.Tiles

/-! # What a reader sees

The sights of a text are those of its tokens and then, if all of it is well formed, of its end. Each
of them is at a later position than the one before. -/

namespace CaseSetup

namespace Position

/-- Is `p` an earlier position of a text than `q`? -/
def Before (p q : Position) : Prop := p.line < q.line ∨ p.line = q.line ∧ p.column < q.column

variable {p q r : Position}

theorem Before.trans (h : p.Before q) (h' : q.Before r) : p.Before r := by
  unfold Before at *
  omega

theorem Before.ne (h : p.Before q) : p ≠ q := by
  rintro rfl
  unfold Before at h
  omega

theorem before_next (p : Position) (c : Char) : p.Before (p.next c) := by
  by_cases h : c = '\n' <;> simp [Before, next, h]

theorem before_after {cs : List Char} (h : cs ≠ []) : p.Before (p.after cs) := by
  induction cs generalizing p with
  | nil => contradiction
  | cons c cs ih =>
    cases cs with
    | nil => exact before_next p c
    | cons d cs => exact (before_next p c).trans (ih (List.cons_ne_nil d cs))

end Position

namespace Ending

/-- All that is seen from the tokens `ts` on. Nothing is seen of a malformed part. -/
def sights (e : Ending) (ts : Tokens) : List Sight :=
  ts.map Located.seen ++ match e with
    | clean _ => [e.seen]
    | malformed .. => []

variable {e e' : Ending} {ts cs us cs' us' : Tokens} {s : Sight} {ss : List Sight}

/-- Malformed text is no blame of a token. -/
theorem resume_ne_unexpected {f : Fault} (h : e.resume ts = .error (.fault f)) : f.cause.kind ≠ .unexpected := by
  cases ts <;> cases e <;> cases h
  exact Cause.Kind.noConfusion

/-- What is seen ahead of two runs of tokens is the same if the runs look the same, and what follows them. -/
theorem front_append (hcs : cs'.map Located.seen = cs.map Located.seen) (hus : e'.front us' = e.front us) :
    e'.front (cs' ++ us') = e.front (cs ++ us) := by
  cases cs with
  | nil =>
    obtain rfl : cs' = [] := by simpa using hcs
    exact hus
  | cons t cs =>
    cases cs' with
    | nil => cases hcs
    | cons t' cs' => exact (List.cons.inj hcs).1

theorem sights_eq (h : e.Ahead us) (cs : Tokens) :
    ∃ ss, e.sights (cs ++ us) = cs.map Located.seen ++ e.front us :: ss := by
  cases us with
  | nil =>
    obtain ⟨p, rfl⟩ := h.clean
    exact ⟨[], by simp [sights, front]⟩
  | cons t us => exact ⟨e.sights us, by simp [sights, front]⟩

/-- Tokens whose sights begin with `ss` and `s` are a run that looks like `ss`, and `s` is seen after it. -/
theorem exists_of_sights (h : ss ++ [s] <+: e.sights ts) :
    ∃ cs us, ts = cs ++ us ∧ cs.map Located.seen = ss ∧ e.Ahead us ∧ e.front us = s := by
  induction ss generalizing ts with
  | nil =>
    refine ⟨[], ts, rfl, rfl, ?_⟩
    cases ts with
    | nil =>
      cases e with
      | clean p => exact ⟨rfl, (List.cons_prefix_cons.1 h).1.symm⟩
      | malformed p m => simp [sights] at h
    | cons t ts => exact ⟨ahead_cons t, (List.cons_prefix_cons.1 h).1.symm⟩
  | cons s' ss ih =>
    cases ts with
    | nil =>
      have hlen := h.length_le
      cases e <;> simp [sights] at hlen
    | cons t ts =>
      obtain ⟨ht, hss⟩ := List.cons_prefix_cons.1 h
      obtain ⟨cs, us, rfl, rfl, ha, hs⟩ := ih hss
      exact ⟨t :: cs, us, rfl, by rw [ht]; rfl, ha, hs⟩

end Ending

/-- All that is seen of a text. -/
def Scan.sights (s : Scan) : List Sight := s.ending.sights s.tokens

namespace Tiles

variable {before cs : List Char} {ts : Tokens} {e : Ending}

/-- All that is seen is behind the text `before`. -/
theorem behind_of_mem (h : Tiles before cs ts e) :
    ∀ s ∈ e.sights ts, ∃ front, s.pos = (Position.behind before).after front := by
  induction h with
  | @finish before gap =>
    intro s hs
    obtain rfl := List.mem_singleton.1 hs
    exact ⟨gap, Position.behind_append before gap⟩
  | malformed =>
    intro s hs
    cases hs
  | @token before gap slice cs t ts e _ _ _ start _ _ ih =>
    intro s hs
    rcases List.mem_cons.1 hs with rfl | hs
    · exact ⟨gap, start.trans (Position.behind_append before gap)⟩
    · obtain ⟨front, hfront⟩ := ih s hs
      refine ⟨gap ++ slice ++ front, hfront.trans ?_⟩
      rw [List.append_assoc, Position.behind_append, ← Position.after_append, List.append_assoc]

/-- What is seen first is at the earlier position. -/
theorem pairwise_before (h : Tiles before cs ts e) : (e.sights ts).Pairwise fun s s' => s.pos.Before s'.pos := by
  induction h with
  | finish => exact List.pairwise_singleton _ _
  | malformed => exact .nil
  | @token before gap slice cs t ts e _ ne _ start _ rest ih =>
    refine .cons (fun s hs => ?_) ih
    obtain ⟨front, hfront⟩ := rest.behind_of_mem s hs
    show t.start.Before s.pos
    rw [hfront, start, Position.behind_append _ slice, ← Position.after_append]
    exact Position.before_after (by simp [ne])

end Tiles

/-- No two sights of a text are at one position. -/
theorem Scan.sights_unique {text : String} {j k : Nat} {s s' : Sight} (hk : (ofText text).sights[k]? = some s)
    (hj : (ofText text).sights[j]? = some s') (h : s'.pos = s.pos) : j = k := by
  have hpair := (tiles text).pairwise_before
  rw [List.pairwise_iff_getElem] at hpair
  obtain ⟨hltk, rfl⟩ := List.getElem?_eq_some_iff.1 hk
  obtain ⟨hltj, rfl⟩ := List.getElem?_eq_some_iff.1 hj
  rcases Nat.lt_trichotomy j k with hlt | heq | hlt
  · exact absurd h (hpair j k hltj hltk hlt).ne
  · exact heq
  · exact absurd h.symm (hpair k j hltk hltj hlt).ne

end CaseSetup
