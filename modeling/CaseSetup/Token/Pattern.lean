/-! # Patterns

Regular expressions as far as numbers need them: only single characters are repeated. A pattern is
matched at the front of a text. The left of two alternatives is tried before the right one and a
repetition takes as much as it can, and what was taken is given back only if the rest of the pattern
fails after it. `ends` lists the matches in the order in which they are tried, so the one that is found
is the first of them. It need not be the longest. -/

namespace CaseSetup

inductive Pattern
  | skip
  | one (p : Char → Bool)
  | many (p : Char → Bool)
  | seq (r s : Pattern)
  | alt (r s : Pattern)

namespace Pattern

/-- The character itself. -/
def char (c : Char) : Pattern := one (· = c)

/-- `r?` -/
def opt (r : Pattern) : Pattern := alt r skip

/-- `r+` for a single character -/
def plus (p : Char → Bool) : Pattern := seq (one p) (many p)

/-- What can be left of the text when some of the characters in front for which `p` holds are taken. -/
def manyEnds (p : Char → Bool) : List Char → List (List Char)
  | [] => [[]]
  | c :: cs => if p c then manyEnds p cs ++ [c :: cs] else [c :: cs]

/-- What is left of the text after each match at its front, in the order in which they are tried. -/
def ends : Pattern → List Char → List (List Char)
  | skip, cs => [cs]
  | one _, [] => []
  | one p, c :: cs => if p c then [cs] else []
  | many p, cs => manyEnds p cs
  | seq r s, cs => (r.ends cs).flatMap s.ends
  | alt r s, cs => r.ends cs ++ s.ends cs

def first? (r : Pattern) (cs : List Char) : Option (List Char) := (r.ends cs).head?

/-- The match that is found at the front of the text, and what is left after it. -/
def find? (r : Pattern) (cs : List Char) : Option (List Char × List Char) :=
  (r.first? cs).map fun rest => (cs.take (cs.length - rest.length), rest)

/-- Is there a match that takes nothing? -/
def nullable : Pattern → Bool
  | skip | many _ => true
  | one _ => false
  | seq r s => r.nullable && s.nullable
  | alt r s => r.nullable || s.nullable

variable {r s : Pattern} {cs m rest : List Char}

theorem suffix_of_mem_manyEnds {p : Char → Bool} (h : rest ∈ manyEnds p cs) : rest <:+ cs := by
  induction cs with
  | nil => exact List.mem_singleton.1 h ▸ List.suffix_refl _
  | cons c cs ih =>
    rw [manyEnds] at h
    split at h
    · rcases List.mem_append.1 h with h | h
      · exact (ih h).trans (List.suffix_cons c cs)
      · exact List.mem_singleton.1 h ▸ List.suffix_refl _
    · exact List.mem_singleton.1 h ▸ List.suffix_refl _

theorem suffix_of_mem_ends (h : rest ∈ r.ends cs) : rest <:+ cs := by
  induction r generalizing cs rest with
  | skip => exact List.mem_singleton.1 h ▸ List.suffix_refl _
  | one p =>
    cases cs with
    | nil => cases h
    | cons c cs =>
      rw [ends] at h
      split at h
      · exact List.mem_singleton.1 h ▸ List.suffix_cons c cs
      · cases h
  | many p => exact suffix_of_mem_manyEnds h
  | seq r s ihr ihs =>
    obtain ⟨mid, hr, hs⟩ := List.mem_flatMap.1 h
    exact (ihs hs).trans (ihr hr)
  | alt r s ihr ihs => exact (List.mem_append.1 h).elim ihr ihs

theorem length_lt_of_mem_ends (hr : r.nullable = false) (h : rest ∈ r.ends cs) : rest.length < cs.length := by
  induction r generalizing cs rest with
  | skip | many => cases hr
  | one p =>
    cases cs with
    | nil => cases h
    | cons c cs =>
      rw [ends] at h
      split at h
      · rw [List.mem_singleton.1 h]
        exact Nat.lt_succ_self _
      · cases h
  | seq r s ihr ihs =>
    obtain ⟨mid, hmid, hrest⟩ := List.mem_flatMap.1 h
    rcases Bool.and_eq_false_iff.1 hr with hr | hs
    · exact Nat.lt_of_le_of_lt (suffix_of_mem_ends hrest).length_le (ihr hr hmid)
    · exact Nat.lt_of_lt_of_le (ihs hs hrest) (suffix_of_mem_ends hmid).length_le
  | alt r s ihr ihs =>
    obtain ⟨hr, hs⟩ := Bool.or_eq_false_iff.1 hr
    exact (List.mem_append.1 h).elim (ihr hr) (ihs hs)

theorem find?_eq_some : r.find? cs = some (m, rest) ↔ r.first? cs = some rest ∧ m ++ rest = cs := by
  simp only [find?, Option.map_eq_some_iff, Prod.mk.injEq]
  constructor
  · rintro ⟨rest, h, rfl, rfl⟩
    obtain ⟨m, rfl⟩ := suffix_of_mem_ends (List.mem_of_head? h)
    simp [h]
  · rintro ⟨h, rfl⟩
    exact ⟨rest, h, by simp⟩

/-- The match and what is left after it are the text. -/
theorem find?_append (h : r.find? cs = some (m, rest)) : m ++ rest = cs := (find?_eq_some.1 h).2

theorem find?_ne_nil (hr : r.nullable = false) (h : r.find? cs = some (m, rest)) : m ≠ [] := by
  rintro rfl
  obtain ⟨hfirst, rfl⟩ := find?_eq_some.1 h
  exact Nat.lt_irrefl _ (length_lt_of_mem_ends hr (List.mem_of_head? hfirst))

end Pattern

end CaseSetup
