import CaseSetup.Path
import CaseSetup.Proofs.Outcome
import Mathlib.Data.List.TakeWhile

/-! # Names and the paths made of them

A path splits at every point, so the names of two paths with a point between them are those of the
one and then those of the other. A `Segment` is a name that a path can hold as it is. -/

namespace CaseSetup

theorem Text.trimBlanks_eq_nil_iff {cs : List Char} : trimBlanks cs = [] ↔ ∀ c ∈ cs, isBlank c := by
  unfold trimBlanks
  rw [List.reverse_eq_nil_iff, List.dropWhile_eq_nil_iff]
  constructor
  · intro h
    rw [← List.dropWhile_eq_nil_iff]
    by_contra hne
    have hhead := List.head_dropWhile_not isBlank hne
    rw [h _ (List.mem_reverse.2 (List.head_mem hne))] at hhead
    cases hhead
  · exact fun h c hc => h c ((List.dropWhile_sublist _).mem (List.mem_reverse.1 hc))

namespace Path

/-- A name that stands for itself in a path. -/
structure Segment (name : String) : Prop where
  noPoint : '.' ∉ name.toList
  notEmpty : name ≠ ""
  trimmed : Text.trim name = name

instance (name : String) : Decidable (Segment name) :=
  decidable_of_iff ('.' ∉ name.toList ∧ name ≠ "" ∧ Text.trim name = name)
    ⟨fun ⟨hp, he, ht⟩ => ⟨hp, he, ht⟩, fun h => ⟨h.noPoint, h.notEmpty, h.trimmed⟩⟩

theorem split_append_point (cs ds : List Char) : split (cs ++ '.' :: ds) = split cs ++ split ds := by
  induction cs with
  | nil => simp [split]
  | cons c cs ih =>
    rw [List.cons_append, split, split, ih]
    split
    · rfl
    · obtain ⟨s, ss, hs⟩ := List.exists_cons_of_ne_nil (split_ne_nil cs)
      rw [hs]
      rfl

theorem split_of_no_point {cs : List Char} (h : '.' ∉ cs) : split cs = [cs] := by
  induction cs with
  | nil => rfl
  | cons c cs ih =>
    obtain ⟨hc, hcs⟩ := not_or.1 (mt List.mem_cons.2 h)
    rw [split, if_neg (Ne.symm hc), ih hcs]

/-- The names of a path are what stands between its points, trimmed, and none of them is blank. -/
theorem names_eq_ok {path : String} {ns : List String} : names path = .ok ns ↔
    (split path.toList).map (fun cs => String.ofList (Text.trimBlanks cs)) = ns ∧ ∀ n ∈ ns, n ≠ "" := by
  unfold names
  dsimp only
  split
  · rename_i hany
    obtain ⟨n, hn, hempty⟩ := List.any_eq_true.1 hany
    simp only [reduceCtorEq, false_iff, not_and]
    rintro rfl hall
    exact hall n hn (String.isEmpty_iff.1 hempty)
  · rename_i hany
    rw [Except.ok.injEq]
    refine ⟨?_, And.left⟩
    rintro rfl
    exact ⟨rfl, fun n hn hempty => hany (List.any_eq_true.2 ⟨n, hn, String.isEmpty_iff.2 hempty⟩)⟩

/-- A path has a last name. -/
theorem exists_concat {path : String} {ns : List String} (h : names path = .ok ns) :
    ∃ ms name, ns = ms ++ [name] := by
  have hne : ns ≠ [] := by
    obtain ⟨rfl, -⟩ := names_eq_ok.1 h
    exact mt List.map_eq_nil_iff.1 (split_ne_nil _)
  exact ⟨ns.dropLast, ns.getLast hne, (List.dropLast_concat_getLast hne).symm⟩

theorem names_eq_error {path : String} {err : Fault} (h : names path = .error err) : err = .badPath path := by
  unfold names at h
  dsimp only at h
  split at h
  · exact (Except.error.inj h).symm
  · cases h

/-- A blank path names nothing. -/
theorem names_of_isBlank {path : String} (h : isBlank path = true) : names path = .error (.badPath path) := by
  have htrim : Text.trimBlanks path.toList = [] := by
    simpa [isBlank, Text.trim] using h
  have hpoint : '.' ∉ path.toList := fun hmem => by
    cases Text.trimBlanks_eq_nil_iff.1 htrim _ hmem
  unfold names
  rw [split_of_no_point hpoint, List.map_singleton, htrim]
  rfl

/-- A path with a point after it and then another path has the names of both. -/
theorem names_append_point {p q : String} {ms ns : List String} (hp : names p = .ok ms) (hq : names q = .ok ns) :
    names (p ++ "." ++ q) = .ok (ms ++ ns) := by
  obtain ⟨hms, hms'⟩ := names_eq_ok.1 hp
  obtain ⟨hns, hns'⟩ := names_eq_ok.1 hq
  have htext : (p ++ "." ++ q).toList = p.toList ++ '.' :: q.toList := by simp
  refine names_eq_ok.2 ⟨?_, fun n hn => (List.mem_append.1 hn).elim (hms' n) (hns' n)⟩
  rw [htext, split_append_point, List.map_append, hms, hns]

theorem Segment.names {name : String} (h : Segment name) : names name = .ok [name] := by
  refine names_eq_ok.2 ⟨?_, fun n hn => List.mem_singleton.1 hn ▸ h.notEmpty⟩
  rw [split_of_no_point h.noPoint]
  exact congrArg (fun n => [n]) h.trimmed

/-- Joining names by points and splitting the path gives the names back. -/
theorem names_intercalate {ns : List String} (hne : ns ≠ []) (h : ∀ n ∈ ns, Segment n) :
    names (".".intercalate ns) = .ok ns := by
  induction ns with
  | nil => exact absurd rfl hne
  | cons n ns ih =>
    obtain ⟨hn, hns⟩ := List.forall_mem_cons.1 h
    by_cases hlast : ns = []
    · rw [hlast, String.intercalate_singleton]
      exact hn.names
    · rw [String.intercalate_cons_of_ne_nil hlast]
      exact names_append_point hn.names (ih hlast hns)

end Path

end CaseSetup
