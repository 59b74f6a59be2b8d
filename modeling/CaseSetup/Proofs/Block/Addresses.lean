import CaseSetup.Proofs.Block.History
import CaseSetup.Proofs.Block.Paths
import CaseSetup.Proofs.Grammar.Completeness

/-! # Addresses of bindings

A name of a document is a word, and a word holds neither a point nor a blank. So the names that lead to
a binding can be joined by points to a path, with blanks around them or without, and the path leads to
that binding and to no other. -/

namespace CaseSetup

namespace Text

variable {c : Char}

theorem within_disjoint {rs qs : List (Nat × Nat)} (hd : ∀ r ∈ rs, ∀ q ∈ qs, r.2 < q.1 ∨ q.2 < r.1)
    (h : within rs c) : within qs c = false := by
  obtain ⟨r, hr, hcr⟩ := List.any_eq_true.1 h
  refine List.any_eq_false.2 fun q hq hcq => ?_
  simp only [Bool.and_eq_true, decide_eq_true_eq] at hcr hcq
  have := hd r hr q hq
  omega

theorem isBlank_eq_false_of_isAlphanumeric (h : isAlphanumeric c) : isBlank c = false := by
  -- the table of letters and digits and that of blanks have no range in common
  have hascii : ∀ n < 0x80, (Char.ofNat n).isAlphanum → isBlank (Char.ofNat n) = false := by decide +kernel
  have hranges : ∀ r ∈ alphanumericRanges, ∀ q ∈ blankRanges, r.2 < q.1 ∨ q.2 < r.1 := by decide +kernel
  unfold isAlphanumeric at h
  split at h
  · rename_i hc
    rw [← Char.ofNat_toNat c] at h ⊢
    exact hascii _ hc h
  · exact within_disjoint hranges h

theorem trimBlanks_of_forall {cs : List Char} (h : ∀ c ∈ cs, isBlank c = false) : trimBlanks cs = cs := by
  have hdrop {ds : List Char} (h : ∀ c ∈ ds, isBlank c = false) : ds.dropWhile isBlank = ds :=
    List.dropWhile_eq_self_iff.2 fun hl => by simp [h _ (List.getElem_mem hl)]
  unfold trimBlanks
  rw [hdrop h, hdrop fun c hc => h c (List.mem_reverse.1 hc), List.reverse_reverse]

/-- Blanks on either side do not count. -/
theorem trimBlanks_append {ls cs rs : List Char} (hl : ∀ c ∈ ls, isBlank c) (hr : ∀ c ∈ rs, isBlank c) :
    trimBlanks (ls ++ cs ++ rs) = trimBlanks cs := by
  by_cases hcs : ∀ c ∈ cs, isBlank c
  · rw [trimBlanks_eq_nil_iff.2 hcs, trimBlanks_eq_nil_iff]
    simp only [List.mem_append]
    rintro c ((hc | hc) | hc)
    · exact hl c hc
    · exact hcs c hc
    · exact hr c hc
  · have hne : (cs.dropWhile isBlank).isEmpty = false := by
      rwa [← Bool.not_eq_true, List.isEmpty_iff, List.dropWhile_eq_nil_iff]
    unfold trimBlanks
    rw [List.append_assoc, List.dropWhile_append_of_pos hl, List.dropWhile_append, hne, if_neg Bool.false_ne_true,
      List.reverse_append, List.dropWhile_append_of_pos fun c hc => hr c (List.mem_reverse.1 hc)]

end Text

namespace Path

/-- The name with blanks around it, or as it is. -/
def Padded (name p : String) : Prop :=
  ∃ ls rs, (∀ c ∈ ls ++ rs, Text.isBlank c) ∧ p.toList = ls ++ name.toList ++ rs

theorem Padded.refl (name : String) : Padded name name := ⟨[], [], List.forall_mem_nil _, by simp⟩

variable {name p : String} {ns ps : List String}

theorem Padded.names (h : Padded name p) (hname : Segment name) : names p = .ok [name] := by
  obtain ⟨ls, rs, hblank, hp⟩ := h
  obtain ⟨hl, hr⟩ := List.forall_mem_append.1 hblank
  have hpoint {cs : List Char} (h : ∀ c ∈ cs, Text.isBlank c) : '.' ∉ cs := fun hmem => by cases h _ hmem
  have hnone : '.' ∉ p.toList := by
    simp [hp, hpoint hl, hpoint hr, hname.noPoint]
  refine names_eq_ok.2 ⟨?_, fun n hn => List.mem_singleton.1 hn ▸ hname.notEmpty⟩
  rw [split_of_no_point hnone, List.map_singleton, hp, Text.trimBlanks_append hl hr]
  exact congrArg (fun n => [n]) hname.trimmed

/-- Blanks around the names of a path do not count. -/
theorem names_intercalate_padded (hne : ns ≠ []) (h : ∀ n ∈ ns, Segment n) (hps : List.Forall₂ Padded ns ps) :
    names (".".intercalate ps) = .ok ns := by
  induction hps with
  | nil => exact absurd rfl hne
  | @cons n p ns ps hp hps ih =>
    obtain ⟨hn, hns⟩ := List.forall_mem_cons.1 h
    cases hps with
    | nil =>
      rw [String.intercalate_singleton]
      exact hp.names hn
    | cons hq hps =>
      rw [String.intercalate_cons_of_ne_nil (List.cons_ne_nil _ _)]
      exact names_append_point (hp.names hn) (ih (List.cons_ne_nil _ _) hns)

end Path

/-! ## The names of a document -/

theorem Lexeme.isWordChar_properties {c : Char} (h : isWordChar c) : c ≠ '.' ∧ Text.isBlank c = false := by
  constructor
  · rintro rfl
    cases h
  · simp only [isWordChar, Bool.or_eq_true, decide_eq_true_eq] at h
    rcases h with h | rfl
    · exact Text.isBlank_eq_false_of_isAlphanumeric h
    · rfl

theorem IsName.segment {s : String} (h : IsName s) : Path.Segment s := by
  obtain ⟨c, cs, hs, hc, hcs, -⟩ := h
  have hchars : ∀ d ∈ s.toList, Lexeme.isWordChar d := by
    rw [hs]
    exact List.forall_mem_cons.2 ⟨Lexeme.isWordChar_of_isWordStart hc, hcs⟩
  have hword (d : Char) (hd : d ∈ s.toList) : d ≠ '.' ∧ Text.isBlank d = false :=
    Lexeme.isWordChar_properties (hchars d hd)
  refine ⟨fun hmem => (hword _ hmem).1 rfl, ?_, ?_⟩
  · rintro rfl
    cases hs
  · rw [Text.trim, Text.trimBlanks_of_forall fun d hd => (hword d hd).2, String.ofList_toList]

namespace Block

variable {b c : Block} {name : String} {names : List String}

theorem Regular.binds (h : b.Regular) (hb : b.binds name = true) : IsName name := by
  obtain ⟨v, hv⟩ := binds_eq_true_iff.1 hb
  exact (blockRegular_iff.1 h.2 _ (Entries.mem_of_lookup hv)).1

/-- The names that lead to a binding of a regular block are words. -/
theorem Regular.isName (h : b.Regular) (hc : b.nested? names = some c) (hn : c.binds name = true) :
    ∀ n ∈ names ++ [name], IsName n := by
  induction names generalizing b with
  | nil =>
    obtain rfl : b = c := Option.some.inj hc
    exact List.forall_mem_singleton.2 (h.binds hn)
  | cons n names ih =>
    obtain ⟨d, hd, hc⟩ := nested?_cons_eq_some.1 hc
    have hbinds : b.binds n = true := binds_eq_true_iff.2 ⟨_, hd⟩
    exact List.forall_mem_cons.2 ⟨h.binds hbinds, ih (h.lookup hd) hc⟩

/-- Every binding of a parsed document has one path, with blanks around the names or without: it splits into
the names again, is bound, and can be set, which changes this binding and nothing else. -/
theorem addressable {text : String} (h : Block.parse text = .ok b) (hc : b.nested? names = some c)
    (hn : c.binds name = true) :
    let path := ".".intercalate (names ++ [name])
    Path.names path = .ok (names ++ [name]) ∧
      (b.has path = true ∧ ∀ ps, List.Forall₂ Path.Padded (names ++ [name]) ps → b.has (".".intercalate ps) = true) ∧
      (∀ v, ∃ as u bs b', c = as ++ (name, u) :: bs ∧ b.setPath path v = .ok b' ∧
        Exchanged c (as ++ (name, v) :: bs) names b b') ∧
      ∀ names' name' c', b.nested? names' = some c' → c'.binds name' = true →
        ".".intercalate (names' ++ [name']) = path → names' = names ∧ name' = name := by
  intro path
  have hb : b.Regular := regular_of_parse h
  have hsplit {ms : List String} {m : String} {d : Block} (hd : b.nested? ms = some d) (hm : d.binds m = true)
      {ps : List String} (hps : List.Forall₂ Path.Padded (ms ++ [m]) ps) :
      Path.names (".".intercalate ps) = .ok (ms ++ [m]) :=
    Path.names_intercalate_padded (by simp) (fun n hn => (hb.isName hd hm n hn).segment) hps
  have hrefl (ms : List String) : List.Forall₂ Path.Padded ms ms := List.forall₂_same.2 fun m _ => .refl m
  have hpath : Path.names path = .ok (names ++ [name]) := hsplit hc hn (hrefl _)
  have hhas {ps : List String} (hps : List.Forall₂ Path.Padded (names ++ [name]) ps) :
      b.has (".".intercalate ps) = true := has_eq_true_iff.2 ⟨names, name, c, hsplit hc hn hps, hc, hn⟩
  refine ⟨hpath, ⟨hhas (hrefl _), fun ps => hhas⟩, fun v => ?_, fun names' name' c' hc' hn' heq => ?_⟩
  · obtain ⟨b', hb'⟩ := exists_setPath_iff.2 (hhas (hrefl (names ++ [name])))
    have hmakes := (Change.apply_eq_ok hb.isKeyed (c := .setPath path v)).1 (Outcome.map_eq_ok.2 ⟨b', hb', rfl⟩)
    cases hmakes with
    | @setPath _ m ms u _ as bs _ _ hms hx =>
      obtain ⟨rfl, hm⟩ := List.append_inj' (Except.ok.inj (hpath.symm.trans hms)) rfl
      obtain rfl := List.singleton_inj.1 hm
      obtain rfl : c = as ++ (name, u) :: bs := Option.some.inj (hc.symm.trans (hx.nested hb.isKeyed))
      exact ⟨as, u, bs, b', rfl, hb', hx⟩
  · have hnames := hsplit hc' hn' (hrefl _)
    rw [heq, hpath] at hnames
    exact (List.append_inj' (Except.ok.inj hnames.symm) rfl).imp_right List.singleton_inj.1

/-- A name with letters beyond ASCII, and its path with a tab and spaces around the point. -/
theorem addressable_padded :
    let b : Block := [("m", .block [("größe_2", .int 1)])]
    Block.parse "m \x7b größe_2 = 1 \x7d" = .ok b ∧ Path.names "m.größe_2" = .ok ["m", "größe_2"] ∧
      b.has "m\t .  größe_2" = true ∧ ∃ b', b.setPath "m.größe_2" (.int 2) = .ok b' := by
  intro b
  have hwords : (Scan.ofText "m \x7b größe_2 = 1 \x7d").words = [⟨.name "m", none⟩, ⟨.openBrace, none⟩,
      ⟨.name "größe_2", none⟩, ⟨.equals, none⟩, ⟨.int 1, none⟩, ⟨.closeBrace, none⟩] := by decide +kernel
  have hend : (Scan.ofText "m \x7b größe_2 = 1 \x7d").ending = .clean ⟨1, 17⟩ := by decide +kernel
  have hinner : Grammar.Statements [⟨.name "größe_2", none⟩, ⟨.equals, none⟩, ⟨.int 1, none⟩] [("größe_2", .int 1)] :=
    .assign List.not_mem_nil (.item (.expression (.operand (.int 1 none)))) .nil
  have hparse : Block.parse "m \x7b größe_2 = 1 \x7d" = .ok b := by
    refine parse_of_document hend ?_
    rw [hwords]
    exact Grammar.Statements.nested List.not_mem_nil hinner .nil
  have hnested : b.nested? ["m"] = some [("größe_2", .int 1)] := rfl
  have hbinds : Block.binds [("größe_2", .int 1)] "größe_2" = true := rfl
  obtain ⟨hnames, ⟨-, hhas⟩, hset, -⟩ := addressable hparse hnested hbinds
  obtain ⟨as, u, bs, b', -, hb', -⟩ := hset (.int 2)
  have hm : Path.Padded "m" "m\t " :=
    ⟨[], ['\t', ' '], List.forall_mem_cons.2 ⟨rfl, List.forall_mem_singleton.2 rfl⟩, rfl⟩
  have hk : Path.Padded "größe_2" "  größe_2" :=
    ⟨[' ', ' '], [], List.forall_mem_cons.2 ⟨rfl, List.forall_mem_singleton.2 rfl⟩, rfl⟩
  exact ⟨hparse, hnames, hhas _ (.cons hm (.cons hk .nil)), b', hb'⟩

end Block

end CaseSetup
