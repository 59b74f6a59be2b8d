import CaseSetup.Proofs.Json.Reader
import CaseSetup.Proofs.Token.Literal

/-! # JSON texts that are written

The pretty text of a tree is a JSON text, and it stands for just that tree. -/

namespace CaseSetup

namespace Json

/-! ### Strings and numbers -/

theorem charText_escape (c : Char) : CharText (escape c) c := by
  have hcontrol : ∀ n < 0x20, codeUnit? '0' '0' (Nat.digitChar (n / 16)) (Nat.digitChar (n % 16)) = some n := by
    decide
  unfold escape
  iterate 7
    split
    · rename_i h
      subst h
      exact .escaped rfl
  split
  · rename_i h
    exact .unit (hcontrol c.toNat h)
  · rename_i hquote hslash _ _ _ _ _ h
    exact .plain ⟨Nat.not_lt.1 h, hquote, hslash⟩

theorem stringText_quoted (s : String) : StringText (quoted s).toList s := by
  have h : List.Forall₂ CharText (s.toList.map escape) s.toList := by
    rw [List.forall₂_map_left_iff]
    exact List.forall₂_same.2 fun c _ => charText_escape c
  have hs := StringText.quotes h
  rw [String.ofList_toList, ← List.flatMap_def] at hs
  rwa [quoted, String.toList_ofList]

theorem isNumber {n : Numeral} (h : n.Plain) (hs : n.sign ≠ some .plus) (hz : Numeral.NoLeadingZero n.whole)
    (hf : ∀ ds ∈ n.fraction, ds ≠ []) : IsNumber n :=
  ⟨hs, ⟨h.whole_ne, h.whole⟩, hz, fun ds hds => ⟨hf ds hds, h.fraction ds hds⟩,
    fun x hx => ⟨h.exponent_ne x hx, h.exponent x hx⟩⟩

theorem signOf_ne_plus (negative : Bool) : Numeral.signOf negative ≠ some .plus := by
  cases negative <;> decide

theorem exists_numberText_int (k : Int) :
    ∃ n, NumberText (toString k).toList n ∧ ofNumeral n = int k := by
  have hn : IsNumber (Numeral.integer (Numeral.signOf (k < 0)) k.natAbs) :=
    isNumber (Numeral.plain_integer ..) (signOf_ne_plus _) (Numeral.noLeadingZero_toDigits _) (by simp [Numeral.integer])
  refine ⟨Numeral.integer (Numeral.signOf (k < 0)) k.natAbs, ?_, ?_⟩
  · rw [Numeral.toList_toString]
    exact .chars hn .none
  · have hval := Numeral.signed_natAbs k
    simp only [ofNumeral, Numeral.integer, Numeral.isFloat, Nat.ofDigitChars_ten_toDigits, ← hval]
    rfl

theorem exponentText_chars (s : NumberStyle) (x : Option (Bool × List Char)) :
    ExponentText (s.exponentChars x) x := by
  cases x with
  | none => exact .none
  | some x =>
    obtain ⟨negative, ds⟩ := x
    cases negative with
    | true => exact .minus (by decide)
    | false =>
      cases hplus : s.plus with
      | true => simpa [NumberStyle.exponentChars, hplus] using ExponentText.plus (by decide)
      | false => simpa [NumberStyle.exponentChars, hplus] using ExponentText.bare (by decide)

theorem exists_numberText_float {x : Float} (h : x.isFinite) :
    ∃ n, NumberText (numberStyle.float x).toList n ∧ ofNumeral n = float x := by
  obtain ⟨d, hd, hz, htext⟩ := FloatParts.toList_float h numberStyle rfl
  obtain ⟨n, hn⟩ := Numeral.exists_spells numberStyle (by decide) (Numeral.signOf (FloatParts.isSigned x)) hz
  have hnumber : IsNumber n :=
    isNumber hn.plain (hn.sign ▸ signOf_ne_plus _) hn.noLeadingZero hn.fraction_ne
  refine ⟨n, ?_, ?_⟩
  · rw [htext, ← hn.chars]
    exact .chars hnumber (exponentText_chars numberStyle n.exponent)
  · simp only [ofNumeral, hn.isFloat, ↓reduceIte, hn.sign, hn.toFloat, hd, Numeral.signed_abs h]

/-! ### Trees -/

/-- All numbers in the tree are finite. -/
inductive Proper : Json → Prop
  | null : Proper null
  | bool (b : Bool) : Proper (bool b)
  | int (n : Int) : Proper (int n)
  | float {x : Float} : x.isFinite → Proper (float x)
  | str (s : String) : Proper (str s)
  | arr {js : List Json} : (∀ j ∈ js, Proper j) → Proper (arr js)
  | obj {ms : List (String × Json)} : (∀ m ∈ ms, Proper m.2) → Proper (obj ms)

section

variable {ls rs : List Char} {depth : Nat}

theorem spaces_indent (h : Spaces ls) (depth : Nat) : Spaces (ls ++ (indent depth).toList) := by
  intro c hc
  rw [indent, String.toList_ofList] at hc
  rcases List.mem_append.1 hc with hc | hc
  · exact h c hc
  · rw [(List.mem_replicate.1 hc).2]
    decide

theorem spaces_cons {c : Char} (hc : c ∈ spaces) (h : Spaces ls) : Spaces (c :: ls) :=
  List.forall_mem_cons.2 ⟨hc, h⟩

theorem spaces_nil : Spaces [] :=
  fun _ h => absurd h List.not_mem_nil

/-- Items are separated by the space in front of them, a line break but for the first. -/
theorem items_pretty {js : List Json} (hne : js ≠ []) (h : ∀ j ∈ js, Denotes (j.pretty depth).toList j)
    (hl : Spaces ls) (hr : Spaces rs) : Items (ls ++ ((prettyItems depth js).toList ++ rs)) js := by
  induction js generalizing ls with
  | nil => exact absurd rfl hne
  | cons j js ih =>
    obtain ⟨hj, hjs⟩ := List.forall_mem_cons.1 h
    cases js with
    | nil =>
      have hlast := Padded.mk (spaces_indent hl depth) hj hr
      simpa [prettyItems] using Items.last hlast
    | cons k js =>
      have hfirst := Padded.mk (spaces_indent hl depth) hj spaces_nil
      have hmore := ih (List.cons_ne_nil k js) hjs (spaces_cons (c := '\n') (by decide) spaces_nil)
      simpa [prettyItems] using Items.more hfirst hmore

theorem members_pretty {ms : List (String × Json)} (hne : ms ≠ [])
    (h : ∀ m ∈ ms, Denotes (m.2.pretty depth).toList m.2) (hl : Spaces ls) (hr : Spaces rs) :
    Members (ls ++ ((prettyMembers depth ms).toList ++ rs)) ms := by
  have hmember {s : String} {j : Json} {ls rs : List Char} (hl : Spaces ls)
      (hj : Denotes (j.pretty depth).toList j) (hr : Spaces rs) :=
    Member.mk (spaces_indent hl depth) (stringText_quoted s) spaces_nil
      (Padded.mk (spaces_cons (c := ' ') (by decide) spaces_nil) hj hr)
  induction ms generalizing ls with
  | nil => exact absurd rfl hne
  | cons m ms ih =>
    obtain ⟨s, j⟩ := m
    obtain ⟨hj, hms⟩ := List.forall_mem_cons.1 h
    cases ms with
    | nil => simpa [prettyMembers] using Members.last (hmember hl hj hr)
    | cons m ms =>
      have hmore := ih (List.cons_ne_nil m ms) hms (spaces_cons (c := '\n') (by decide) spaces_nil)
      simpa [prettyMembers] using Members.more (hmember hl hj spaces_nil) hmore

end

/-- The pretty text of a tree stands for it, at any depth. -/
theorem Proper.denotes_pretty {j : Json} (h : j.Proper) (depth : Nat) : Denotes (j.pretty depth).toList j := by
  have hbreak : ∀ d, Spaces ('\n' :: (indent d).toList) := fun d =>
    spaces_indent (spaces_cons (by decide) spaces_nil) d
  induction h generalizing depth with
  | null =>
    rw [pretty]
    exact .null
  | bool b =>
    rw [pretty]
    cases b
    · exact .false
    · exact .true
  | int n =>
    obtain ⟨k, hk, hn⟩ := exists_numberText_int n
    rw [pretty, ← hn]
    exact .number hk
  | float hx =>
    obtain ⟨k, hk, hn⟩ := exists_numberText_float hx
    rw [pretty, ← hn]
    exact .number hk
  | str s =>
    rw [pretty]
    exact .str (stringText_quoted s)
  | @arr js _ ih =>
    cases js with
    | nil =>
      rw [pretty]
      exact .emptyArr spaces_nil
    | cons j js =>
      have hitems := items_pretty (List.cons_ne_nil j js) (fun i hi => ih i hi (depth + 1))
        (spaces_cons (c := '\n') (by decide) spaces_nil) (hbreak depth)
      simpa [pretty] using Denotes.arr hitems
  | @obj ms _ ih =>
    cases ms with
    | nil =>
      rw [pretty]
      exact .emptyObj spaces_nil
    | cons m ms =>
      have hmembers := members_pretty (List.cons_ne_nil m ms) (fun i hi => ih i hi (depth + 1))
        (spaces_cons (c := '\n') (by decide) spaces_nil) (hbreak depth)
      simpa [pretty] using Denotes.obj hmembers

/-- The pretty text of a tree stands for that tree and for no other. -/
theorem Proper.textOf_pretty {j : Json} (h : j.Proper) (depth : Nat) {j' : Json} :
    TextOf (j.pretty depth) j' ↔ j' = j := by
  have htext : TextOf (j.pretty depth) j := by
    simpa using Padded.mk spaces_nil (h.denotes_pretty depth) spaces_nil
  exact ⟨fun h' => h'.unique htext, fun h' => h' ▸ htext⟩

end Json

end CaseSetup
