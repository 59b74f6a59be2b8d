import CaseSetup.Proofs.Json.Grammar
import CaseSetup.Proofs.Token.Numeral

/-! # Reading JSON

A reader that finds the tree of every text in the grammar. So no text stands for two trees. -/

namespace CaseSetup

namespace Json

/-! ### The reader -/

def skip (cs : List Char) : List Char := cs.dropWhile (· ∈ spaces)

/-- What follows the character `c` at the front of the text, past any space. -/
def after? (c : Char) (cs : List Char) : Option (List Char) :=
  match skip cs with
  | d :: cs => if d = c then some cs else none
  | [] => none

/-- The character with this high half, when its low half is at the front of the text. -/
def pair? (high : Nat) : List Char → Option (Char × List Char)
  | '\\' :: 'u' :: a :: b :: c :: d :: cs => do
    let low ← codeUnit? a b c d
    if IsLow low then some (Char.ofNat (pairValue high low), cs) else none
  | _ => none

def char? : List Char → Option (Char × List Char)
  | '\\' :: 'u' :: a :: b :: c :: d :: cs => do
    let n ← codeUnit? a b c d
    if IsHigh n then pair? n cs else if IsLow n then none else some (Char.ofNat n, cs)
  | '\\' :: d :: cs => do return (← escapes.lookup d, cs)
  | c :: cs => if IsPlain c then some (c, cs) else none
  | [] => none

/-- The characters up to the closing quote. -/
def string? : Nat → List Char → Option (List Char × List Char)
  | 0, _ => none
  | _ + 1, '"' :: cs => some ([], cs)
  | fuel + 1, cs => do
    let (c, cs) ← char? cs
    let (s, cs) ← string? fuel cs
    return (c :: s, cs)

def scanExponentSign : List Char → Bool × List Char
  | '-' :: cs => (true, cs)
  | '+' :: cs => (false, cs)
  | cs => (false, cs)

def scanExponent : List Char → Option (Bool × List Char) × List Char
  | 'e' :: cs | 'E' :: cs =>
    let (negative, cs) := scanExponentSign cs
    (some (negative, cs.takeWhile Char.isDigit), cs.dropWhile Char.isDigit)
  | cs => (none, cs)

def scanFraction : List Char → Option (List Char) × List Char
  | '.' :: cs => (some (cs.takeWhile Char.isDigit), cs.dropWhile Char.isDigit)
  | cs => (none, cs)

def scanNumber (cs : List Char) : Numeral × List Char :=
  let (sign, cs) := Numeral.scanSign cs
  let (fraction, rest) := scanFraction (cs.dropWhile Char.isDigit)
  let (exponent, rest) := scanExponent rest
  (⟨sign, cs.takeWhile Char.isDigit, fraction, exponent⟩, rest)

def number? (cs : List Char) : Option (Json × List Char) :=
  let (n, rest) := scanNumber cs
  if IsNumber n then some (ofNumeral n, rest) else none

mutual
/-- The value at the front of the text and what follows it. -/
def value? : Nat → List Char → Option (Json × List Char)
  | 0, _ => none
  | fuel + 1, cs =>
    match cs with
    | 'n' :: 'u' :: 'l' :: 'l' :: cs => some (null, cs)
    | 't' :: 'r' :: 'u' :: 'e' :: cs => some (bool true, cs)
    | 'f' :: 'a' :: 'l' :: 's' :: 'e' :: cs => some (bool false, cs)
    | '"' :: cs => do
      let (s, cs) ← string? fuel cs
      return (str (.ofList s), cs)
    | '[' :: cs =>
      match after? ']' cs with
      | some cs => some (arr [], cs)
      | none => do
        let (js, cs) ← items? fuel cs
        return (arr js, cs)
    | '\x7b' :: cs =>
      match after? '\x7d' cs with
      | some cs => some (obj [], cs)
      | none => do
        let (ms, cs) ← members? fuel cs
        return (obj ms, cs)
    | cs => number? cs
termination_by structural fuel => fuel

/-- Items up to the closing bracket. -/
def items? : Nat → List Char → Option (List Json × List Char)
  | 0, _ => none
  | fuel + 1, cs => do
    let (j, cs) ← value? fuel (skip cs)
    match after? ',' cs with
    | some cs => do
      let (js, cs) ← items? fuel cs
      return (j :: js, cs)
    | none => do return ([j], ← after? ']' cs)
termination_by structural fuel => fuel

/-- Members up to the closing brace. -/
def members? : Nat → List Char → Option (List (String × Json) × List Char)
  | 0, _ => none
  | fuel + 1, cs => do
    let (s, cs) ← string? fuel (← after? '"' cs)
    let (j, cs) ← value? fuel (skip (← after? ':' cs))
    match after? ',' cs with
    | some cs => do
      let (ms, cs) ← members? fuel cs
      return ((.ofList s, j) :: ms, cs)
    | none => do return ([(.ofList s, j)], ← after? '\x7d' cs)
termination_by structural fuel => fuel
end

def read? (text : String) : Option Json := do
  let (j, cs) ← value? (text.toList.length + 1) (skip text.toList)
  if skip cs = [] then some j else none

/-! ### Every text in the grammar is read -/

/-- The characters that may follow a value. -/
def ends : List Char := spaces ++ [',', ']', '\x7d']

/-- The text is over, or goes on with what may follow a value. -/
def Stops (cs : List Char) : Prop := ∀ c ∈ cs.head?, c ∈ ends

section

variable {c : Char} {cs ws rest : List Char}

theorem skip_append (hw : Spaces ws) (hc : ∀ c ∈ cs.head?, c ∉ spaces) : skip (ws ++ cs) = cs :=
  dropWhile_append_stop (fun c h => decide_eq_true (hw c h)) fun c h => decide_eq_false (hc c h)

theorem skip_spaces (hw : Spaces ws) : skip ws = [] := by
  have hskip : skip (ws ++ []) = [] := skip_append hw (by simp)
  rwa [List.append_nil] at hskip

theorem skip_cons (hw : Spaces ws) (hc : c ∉ spaces) : skip (ws ++ c :: cs) = c :: cs :=
  skip_append hw (by simpa using hc)

theorem after?_append (hw : Spaces ws) (hc : c ∉ spaces) (cs : List Char) : after? c (ws ++ c :: cs) = some cs := by
  simp [after?, skip_cons hw hc]

theorem after?_eq_none {d : Char} (hw : Spaces ws) (hd : d ∉ spaces) (hne : d ≠ c) :
    after? c (ws ++ d :: cs) = none := by
  simp [after?, skip_cons hw hd, hne]

/-- A character is no half of another. -/
theorem not_half (c : Char) : ¬ IsHigh c.toNat ∧ ¬ IsLow c.toNat := by
  have hv : c.toNat < 0xD800 ∨ 0xDFFF < c.toNat ∧ c.toNat < 0x110000 := c.valid
  unfold IsHigh IsLow
  omega

theorem CharText.read (h : CharText cs c) (rest : List Char) : char? (cs ++ rest) = some (c, rest) := by
  cases h with
  | plain h =>
    rw [List.singleton_append, char?]
    · exact if_pos h
    · intro _ _ _ _ _ hc
      exact absurd hc h.2.2
    · intro _ _ hc
      exact absurd hc h.2.2
  | @escaped d _ h =>
    rw [List.cons_append, List.singleton_append, char?]
    · simp [h]
    · rintro _ _ _ _ _ rfl
      cases h
  | unit h => simp [char?, h, not_half, Char.ofNat_toNat]
  | pair hu hl hhigh hlow hx => simp [char?, hu, hhigh, pair?, hl, hlow, ← hx, Char.ofNat_toNat]

/-- No text of a character starts with a quote. -/
theorem CharText.head (h : CharText cs c) : ∃ d ds, cs = d :: ds ∧ d ≠ '"' := by
  cases h with
  | plain h => exact ⟨_, _, rfl, h.2.1⟩
  | escaped | unit | pair => exact ⟨_, _, rfl, by decide⟩

theorem string?_flatten {css : List (List Char)} {fuel : Nat} (h : List.Forall₂ CharText css cs)
    (hf : css.flatten.length < fuel) : string? fuel (css.flatten ++ '"' :: rest) = some (cs, rest) := by
  induction h generalizing fuel with
  | nil =>
    obtain ⟨fuel, rfl⟩ := Nat.exists_eq_succ_of_ne_zero (Nat.ne_zero_of_lt hf)
    rfl
  | @cons ds c css cs hd _ ih =>
    obtain ⟨fuel, rfl⟩ := Nat.exists_eq_succ_of_ne_zero (Nat.ne_zero_of_lt hf)
    obtain ⟨d, ds, rfl, hquote⟩ := hd.head
    simp only [List.flatten_cons, List.length_append, List.length_cons] at hf
    have hread := hd.read (css.flatten ++ '"' :: rest)
    have hmore := ih (show css.flatten.length < fuel by omega)
    simp only [List.flatten_cons, List.append_assoc, List.cons_append] at hread ⊢
    rw [string?]
    · simp [hread, hmore]
    · intro _ heq
      exact hquote (List.cons.inj heq).1

theorem StringText.read {s : String} (h : StringText cs s) :
    ∃ ds, cs = '"' :: ds ∧ ∀ fuel rest, ds.length ≤ fuel → string? fuel (ds ++ rest) = some (s.toList, rest) := by
  obtain ⟨h⟩ := h
  refine ⟨_, rfl, fun fuel rest hf => ?_⟩
  rw [List.append_assoc, String.toList_ofList]
  rw [List.length_append, List.length_singleton] at hf
  exact string?_flatten h hf

end

section

variable {x : Option (Bool × List Char)} {f : Option (List Char)} {cs ds rest : List Char}

theorem not_isDigit_ends {c : Char} (h : c ∈ ends) : c.isDigit = false ∧ c ∉ ['.', 'e', 'E'] := by
  have hall : ∀ c ∈ ends, c.isDigit = false ∧ c ∉ ['.', 'e', 'E'] := List.all_iff_forall_prop.1 (by decide)
  exact hall c h

theorem scanExponentSign_digits (h : Digits ds) (rest : List Char) :
    scanExponentSign (ds ++ rest) = (false, ds ++ rest) := by
  obtain ⟨hne, hd⟩ := h
  cases ds with
  | nil => exact absurd rfl hne
  | cons d ds =>
    have hminus : d ≠ '-' := Numeral.ne_of_isDigit (hd d List.mem_cons_self) (by decide)
    have hplus : d ≠ '+' := Numeral.ne_of_isDigit (hd d List.mem_cons_self) (by decide)
    simp [scanExponentSign, hminus, hplus]

theorem takeWhile_digits (h : Digits ds) (hr : ∀ c ∈ rest.head?, c.isDigit = false) :
    (ds ++ rest).takeWhile Char.isDigit = ds ∧ (ds ++ rest).dropWhile Char.isDigit = rest :=
  ⟨takeWhile_append_stop h.2 hr, dropWhile_append_stop h.2 hr⟩

theorem ExponentText.read (h : ExponentText cs x) (hx : ∀ y ∈ x, Digits y.2) (hr : Stops rest) :
    scanExponent (cs ++ rest) = (x, rest) := by
  have hends : ∀ c ∈ rest.head?, c.isDigit = false := fun c hc => (not_isDigit_ends (hr c hc)).1
  cases h with
  | none =>
    show scanExponent rest = _
    unfold scanExponent
    split
    · exact absurd (hr 'e' rfl) (by decide)
    · exact absurd (hr 'E' rfl) (by decide)
    · rfl
  | bare he =>
    obtain ⟨ht, hd⟩ := takeWhile_digits (hx _ rfl) hends
    have hs := scanExponentSign_digits (hx _ rfl) rest
    rcases List.mem_pair.1 he with rfl | rfl <;> simp [scanExponent, hs, ht, hd]
  | plus he | minus he =>
    obtain ⟨ht, hd⟩ := takeWhile_digits (hx _ rfl) hends
    rcases List.mem_pair.1 he with rfl | rfl <;> simp [scanExponent, scanExponentSign, ht, hd]

theorem ExponentText.head (h : ExponentText cs x) (hr : Stops rest) :
    ∀ c ∈ (cs ++ rest).head?, c.isDigit = false ∧ c ≠ '.' := by
  have hall : ∀ e ∈ ['e', 'E'], e.isDigit = false ∧ e ≠ '.' := List.all_iff_forall_prop.1 (by decide)
  cases h with
  | none =>
    intro c hc
    obtain ⟨hd, hne⟩ := not_isDigit_ends (hr c hc)
    exact ⟨hd, fun h => hne (by simp [h])⟩
  | bare he | plus he | minus he =>
    rintro c ⟨rfl⟩
    exact hall _ he

theorem scanFraction_chars (hf : ∀ ds ∈ f, Digits ds) (hr : ∀ c ∈ rest.head?, c.isDigit = false ∧ c ≠ '.') :
    scanFraction (Numeral.fractionChars f ++ rest) = (f, rest) := by
  cases f with
  | none =>
    show scanFraction rest = _
    unfold scanFraction
    split
    · exact absurd rfl (hr '.' rfl).2
    · rfl
  | some ds =>
    obtain ⟨ht, hd⟩ := takeWhile_digits (hf _ rfl) fun c hc => (hr c hc).1
    simp [scanFraction, Numeral.fractionChars, ht, hd]

theorem NumberText.read {n : Numeral} (h : NumberText cs n) (hr : Stops rest) :
    number? (cs ++ rest) = some (ofNumeral n, rest) := by
  obtain @⟨n, cs, hn, hx⟩ := h
  obtain ⟨g, ws, f, x⟩ := n
  obtain ⟨-, hw, -, hf, hxd⟩ := id hn
  have hexponent := hx.read hxd hr
  have hfraction := scanFraction_chars hf (hx.head hr)
  have hstop : ∀ c ∈ (Numeral.fractionChars f ++ (cs ++ rest)).head?, c.isDigit = false := by
    cases f with
    | none => exact fun c hc => (hx.head hr c hc).1
    | some ds =>
      rintro c ⟨rfl⟩
      rfl
  obtain ⟨ht, hd⟩ := takeWhile_digits hw hstop
  have hsign : Numeral.scanSign (Numeral.signChars g ++ (ws ++ (Numeral.fractionChars f ++ (cs ++ rest)))) = (g, _) :=
    Numeral.scanSign_plain hw.1 hw.2
  simp only [List.append_assoc]
  simp [number?, scanNumber, hsign, ht, hd, hfraction, hexponent, hn]

theorem NumberText.head {n : Numeral} (h : NumberText cs n) : ∃ c ds, cs = c :: ds ∧ (c = '-' ∨ c.isDigit) := by
  obtain @⟨n, cs, hn, -⟩ := h
  obtain ⟨g, ws, f, x⟩ := n
  obtain ⟨hg, ⟨hne, hw⟩, -⟩ := hn
  cases g with
  | some g =>
    cases g with
    | plus => exact absurd rfl hg
    | minus => exact ⟨_, _, rfl, .inl rfl⟩
  | none =>
    cases ws with
    | nil => exact absurd rfl hne
    | cons w ws => exact ⟨_, _, rfl, .inr (hw w List.mem_cons_self)⟩

end

section

variable {cs rest : List Char} {j : Json} {js : List Json} {m : String × Json} {ms : List (String × Json)} {fuel : Nat}

theorem stops_cons {c : Char} (hc : c ∈ ends) (cs : List Char) : Stops (c :: cs) := by
  simpa [Stops] using hc

theorem stops_append {ws : List Char} (hw : Spaces ws) (hr : Stops rest) : Stops (ws ++ rest) := by
  cases ws with
  | nil => exact hr
  | cons w ws =>
    rintro c ⟨rfl⟩
    exact List.mem_append_left _ (hw w List.mem_cons_self)

/-- A value starts with a character that ends none. -/
theorem Denotes.head (h : Denotes cs j) : ∃ c ds, cs = c :: ds ∧ c ∉ ends := by
  cases h with
  | null | true | false | emptyArr | arr | emptyObj | obj => exact ⟨_, _, rfl, by decide⟩
  | number h =>
    obtain ⟨c, ds, rfl, rfl | hd⟩ := h.head
    · exact ⟨_, _, rfl, by decide⟩
    · refine ⟨_, _, rfl, fun hc => ?_⟩
      simp [(not_isDigit_ends hc).1] at hd
  | str h =>
    obtain ⟨ds, rfl, -⟩ := h.read
    exact ⟨_, _, rfl, by decide⟩

theorem Padded.head (h : Padded cs j) : ∃ ws c ds, cs = ws ++ c :: ds ∧ Spaces ws ∧ c ∉ ends := by
  obtain ⟨hl, h, -⟩ := h
  obtain ⟨c, ds, rfl, hc⟩ := h.head
  exact ⟨_, c, _, rfl, hl, hc⟩

theorem Items.head (h : Items cs js) : ∃ ws c ds, cs = ws ++ c :: ds ∧ Spaces ws ∧ c ∉ ends := by
  cases h with
  | last h => exact h.head
  | more h =>
    obtain ⟨ws, c, ds, rfl, hw, hc⟩ := h.head
    exact ⟨ws, c, _, by simp; rfl, hw, hc⟩

theorem Members.head (h : Members cs ms) : ∃ ws ds, cs = ws ++ '"' :: ds ∧ Spaces ws := by
  have hmember {cs : List Char} {m : String × Json} (h : Member cs m) : ∃ ws ds, cs = ws ++ '"' :: ds ∧ Spaces ws := by
    obtain ⟨hl, h, -⟩ := h
    obtain ⟨ds, rfl, -⟩ := h.read
    exact ⟨_, _, rfl, hl⟩
  cases h with
  | last h => exact hmember h
  | more h =>
    obtain ⟨ws, ds, rfl, hw⟩ := hmember h
    exact ⟨ws, _, by simp; rfl, hw⟩

theorem not_mem_spaces_of_ends {c : Char} (h : c ∉ ends) : c ∉ spaces :=
  fun hc => h (List.mem_append_left _ hc)

theorem value?_number {c : Char} (h : c = '-' ∨ c.isDigit) :
    value? (fuel + 1) (c :: cs) = number? (c :: cs) := by
  have hne {d : Char} {ds : List Char} (hd : ¬ (d = '-' ∨ d.isDigit)) : c :: cs ≠ d :: ds := by
    rintro heq
    exact hd ((List.cons.inj heq).1 ▸ h)
  rw [value?]
  all_goals exact fun _ heq => hne (by decide) heq

end

/-- The readers find what stands in a text that is no longer than the fuel. -/
structure Complete (fuel : Nat) : Prop where
  value : ∀ {cs j rest}, Denotes cs j → cs.length ≤ fuel → Stops rest → value? fuel (cs ++ rest) = some (j, rest)
  items : ∀ {cs js}, Items cs js → cs.length < fuel → ∀ rest, items? fuel (cs ++ ']' :: rest) = some (js, rest)
  members : ∀ {cs ms}, Members cs ms → cs.length < fuel →
    ∀ rest, members? fuel (cs ++ '\x7d' :: rest) = some (ms, rest)

namespace Complete

variable {fuel : Nat} {cs rest : List Char} {j : Json}

theorem value_succ (ih : Complete fuel) (h : Denotes cs j) (hf : cs.length ≤ fuel + 1) (hr : Stops rest) :
    value? (fuel + 1) (cs ++ rest) = some (j, rest) := by
  cases h with
  | null | true | false => rfl
  | number h =>
    have hread := h.read hr
    obtain ⟨c, ds, rfl, hc⟩ := h.head
    rw [List.cons_append, value?_number hc]
    exact hread
  | str h =>
    obtain ⟨ds, rfl, hread⟩ := h.read
    have hs := hread fuel rest (by simpa using hf)
    simp [value?, hs]
  | emptyArr hw =>
    have hclose := after?_append hw (show ']' ∉ spaces by decide) rest
    simp [value?, hclose]
  | arr h =>
    have hread := ih.items h (by simp at hf; omega) rest
    -- the first item is no closing bracket, so the array is not taken to be empty
    obtain ⟨ws, c, ds, rfl, hw, hc⟩ := h.head
    have hne : c ≠ ']' := by
      rintro rfl
      exact hc (by decide)
    have hclose : after? ']' (ws ++ c :: (ds ++ ']' :: rest)) = none :=
      after?_eq_none hw (not_mem_spaces_of_ends hc) hne
    simp only [List.append_assoc, List.cons_append] at hread
    simp [value?, hclose, hread]
  | emptyObj hw =>
    have hclose := after?_append hw (show '\x7d' ∉ spaces by decide) rest
    simp [value?, hclose]
  | obj h =>
    have hread := ih.members h (by simp at hf; omega) rest
    obtain ⟨ws, ds, rfl, hw⟩ := h.head
    have hclose : after? '\x7d' (ws ++ '"' :: (ds ++ '\x7d' :: rest)) = none :=
      after?_eq_none hw (by decide) (by decide)
    simp only [List.append_assoc, List.cons_append] at hread
    simp [value?, hclose, hread]

theorem padded (ih : Complete fuel) (h : Padded cs j) (hf : cs.length ≤ fuel) (hrest : Stops rest) :
    ∃ ws, Spaces ws ∧ value? fuel (skip (cs ++ rest)) = some (j, ws ++ rest) := by
  obtain @⟨ls, cs, rs, _, hl, h, hr⟩ := h
  have hread := ih.value h (by simp at hf; omega) (stops_append hr hrest)
  obtain ⟨c, ds, rfl, hc⟩ := h.head
  refine ⟨rs, hr, ?_⟩
  rw [List.append_assoc, List.append_assoc, List.cons_append, skip_cons hl (not_mem_spaces_of_ends hc)]
  exact hread

theorem items_succ (ih : Complete fuel) {js : List Json} (h : Items cs js) (hf : cs.length < fuel + 1)
    (rest : List Char) : items? (fuel + 1) (cs ++ ']' :: rest) = some (js, rest) := by
  cases h with
  | last h =>
    obtain ⟨ws, hw, hread⟩ := ih.padded h (by omega) (stops_cons (show ']' ∈ ends by decide) rest)
    have hnone : after? ',' (ws ++ ']' :: rest) = none := after?_eq_none hw (by decide) (by decide)
    have hclose := after?_append hw (show ']' ∉ spaces by decide) rest
    simp [items?, hread, hnone, hclose]
  | @more cs ds _ _ h hs =>
    rw [List.length_append, List.length_cons] at hf
    obtain ⟨ws, hw, hread⟩ := ih.padded h (by omega) (stops_cons (show ',' ∈ ends by decide) (ds ++ ']' :: rest))
    have hcomma := after?_append hw (show ',' ∉ spaces by decide) (ds ++ ']' :: rest)
    have hmore := ih.items hs (by omega) rest
    simp [items?, hread, hcomma, hmore]

theorem member (ih : Complete fuel) {m : String × Json} (h : Member cs m) (hf : cs.length ≤ fuel)
    (hrest : Stops rest) :
    ∃ ds es fs ws, after? '"' (cs ++ rest) = some ds ∧ string? fuel ds = some (m.1.toList, es) ∧
      after? ':' es = some fs ∧ value? fuel (skip fs) = some (m.2, ws ++ rest) ∧ Spaces ws := by
  obtain @⟨ls, cs, rs, ds, s, j, hl, hs, hr, h⟩ := h
  simp only [List.length_append, List.length_cons] at hf
  obtain ⟨ws, hw, hread⟩ := ih.padded h (by omega) hrest
  obtain ⟨es, rfl, hstring⟩ := hs.read
  rw [List.length_cons] at hf
  have hopen := after?_append hl (show '"' ∉ spaces by decide) (es ++ (rs ++ ':' :: (ds ++ rest)))
  have hcolon := after?_append hr (show ':' ∉ spaces by decide) (ds ++ rest)
  exact ⟨_, _, _, ws, by simpa using hopen, hstring fuel _ (by omega), hcolon, hread, hw⟩

theorem members_succ (ih : Complete fuel) {ms : List (String × Json)} (h : Members cs ms)
    (hf : cs.length < fuel + 1) (rest : List Char) : members? (fuel + 1) (cs ++ '\x7d' :: rest) = some (ms, rest) := by
  cases h with
  | last h =>
    obtain ⟨ds, es, fs, ws, hopen, hstring, hcolon, hread, hw⟩ :=
      ih.member h (by omega) (stops_cons (show '\x7d' ∈ ends by decide) rest)
    have hnone : after? ',' (ws ++ '\x7d' :: rest) = none := after?_eq_none hw (by decide) (by decide)
    have hclose := after?_append hw (show '\x7d' ∉ spaces by decide) rest
    simp [members?, hopen, hstring, hcolon, hread, hnone, hclose]
  | @more cs es' _ _ h hs =>
    rw [List.length_append, List.length_cons] at hf
    obtain ⟨ds, es, fs, ws, hopen, hstring, hcolon, hread, hw⟩ :=
      ih.member h (by omega) (stops_cons (show ',' ∈ ends by decide) (es' ++ '\x7d' :: rest))
    have hcomma := after?_append hw (show ',' ∉ spaces by decide) (es' ++ '\x7d' :: rest)
    have hmore := ih.members hs (by omega) rest
    simp [members?, hopen, hstring, hcolon, hread, hcomma, hmore]

end Complete

/-- Every part of a text is shorter than the text, so the fuel lasts. -/
theorem complete (fuel : Nat) : Complete fuel := by
  induction fuel with
  | zero =>
    refine ⟨fun h hf _ => ?_, fun _ hf => ?_, fun _ hf => ?_⟩
    · obtain ⟨c, ds, rfl, -⟩ := h.head
      simp at hf
    · simp at hf
    · simp at hf
  | succ fuel ih => exact ⟨ih.value_succ, ih.items_succ, ih.members_succ⟩

/-- Reading a text finds the tree that it stands for. -/
theorem read?_of_textOf {text : String} {j : Json} (h : TextOf text j) : read? text = some j := by
  have hstops : Stops [] := by simp [Stops]
  obtain ⟨ws, hw, hread⟩ := (complete (text.toList.length + 1)).padded h (by omega) hstops
  simp only [List.append_nil] at hread
  simp [read?, hread, skip_spaces hw]

/-- No text stands for two trees. -/
theorem TextOf.unique {text : String} {j j' : Json} (h : TextOf text j) (h' : TextOf text j') : j = j' :=
  Option.some.inj ((read?_of_textOf h).symm.trans (read?_of_textOf h'))

end Json

end CaseSetup
