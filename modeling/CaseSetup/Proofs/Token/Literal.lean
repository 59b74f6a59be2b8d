import CaseSetup.Proofs.Decimal.ReadBack
import CaseSetup.Proofs.Token.Numeral

/-! # Numbers read back

Integers and finite floats are written as numerals that have their value. A minus sign glued to
such a text changes the sign of the value. -/

namespace CaseSetup

namespace Numeral

/-- The digits of a natural number, with a sign. -/
def integer (g : Option Sign) (k : Nat) : Numeral := ⟨g, Nat.toDigits 10 k, none, none⟩

theorem plain_integer (g : Option Sign) (k : Nat) : (integer g k).Plain where
  whole_ne := Nat.toDigits_ne_nil
  whole := fun _ hc => Nat.isDigit_of_mem_toDigits (by decide) (by decide) hc
  fraction := by simp [integer]
  exponent_ne := by simp [integer]
  exponent := by simp [integer]

theorem chars_integer (g : Option Sign) (k : Nat) : (integer g k).chars = signChars g ++ Nat.toDigits 10 k := by
  simp [integer, chars, fractionChars, exponentChars]

theorem toInt?_integer {g : Option Sign} {k : Nat} {n : Int64}
    (h : n.toInt = if g = some .minus then -(k : Int) else k) : (integer g k).toInt? = some n := by
  have hall : (integer g k).whole.all Char.isDigit := List.all_eq_true.2 (plain_integer g k).whole
  have hval : Nat.ofDigitChars 10 (integer g k).whole 0 = k := Nat.ofDigitChars_ten_toDigits
  have hsign : (integer g k).sign = g := rfl
  simp only [toInt?, hall, ↓reduceIte, hval, hsign, ← h, n.minValue_le_toInt, n.toInt_le, and_self,
    Int64.ofInt_toInt]

/-- The sign that a number below zero is written with. -/
def signOf (negative : Bool) : Option Sign := if negative then some .minus else none

theorem toList_toString (k : Int) : (toString k).toList = (integer (signOf (k < 0)) k.natAbs).chars := by
  rw [chars_integer, Int.toString_eq_repr, Int.repr_eq_if]
  by_cases h : k < 0
  · have hneg : ¬ 0 ≤ k := by omega
    have habs : k.natAbs = (-k).toNat := by omega
    simp [signOf, signChars, h, hneg, habs, Sign.char]
  · have hpos : 0 ≤ k := by omega
    have habs : k.natAbs = k.toNat := by omega
    simp [signOf, signChars, h, hpos, habs]

theorem toList_int (n : Int64) :
    (Literal.int n).toList = (integer (signOf (n.toInt < 0)) n.toInt.natAbs).chars :=
  toList_toString n.toInt

/-- An integer is its magnitude with the sign that it is written with. -/
theorem signed_natAbs (k : Int) : k = if signOf (k < 0) = some .minus then -(k.natAbs : Int) else k.natAbs := by
  by_cases h : k < 0
  · simp only [signOf, h, decide_true, ↓reduceIte]
    omega
  · simp only [signOf, h, decide_false, Bool.false_eq_true, ↓reduceIte, reduceCtorEq]
    omega

theorem toInt?_int (n : Int64) : (integer (signOf (n.toInt < 0)) n.toInt.natAbs).toInt? = some n :=
  toInt?_integer (signed_natAbs n.toInt)

end Numeral

namespace NumberStyle

open Numeral (signChars fractionChars)

def exponentChars (s : NumberStyle) : Option (Bool × List Char) → List Char
  | none => []
  | some (negative, ds) => 'e' :: (if negative then '-' :: ds else if s.plus then '+' :: ds else ds)

/-- A numeral as the style writes it. -/
def chars (s : NumberStyle) (n : Numeral) : List Char :=
  signChars n.sign ++ (n.whole ++ (fractionChars n.fraction ++ s.exponentChars n.exponent))

theorem chars_of_not_plus {s : NumberStyle} (h : s.plus = false) (n : Numeral) : s.chars n = n.chars := by
  obtain ⟨g, ws, f, x⟩ := n
  cases x <;> simp [chars, Numeral.chars, exponentChars, Numeral.exponentChars, h]

end NumberStyle

namespace Numeral

/-- Only the numeral zero starts with a zero. -/
def NoLeadingZero (ds : List Char) : Prop := ds.head? = some '0' → ds = ['0']

theorem eq_zero_of_head_toDigits {m : Nat} (h : (Nat.toDigits 10 m).head? = some '0') : m = 0 := by
  induction m using Nat.strongRecOn with
  | ind m ih =>
    rw [Nat.toDigits_eq_if (by decide)] at h
    split at h
    · rename_i hm
      have hall : ∀ k, k < 10 → k.digitChar = '0' → k = 0 := by decide
      exact hall m hm (by simpa using h)
    · rename_i hm
      rw [List.head?_append_of_ne_nil _ Nat.toDigits_ne_nil] at h
      have := ih (m / 10) (by omega) h
      omega

theorem noLeadingZero_toDigits (m : Nat) : NoLeadingZero (Nat.toDigits 10 m) := by
  intro h
  rw [eq_zero_of_head_toDigits h]
  rfl

/-- The numeral `n` spells the decimal `d` with the sign `g`, as the style writes it. -/
structure Spells (s : NumberStyle) (n : Numeral) (g : Option Sign) (d : Decimal) : Prop where
  plain : n.Plain
  noLeadingZero : NoLeadingZero n.whole
  fraction_ne : ∀ ds ∈ n.fraction, ds ≠ []
  isFloat : n.isFloat
  sign : n.sign = g
  chars : s.chars n = signChars g ++ s.decimal d
  toFloat : n.magnitude.toFloat = d.toFloat

section

variable {s : NumberStyle} {g : Option Sign} {ds : List Char} {m : Nat} {e : Int}

/-- Zeros up to the point, and one after it. -/
theorem spells_zeros (hd : ∀ c ∈ ds, c.isDigit) (hv : Nat.ofDigitChars 10 ds 0 = m) (hne : ds ≠ [])
    (hz : ds.head? = some '0' → ds = ['0'] ∧ e = 0) (hs : s.decimal ⟨m, e⟩ = NumberStyle.positional ds e)
    (he : 0 ≤ e) (he' : e ≤ 16) :
    Spells s ⟨g, ds ++ List.replicate e.toNat '0', some ['0'], none⟩ g ⟨m, e⟩ where
  plain :=
    { whole_ne := by simp [hne]
      whole := by
        intro c hc
        rcases List.mem_append.1 hc with hc | hc
        · exact hd c hc
        · rw [(List.mem_replicate.1 hc).2]
          decide
      fraction := by
        rintro _ ⟨rfl⟩ c hc
        rw [List.mem_singleton.1 hc]
        decide
      exponent_ne := by simp
      exponent := by simp }
  noLeadingZero := by
    intro h
    rw [List.head?_append_of_ne_nil _ hne] at h
    obtain ⟨rfl, rfl⟩ := hz h
    rfl
  fraction_ne := by simp
  isFloat := rfl
  sign := rfl
  chars := by simp [hs, NumberStyle.chars, NumberStyle.positional, he, fractionChars, NumberStyle.exponentChars]
  toFloat := by
    have hval : Nat.ofDigitChars 10 (ds ++ (List.replicate e.toNat '0' ++ ['0'])) 0 = m * 10 ^ (e.toNat + 1) := by
      rw [← List.replicate_succ', Nat.ofDigitChars_append, Nat.ofDigitChars_replicate_zero, hv, Nat.mul_comm]
    have hmag : magnitude ⟨g, ds ++ List.replicate e.toNat '0', some ['0'], none⟩ =
        ⟨m * 10 ^ (e.toNat + 1), -((1 : Nat) : Int)⟩ := by
      simp [magnitude, digits, exponentDigits, hval]
    rw [hmag]
    exact Decimal.toFloat_zeros he (by omega)

/-- A point among the digits. -/
theorem spells_point (hd : ∀ c ∈ ds, c.isDigit) (hv : Nat.ofDigitChars 10 ds 0 = m) (hne : ds ≠ [])
    (hz : NoLeadingZero ds) (hs : s.decimal ⟨m, e⟩ = NumberStyle.positional ds e) (he : e < 0) {k : Nat}
    (hk : (ds.length : Int) - 1 + e = k) :
    Spells s ⟨g, ds.take (k + 1), some (ds.drop (k + 1)), none⟩ g ⟨m, e⟩ where
  plain :=
    { whole_ne := by simp [hne]
      whole := fun c hc => hd c (List.mem_of_mem_take hc)
      fraction := by
        rintro _ ⟨rfl⟩ c hc
        exact hd c (List.mem_of_mem_drop hc)
      exponent_ne := by simp
      exponent := by simp }
  noLeadingZero := by
    intro h
    rw [List.head?_take, if_neg (Nat.succ_ne_zero k)] at h
    show ds.take (k + 1) = ['0']
    rw [hz h, List.take_succ_cons, List.take_nil]
  fraction_ne := by
    rintro _ ⟨rfl⟩ h
    have := List.drop_eq_nil_iff.1 h
    omega
  isFloat := rfl
  sign := rfl
  chars := by
    have hneg : ¬ 0 ≤ e := by omega
    simp [hs, NumberStyle.chars, NumberStyle.positional, hneg, hk, fractionChars, NumberStyle.exponentChars]
  toFloat := by
    have hlen : ((ds.length - (k + 1) : Nat) : Int) = -e := by omega
    have hmag : magnitude ⟨g, ds.take (k + 1), some (ds.drop (k + 1)), none⟩ = ⟨m, e⟩ := by
      simp [magnitude, digits, exponentDigits, hv, hlen]
    rw [hmag]

/-- Zeros after the point. -/
theorem spells_small (hd : ∀ c ∈ ds, c.isDigit) (hv : Nat.ofDigitChars 10 ds 0 = m) (hne : ds ≠ [])
    (hs : s.decimal ⟨m, e⟩ = NumberStyle.positional ds e) (he : (ds.length : Int) - 1 + e < 0)
    (he' : e < 0) :
    Spells s ⟨g, ['0'], some (List.replicate (-((ds.length : Int) - 1 + e) - 1).toNat '0' ++ ds), none⟩ g ⟨m, e⟩ where
  plain :=
    { whole_ne := by simp
      whole := by
        intro c hc
        rw [List.mem_singleton.1 hc]
        decide
      fraction := by
        rintro _ ⟨rfl⟩ c hc
        rcases List.mem_append.1 hc with hc | hc
        · rw [(List.mem_replicate.1 hc).2]
          decide
        · exact hd c hc
      exponent_ne := by simp
      exponent := by simp }
  noLeadingZero := fun _ => rfl
  fraction_ne := by
    rintro _ ⟨rfl⟩
    simp [hne]
  isFloat := rfl
  sign := rfl
  chars := by
    have hneg : ¬ 0 ≤ e := by omega
    have hneg' : ¬ 0 ≤ (ds.length : Int) - 1 + e := by omega
    simp [hs, NumberStyle.chars, NumberStyle.positional, hneg, hneg', fractionChars, NumberStyle.exponentChars]
  toFloat := by
    generalize hz : (-((ds.length : Int) - 1 + e) - 1).toNat = z
    have hval : Nat.ofDigitChars 10 (['0'] ++ (List.replicate z '0' ++ ds)) 0 = m := by
      rw [← List.append_assoc, ← List.replicate_one, List.replicate_append_replicate, Nat.ofDigitChars_append,
        Nat.ofDigitChars_replicate_zero, Nat.mul_zero, hv]
    have hlen : -((z + ds.length : Nat) : Int) = e := by omega
    have hmag : magnitude ⟨g, ['0'], some (List.replicate z '0' ++ ds), none⟩ = ⟨m, e⟩ := by
      simp only [magnitude, digits, exponentDigits, Option.getD_some, hval, List.length_append,
        List.length_replicate, hlen]
      simp
    rw [hmag]

/-- The digits after the point, with a point only if there are any. -/
def fractionOf (ds : List Char) : Option (List Char) := if ds.isEmpty then none else some ds

theorem getD_fractionOf (ds : List Char) : (fractionOf ds).getD [] = ds := by
  cases ds <;> rfl

theorem fractionChars_fractionOf (ds : List Char) :
    fractionChars (fractionOf ds) = if ds.isEmpty then [] else '.' :: ds := by
  cases ds <;> rfl

theorem mem_fractionOf {ds fs : List Char} (h : fs ∈ fractionOf ds) : fs = ds := by
  unfold fractionOf at h
  split at h
  · cases h
  · cases h
    rfl

/-- One digit before the point, and an exponent. -/
theorem spells_scientific (hd : ∀ c ∈ ds, c.isDigit) (hv : Nat.ofDigitChars 10 ds 0 = m) (hne : ds ≠ [])
    (hs : s.decimal ⟨m, e⟩ = s.scientific ds e) :
    Spells s ⟨g, ds.take 1, fractionOf (ds.drop 1),
      some (decide ((ds.length : Int) - 1 + e < 0), Nat.toDigits 10 ((ds.length : Int) - 1 + e).natAbs)⟩ g ⟨m, e⟩ where
  plain :=
    { whole_ne := by simp [hne]
      whole := fun c hc => hd c (List.mem_of_mem_take hc)
      fraction := by
        intro fs hfs c hc
        rw [mem_fractionOf hfs] at hc
        exact hd c (List.mem_of_mem_drop hc)
      exponent_ne := by
        rintro _ ⟨rfl⟩
        exact Nat.toDigits_ne_nil
      exponent := by
        rintro _ ⟨rfl⟩ c hc
        exact Nat.isDigit_of_mem_toDigits (by decide) (by decide) hc }
  noLeadingZero := by
    intro h
    cases ds with
    | nil => exact absurd rfl hne
    | cons d ds =>
      obtain rfl : d = '0' := Option.some.inj h
      rfl
  fraction_ne := by
    intro fs hfs h
    rw [mem_fractionOf hfs] at h
    simp [fractionOf, h] at hfs
  isFloat := by simp [isFloat]
  sign := rfl
  chars := by
    by_cases hneg : (ds.length : Int) - 1 + e < 0 <;> by_cases hplus : s.plus <;>
      simp [hs, NumberStyle.chars, NumberStyle.scientific, NumberStyle.exponentSign, hneg, hplus,
        fractionChars_fractionOf, NumberStyle.exponentChars]
  toFloat := by
    have hlen : ((ds.length - 1 : Nat) : Int) = ds.length - 1 := by
      have := List.length_pos_iff.2 hne
      omega
    have hmag : magnitude ⟨g, ds.take 1, fractionOf (ds.drop 1),
        some (decide ((ds.length : Int) - 1 + e < 0), Nat.toDigits 10 ((ds.length : Int) - 1 + e).natAbs)⟩ = ⟨m, e⟩ := by
      simp only [magnitude, digits, exponentDigits, getD_fractionOf, Option.map_some, Option.getD_some,
        List.take_append_drop, hv, Nat.ofDigitChars_ten_toDigits, List.length_drop, hlen]
      congr 1
      split
      · rename_i h
        have := of_decide_eq_true h
        omega
      · rename_i h
        have := of_decide_eq_false (Bool.eq_false_iff.2 h)
        omega
    rw [hmag]

end

theorem exists_spells (s : NumberStyle) (hb : s.beyond ≤ 16) (g : Option Sign) {d : Decimal}
    (hz : d.digits = 0 → d.exponent = 0) : ∃ n, Spells s n g d := by
  obtain ⟨m, e⟩ := d
  have hd : ∀ c ∈ Nat.toDigits 10 m, c.isDigit := fun _ hc =>
    Nat.isDigit_of_mem_toDigits (by decide) (by decide) hc
  have hv : Nat.ofDigitChars 10 (Nat.toDigits 10 m) 0 = m := Nat.ofDigitChars_ten_toDigits
  have hne : Nat.toDigits 10 m ≠ [] := Nat.toDigits_ne_nil
  have hlead : NoLeadingZero (Nat.toDigits 10 m) := noLeadingZero_toDigits m
  have hzero : (Nat.toDigits 10 m).head? = some '0' → Nat.toDigits 10 m = ['0'] ∧ e = 0 := fun h =>
    ⟨hlead h, hz (eq_zero_of_head_toDigits h)⟩
  have hs : s.decimal ⟨m, e⟩ =
      if s.least ≤ ((Nat.toDigits 10 m).length : Int) - 1 + e ∧
          ((Nat.toDigits 10 m).length : Int) - 1 + e < s.beyond then
        NumberStyle.positional (Nat.toDigits 10 m) e
      else s.scientific (Nat.toDigits 10 m) e := rfl
  generalize Nat.toDigits 10 m = ds at *
  have hpos := List.length_pos_iff.2 hne
  split at hs
  · rename_i hrange
    rcases Int.lt_or_le e 0 with he | he
    · rcases Int.lt_or_le ((ds.length : Int) - 1 + e) 0 with hdec | hdec
      · exact ⟨_, spells_small hd hv hne hs hdec he⟩
      · obtain ⟨k, hk⟩ : ∃ k : Nat, (ds.length : Int) - 1 + e = k := ⟨_, (Int.toNat_of_nonneg hdec).symm⟩
        exact ⟨_, spells_point hd hv hne hlead hs he hk⟩
    · exact ⟨_, spells_zeros hd hv hne hzero hs he (by omega)⟩
  · exact ⟨_, spells_scientific hd hv hne hs⟩

end Numeral

namespace FloatParts

variable {x : Float}

theorem toFloat_zero (e : Int) : Decimal.toFloat ⟨0, e⟩ = ofUnpacked (.zero .positive) := by
  rw [Decimal.toFloat_eq]
  simp [Float.Model.UnpackedFloat.ofScientific]

/-- The text of a finite float is a decimal with its sign, and the decimal has its magnitude. -/
theorem toList_float (h : x.isFinite) (s : NumberStyle) (hs : s.decimal ⟨0, 0⟩ = ['0', '.', '0']) :
    ∃ d : Decimal, d.toFloat = x.abs ∧ (d.digits = 0 → d.exponent = 0) ∧
      (s.float x).toList = Numeral.signChars (Numeral.signOf (isSigned x)) ++ s.decimal d := by
  rcases isFinite_cases h with ⟨g, hu⟩ | ⟨g, m, q, hm, hu⟩
  · have hx := ofUnpacked_of_unpack_zero hu
    refine ⟨⟨0, 0⟩, ?_, fun _ => rfl, ?_⟩
    · rw [← hx, abs_zero]
      rfl
    · rw [NumberStyle.float, String.toList_ofList, isSigned, hu, hs]
      cases g <;> rfl
  · have hd := toFloat_shortest hu s.tie
    refine ⟨_, hd, fun hz => ?_, ?_⟩
    · have habs : x.abs.toModel.unpack = .finite .positive m q hm := by
        rw [abs_eq hu]
        exact unpack_withSign hu .positive
      generalize Decimal.shortest s.tie _ m q = d at hd hz
      obtain ⟨k, e⟩ := d
      obtain rfl : k = 0 := hz
      rw [← hd, toFloat_zero, unpack_ofUnpacked] at habs
      cases habs
    · rw [NumberStyle.float, String.toList_ofList, isSigned, hu]
      cases g <;> rfl

/-- The negation of a float without sign is written with a minus sign in front. -/
theorem toList_float_neg (h : x.isFinite) (hs : isSigned x = false) :
    (Literal.float (-x)).toList = '-' :: (Literal.float x).toList := by
  rw [Literal.float, Literal.float, NumberStyle.float, NumberStyle.float, String.toList_ofList, String.toList_ofList,
    abs_neg h]
  rcases isFinite_cases h with ⟨s, hu⟩ | ⟨s, m, q, hm, hu⟩
  · rw [unpack_neg_zero hu, hu]
    cases s with
    | positive => rfl
    | negative => simp [isSigned, hu] at hs
  · rw [unpack_neg hu, hu]
    cases s with
    | positive => rfl
    | negative => simp [isSigned, hu] at hs

end FloatParts

namespace Numeral

open FloatParts

/-- A finite float is its magnitude with the sign that it is written with. -/
theorem signed_abs {x : Float} (h : x.isFinite) :
    (if signOf (isSigned x) = some .minus then -x.abs else x.abs) = x := by
  have hx := eq_signed_abs h
  cases hs : isSigned x <;> simp [signOf, hs] at hx ⊢ <;> exact hx.symm

/-- A finite float is written as a numeral that has its value. -/
theorem exists_float {x : Float} (h : x.isFinite) :
    ∃ n : Numeral, n.Plain ∧ n.isFloat ∧ n.sign = signOf (isSigned x) ∧ n.toFloat? = some x ∧
      n.chars = (Literal.float x).toList := by
  obtain ⟨d, hd, hz, htext⟩ := toList_float h literalStyle rfl
  obtain ⟨n, hn⟩ := exists_spells literalStyle (by decide) (signOf (isSigned x)) hz
  refine ⟨n, hn.plain, hn.isFloat, hn.sign, ?_, ?_⟩
  · simp only [toFloat?, hn.plain.all_isDigit, ↓reduceIte, hn.sign, hn.toFloat, hd, signed_abs h]
  · rw [← NumberStyle.chars_of_not_plus (s := literalStyle) rfl, hn.chars]
    exact htext.symm

end Numeral

end CaseSetup
