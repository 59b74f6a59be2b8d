import CaseSetup.Decimal.Basic
import Mathlib

/-! # Rounding fractions

The quotient of two numbers is rounded from its whole part, the bit after it and whether anything
is left. All of these depend on the fraction alone, so two ways to write a number with a power of
two round alike as long as neither drops a bit too early (`Precise`). -/

namespace CaseSetup.Rounding

open Float.Model Float.Model.UnpackedFloat

/-- The whole part of `num / den` and its two residual bits. -/
def ofFraction (num den : Nat) : ExtendedMantissa where
  mantissa := num / den
  roundBit := den ≤ 2 * (num % den)
  stickyBit := 2 * (num % den) ≠ 0 ∧ 2 * (num % den) ≠ den

variable {num den num' den' : Nat} {e e' : Int}

theorem ofMantissaAndAccuracy_fraction (hden : 0 < den) :
    ExtendedMantissa.ofMantissaAndAccuracy (num / den) (accuracyOfFraction (num % den) den) =
      ofFraction num den := by
  have hlt := Nat.mod_lt num hden
  unfold accuracyOfFraction ofFraction
  split
  · rename_i h
    have hle : ¬ den ≤ 0 := by omega
    simp [ExtendedMantissa.ofMantissaAndAccuracy, h, hle]
  · rename_i h
    cases hc : compare (2 * (num % den)) den with
    | lt =>
      have hc := Nat.compare_eq_lt.1 hc
      have hle : ¬ den ≤ 2 * (num % den) := by omega
      have hne : 2 * (num % den) ≠ den := by omega
      simp [ExtendedMantissa.ofMantissaAndAccuracy, hle, hne, h]
    | eq =>
      have hc := Nat.compare_eq_eq.1 hc
      simp [ExtendedMantissa.ofMantissaAndAccuracy, hc]
    | gt =>
      have hc := Nat.compare_eq_gt.1 hc
      have hle : den ≤ 2 * (num % den) := by omega
      have hne : 2 * (num % den) ≠ den := by omega
      simp [ExtendedMantissa.ofMantissaAndAccuracy, hle, hne, h]

/-- Dropping a bit doubles the denominator. -/
theorem shiftRightOne_ofFraction (hden : 0 < den) :
    (ofFraction num den).shiftRightOne = ofFraction num (2 * den) := by
  have hlt := Nat.mod_lt num hden
  have hmod : num % (2 * den) = num % den + den * (num / den % 2) := by
    rw [Nat.mul_comm 2 den, Nat.mod_mul]
  have hdiv : num / (2 * den) = num / den / 2 := by
    rw [Nat.mul_comm 2 den, Nat.div_div_eq_div_mul]
  unfold ofFraction ExtendedMantissa.shiftRightOne
  rw [hdiv, hmod]
  rcases Nat.mod_two_eq_zero_or_one (num / den) with h | h
  · simp only [h, Nat.mul_zero, Nat.add_zero, ExtendedMantissa.mk.injEq, true_and]
    constructor
    · simp
      omega
    · by_cases h₀ : num % den = 0
      · simp [h₀, show ¬ den ≤ 0 by omega]
      · by_cases h₁ : den ≤ 2 * (num % den) <;> simp [h₀, h₁] <;> omega
  · simp only [h, Nat.mul_one, ExtendedMantissa.mk.injEq, true_and]
    constructor
    · simp
    · by_cases h₀ : num % den = 0
      · simp [h₀, show ¬ den ≤ 0 by omega]
      · by_cases h₁ : den ≤ 2 * (num % den)
        · simp [h₀, h₁]
        · simp [h₀, h₁]
          omega

theorem shiftRight_ofFraction (hden : 0 < den) (k : Nat) :
    ofFraction num den >>> k = ofFraction num (2 ^ k * den) := by
  induction k with
  | zero => simp [HShiftRight.hShiftRight, Nat.repeat]
  | succ k ih =>
    have hpos : 0 < 2 ^ k * den := Nat.mul_pos (Nat.two_pow_pos k) hden
    have hstep : ofFraction num den >>> (k + 1) = (ofFraction num den >>> k).shiftRightOne := rfl
    rw [hstep, ih, shiftRightOne_ofFraction hpos, pow_succ]
    congr 1
    ring

theorem ofFraction_mul {c : Nat} (hc : 0 < c) : ofFraction (c * num) (c * den) = ofFraction num den := by
  unfold ofFraction
  rw [Nat.mul_div_mul_left _ _ hc, Nat.mul_mod_mul_left]
  have h : 2 * (c * (num % den)) = c * (2 * (num % den)) := by ring
  rw [h]
  congr 1
  · simp [Nat.mul_le_mul_left_iff hc]
  · simp [hc.ne', Nat.mul_right_inj hc.ne']

/-- Equal fractions have the same bits. -/
theorem ofFraction_congr (hden : 0 < den) (hden' : 0 < den') (h : num * den' = num' * den) :
    ofFraction num den = ofFraction num' den' := by
  have hl : ofFraction (den' * num) (den' * den) = ofFraction num den := ofFraction_mul hden'
  have hr : ofFraction (den * num') (den * den') = ofFraction num' den' := ofFraction_mul hden
  rw [← hl, ← hr, Nat.mul_comm den' num, h, Nat.mul_comm num' den, Nat.mul_comm den' den]

theorem targetExponent_eq (t : Int) : Format.binary64.targetExponent t = max (t - 53) (-1074) := by
  simp [Format.targetExponent, Format.mantissaBits, Format.minExponent]

/-- The exponent that `num / den * 2 ^ e` is rounded to, judged from its whole part. -/
def target (num den : Nat) (e : Int) : Int := Format.binary64.targetExponent (totalExponent (num / den) e)

/-- The whole part of `num / den` has all the bits that a rounded `num / den * 2 ^ e` keeps. -/
def Precise (num den : Nat) (e : Int) : Prop := e ≤ target num den e

theorem target_eq (num den : Nat) (e : Int) :
    target num den e = max ((num / den).log2 + 1 + e - 53) (-1074) :=
  targetExponent_eq _

/-- The number `num / den * 2 ^ e`, rounded. -/
def roundFraction (s : Sign) (num den : Nat) (e : Int) : UnpackedFloat :=
  roundWithAccuracy Format.binary64 s (num / den) e (accuracyOfFraction (num % den) den)

theorem shiftToTargetExponent_fraction (hden : 0 < den) (hp : Precise num den e) :
    shiftToTargetExponent Format.binary64 (num / den) e (accuracyOfFraction (num % den) den) =
      (ofFraction num (2 ^ (target num den e - e).toNat * den), target num den e) := by
  have he : e + (target num den e - e).toNat = target num den e := by
    have : e ≤ target num den e := hp
    omega
  show (ExtendedMantissa.ofMantissaAndAccuracy _ _ >>> (target num den e - e).toNat,
    e + (target num den e - e).toNat) = _
  rw [ofMantissaAndAccuracy_fraction hden, shiftRight_ofFraction hden, he]

/-- A number is rounded to one exponent, however it is written. -/
theorem target_congr (hden : 0 < den) (hden' : 0 < den') (hp : Precise num den e) {d : Nat}
    (h : num * 2 ^ d * den' = num' * den) : target num' den' (e - d) = target num den e := by
  have hp : e ≤ target num den e := hp
  rw [target_eq] at hp
  rw [target_eq, target_eq]
  rcases Nat.eq_zero_or_pos (num / den) with hz | hpos
  · -- the whole part is zero: the exponent is the least one, and so it is with more bits
    have hlt : num < den := (Nat.div_eq_zero_iff_lt hden).1 hz
    have hlt' : num' / den' < 2 ^ d := by
      rw [Nat.div_lt_iff_lt_mul hden']
      refine Nat.lt_of_mul_lt_mul_right (a := den) ?_
      rw [← h, Nat.mul_assoc, Nat.mul_comm num]
      exact Nat.mul_lt_mul_of_pos_left hlt (Nat.mul_pos (Nat.two_pow_pos d) hden')
    rw [hz] at hp ⊢
    have hlog : (num' / den').log2 ≤ d := by
      rcases Nat.eq_zero_or_pos (num' / den') with hz' | hpos'
      · rw [hz']
        exact Nat.zero_le d
      · exact Nat.le_of_lt ((Nat.log2_lt hpos'.ne').2 hlt')
    have hzero : Nat.log2 0 = 0 := rfl
    omega
  · have hle := Nat.log2_self_le hpos.ne'
    have hlt : num / den < 2 ^ ((num / den).log2 + 1) := Nat.lt_log2_self
    rw [Nat.le_div_iff_mul_le hden] at hle
    rw [Nat.div_lt_iff_lt_mul hden] at hlt
    have hscale : 0 < 2 ^ d * den' := Nat.mul_pos (Nat.two_pow_pos d) hden'
    have hlow : 2 ^ ((num / den).log2 + d) ≤ num' / den' := by
      rw [Nat.le_div_iff_mul_le hden']
      refine Nat.le_of_mul_le_mul_right ?_ hden
      calc 2 ^ ((num / den).log2 + d) * den' * den = 2 ^ (num / den).log2 * den * (2 ^ d * den') := by ring
        _ ≤ num * (2 ^ d * den') := Nat.mul_le_mul_right _ hle
        _ = num' * den := by rw [← h]; ring
    have hhigh : num' / den' < 2 ^ ((num / den).log2 + d + 1) := by
      rw [Nat.div_lt_iff_lt_mul hden']
      refine Nat.lt_of_mul_lt_mul_right (a := den) ?_
      calc num' * den = num * (2 ^ d * den') := by rw [← h]; ring
        _ < 2 ^ ((num / den).log2 + 1) * den * (2 ^ d * den') := Nat.mul_lt_mul_of_pos_right hlt hscale
        _ = 2 ^ ((num / den).log2 + d + 1) * den' * den := by ring
    have hlog : (num' / den').log2 = (num / den).log2 + d :=
      (Nat.log2_eq_iff (Nat.lt_of_lt_of_le (Nat.two_pow_pos _) hlow).ne').2 ⟨hlow, hhigh⟩
    omega

/-- Two ways to write a number, both with all the bits that count, round alike. -/
theorem roundFraction_congr (s : Sign) (hden : 0 < den) (hden' : 0 < den') (hp : Precise num den e) {d : Nat}
    (hp' : Precise num' den' (e - d)) (h : num * 2 ^ d * den' = num' * den) :
    roundFraction s num den e = roundFraction s num' den' (e - d) := by
  have ht := target_congr hden hden' hp h
  have hle : e ≤ target num den e := hp
  have hk : (target num den e - (e - d)).toNat = (target num den e - e).toNat + d := by omega
  have hbits : ofFraction num (2 ^ (target num den e - e).toNat * den) =
      ofFraction num' (2 ^ (target num den e - (e - d)).toNat * den') := by
    refine ofFraction_congr (Nat.mul_pos (Nat.two_pow_pos _) hden) (Nat.mul_pos (Nat.two_pow_pos _) hden') ?_
    rw [hk, pow_add]
    calc num * (2 ^ (target num den e - e).toNat * 2 ^ d * den')
        = 2 ^ (target num den e - e).toNat * (num * 2 ^ d * den') := by ring
      _ = num' * (2 ^ (target num den e - e).toNat * den) := by rw [h]; ring
  unfold roundFraction roundWithAccuracy
  rw [shiftToTargetExponent_fraction hden hp, shiftToTargetExponent_fraction hden' hp', ht, hbits]

end CaseSetup.Rounding
