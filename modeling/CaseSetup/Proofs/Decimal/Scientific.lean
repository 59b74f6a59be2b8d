import CaseSetup.Proofs.Decimal.Rounding

/-! # Reading a decimal

A decimal is read by rounding the number it stands for, so decimals that stand for one number are
read alike, and the exact digits of a floating-point number give it back. -/

namespace CaseSetup.Rounding

open Float.Model Float.Model.UnpackedFloat

variable {num den num' den' m : Nat} {e e' q : Int} {s : Sign}

/-- Two ways to write a number round alike, whichever exponent is the greater. -/
theorem roundFraction_eq (hden : 0 < den) (hden' : 0 < den') (hp : Precise num den e)
    (hp' : Precise num' den' e') (h : num * 2 ^ (e - e').toNat * den' = num' * 2 ^ (e' - e).toNat * den) :
    roundFraction s num den e = roundFraction s num' den' e' := by
  rcases Int.le_total e' e with hle | hle
  · obtain ⟨d, rfl⟩ : ∃ d : Nat, e' = e - d := ⟨(e - e').toNat, by omega⟩
    have h₁ : (e - (e - (d : Int))).toNat = d := by omega
    have h₂ : (e - (d : Int) - e).toNat = 0 := by omega
    rw [h₁, h₂, pow_zero, Nat.mul_one] at h
    exact roundFraction_congr s hden hden' hp hp' h
  · obtain ⟨d, rfl⟩ : ∃ d : Nat, e = e' - d := ⟨(e' - e).toNat, by omega⟩
    have h₁ : (e' - (d : Int) - e').toNat = 0 := by omega
    have h₂ : (e' - (e' - (d : Int))).toNat = d := by omega
    rw [h₁, h₂, pow_zero, Nat.mul_one] at h
    exact (roundFraction_congr s hden' hden hp' hp h.symm).symm

/-- A number that already has the exponent it would be rounded to stays as it is. -/
theorem roundFraction_of_target (hm : 0 < m) (h : target m 1 q = q) :
    roundFraction s m 1 q = .finite s m q hm := by
  have hp : Precise m 1 q := by
    rw [Precise, h]
  have hshift : shiftToTargetExponent Format.binary64 m q .exact = (ofFraction m 1, q) := by
    have hs := shiftToTargetExponent_fraction Nat.one_pos hp
    rw [h] at hs
    simpa [accuracyOfFraction, Nat.mod_one] using hs
  have hbits : (ofFraction m 1).roundedMantissa = m := by
    simp [ofFraction, ExtendedMantissa.roundedMantissa, ExtendedMantissa.accuracy,
      Accuracy.roundToNearestEven, Nat.mod_one]
  have hmant : (ofFraction m 1).mantissa = m := Nat.div_one m
  have hacc : accuracyOfFraction (m % 1) 1 = .exact := by
    simp [accuracyOfFraction, Nat.mod_one]
  unfold roundFraction roundWithAccuracy
  rw [Nat.div_one, hacc, hshift]
  simp only [hbits, hshift, hmant, hm.ne', ↓reduceDIte]

/-- Moving `2 ^ k` from the exponent into the number. -/
theorem scale_exponent {a b d k : Nat} {t : Int} (ht : t = -k)
    (h : a * 2 ^ (-e).toNat * d = b * 2 ^ e.toNat) :
    a * 2 ^ k * 2 ^ (t - e).toNat * d = b * 2 ^ (e - t).toNat := by
  have hk : k + (t - e).toNat + e.toNat = (e - t).toNat + (-e).toNat := by omega
  refine Nat.eq_of_mul_eq_mul_right (Nat.two_pow_pos (-e).toNat) ?_
  calc a * 2 ^ k * 2 ^ (t - e).toNat * d * 2 ^ (-e).toNat
      = a * 2 ^ (-e).toNat * d * 2 ^ (k + (t - e).toNat) := by ring
    _ = b * 2 ^ (k + (t - e).toNat + e.toNat) := by rw [h]; ring
    _ = b * 2 ^ (e - t).toNat * 2 ^ (-e).toNat := by rw [hk]; ring

/-- A product with a power of ten keeps more bits than count. -/
theorem precise_product (hm : 0 < m) (n : Nat) : Precise (m * 2 ^ 53 * 10 ^ n) 1 (-53) := by
  have hlog : 53 ≤ (m * 2 ^ 53 * 10 ^ n).log2 := by
    have hpos : 0 < m * 2 ^ 53 * 10 ^ n := Nat.mul_pos (Nat.mul_pos hm (by decide)) (Nat.pow_pos (by decide))
    rw [Nat.le_log2 hpos.ne']
    calc 2 ^ 53 ≤ m * 2 ^ 53 := Nat.le_mul_of_pos_left _ hm
      _ ≤ m * 2 ^ 53 * 10 ^ n := Nat.le_mul_of_pos_right _ (Nat.pow_pos (by decide))
  rw [Precise, target_eq, Nat.div_one]
  omega

/-- The exponent at which a quotient by `n` is taken. -/
def quotientExponent (m n : Nat) : Int :=
  min 0 (Format.binary64.targetExponent (totalExponent m 0 - totalExponent n 0))

theorem quotientExponent_eq (m n : Nat) :
    quotientExponent m n = min 0 (max ((m.log2 : Int) - n.log2 - 53) (-1074)) := by
  rw [quotientExponent, targetExponent_eq, totalExponent, totalExponent]
  omega

theorem precise_quotient {n : Nat} (hm : 0 < m) (hn : 0 < n) :
    Precise (m * 2 ^ (-quotientExponent m n).toNat) n (quotientExponent m n) := by
  have hmin := quotientExponent_eq m n
  generalize quotientExponent m n = t at hmin
  have hlow := Nat.log2_self_le hm.ne'
  have hhigh : n < 2 ^ (n.log2 + 1) := Nat.lt_log2_self
  rw [Precise, target_eq]
  rcases Nat.eq_zero_or_pos (m * 2 ^ (-t).toNat / n) with hz | hpos
  · -- nothing is left of the quotient, so it lies below the least exponent
    have hlt := (Nat.div_eq_zero_iff_lt hn).1 hz
    have hpow : 2 ^ (m.log2 + (-t).toNat) < 2 ^ (n.log2 + 1) := by
      calc 2 ^ (m.log2 + (-t).toNat) = 2 ^ m.log2 * 2 ^ (-t).toNat := Nat.pow_add ..
        _ ≤ m * 2 ^ (-t).toNat := Nat.mul_le_mul_right _ hlow
        _ < 2 ^ (n.log2 + 1) := Nat.lt_trans hlt hhigh
    have hexp := (Nat.pow_lt_pow_iff_right (by decide)).1 hpow
    omega
  · have hbits : m.log2 + (-t).toNat ≤ (m * 2 ^ (-t).toNat / n).log2 + 1 + n.log2 := by
      have hlt : m * 2 ^ (-t).toNat < 2 ^ ((m * 2 ^ (-t).toNat / n).log2 + 1) * n := by
        rw [← Nat.div_lt_iff_lt_mul hn]
        exact Nat.lt_log2_self
      have hpow : 2 ^ (m.log2 + (-t).toNat) < 2 ^ ((m * 2 ^ (-t).toNat / n).log2 + 1 + (n.log2 + 1)) := by
        calc 2 ^ (m.log2 + (-t).toNat) = 2 ^ m.log2 * 2 ^ (-t).toNat := Nat.pow_add ..
          _ ≤ m * 2 ^ (-t).toNat := Nat.mul_le_mul_right _ hlow
          _ < 2 ^ ((m * 2 ^ (-t).toNat / n).log2 + 1) * n := hlt
          _ ≤ 2 ^ ((m * 2 ^ (-t).toNat / n).log2 + 1) * 2 ^ (n.log2 + 1) :=
            Nat.mul_le_mul_left _ (Nat.le_of_lt hhigh)
          _ = 2 ^ ((m * 2 ^ (-t).toNat / n).log2 + 1 + (n.log2 + 1)) := (Nat.pow_add ..).symm
      have hexp := (Nat.pow_lt_pow_iff_right (by decide)).1 hpow
      omega
    omega

/-- The decimals that are read by rounding, not by the guards against huge powers of ten. -/
def Moderate (m : Nat) (e : Int) : Prop := -(2048 + (m.log2 : Int)) ≤ e ∧ e ≤ 2048

theorem ofScientific_of_nonneg (hm : 0 < m) (he : 0 ≤ e) (hmod : Moderate m e) :
    UnpackedFloat.ofScientific Format.binary64 m e = roundFraction .positive (m * 2 ^ 53 * 10 ^ e.toNat) 1 (-53) := by
  obtain ⟨hlo, hhi⟩ := hmod
  have hacc : accuracyOfFraction (m * 2 ^ 53 * 10 ^ e.toNat % 1) 1 = .exact := by
    simp [accuracyOfFraction, Nat.mod_one]
  rw [roundFraction, Nat.div_one, hacc]
  unfold UnpackedFloat.ofScientific
  rw [dif_neg hm.ne', if_neg (by simp; omega), if_neg (by simp; omega), if_pos he]
  simp only [UnpackedFloat.mul, Nat.shiftLeft_eq]
  rfl

theorem ofScientific_of_neg (hm : 0 < m) (he : e < 0) (hmod : Moderate m e) :
    UnpackedFloat.ofScientific Format.binary64 m e =
      roundFraction .positive (m * 2 ^ (-quotientExponent m (10 ^ (-e).toNat)).toNat) (10 ^ (-e).toNat)
        (quotientExponent m (10 ^ (-e).toNat)) := by
  obtain ⟨hlo, hhi⟩ := hmod
  unfold UnpackedFloat.ofScientific
  rw [dif_neg hm.ne', if_neg (by simp; omega), if_neg (by simp; omega), if_neg (by omega)]
  have hq : min ((0 : Int) - 0) (Format.binary64.targetExponent (totalExponent m 0 -
      totalExponent (10 ^ (-e).toNat) 0)) = quotientExponent m (10 ^ (-e).toNat) := rfl
  simp only [UnpackedFloat.div, divCore, Nat.shiftLeft_eq]
  rw [hq, Int.sub_zero, Int.zero_sub]
  rfl

/-- A decimal is read by rounding its number, written in any way that keeps the bits that count. -/
theorem ofScientific_eq {e' : Int} (hm : 0 < m) (hmod : Moderate m e') (hden : 0 < den) (hp : Precise num den e)
    (h : m * 10 ^ e'.toNat * 2 ^ (-e).toNat * den = num * 2 ^ e.toNat * 10 ^ (-e').toNat) :
    UnpackedFloat.ofScientific Format.binary64 m e' = roundFraction .positive num den e := by
  rcases Int.lt_or_le e' 0 with he | he
  · have h₁ : e'.toNat = 0 := by omega
    have hpow : 0 < 10 ^ (-e').toNat := Nat.pow_pos (by decide)
    rw [ofScientific_of_neg hm he hmod]
    refine roundFraction_eq hpow hden (precise_quotient hm hpow) hp ?_
    have ht : quotientExponent m (10 ^ (-e').toNat) = -((-quotientExponent m (10 ^ (-e').toNat)).toNat : Int) := by
      have := quotientExponent_eq m (10 ^ (-e').toNat)
      omega
    have hval : m * 2 ^ (-e).toNat * den = num * 10 ^ (-e').toNat * 2 ^ e.toNat := by
      rw [h₁, pow_zero, Nat.mul_one] at h
      rw [h]
      ring
    have hscale := scale_exponent ht hval
    rw [hscale]
    ring
  · have h₁ : (-e').toNat = 0 := by omega
    rw [ofScientific_of_nonneg hm he hmod]
    refine roundFraction_eq Nat.one_pos hden (precise_product hm _) hp ?_
    rw [h₁, pow_zero, Nat.mul_one] at h
    have hscale : m * 10 ^ e'.toNat * 2 ^ 53 * 2 ^ (-53 - e).toNat * den = num * 2 ^ (e - -53).toNat :=
      scale_exponent (by norm_num) h
    calc m * 2 ^ 53 * 10 ^ e'.toNat * 2 ^ (-53 - e).toNat * den
        = m * 10 ^ e'.toNat * 2 ^ 53 * 2 ^ (-53 - e).toNat * den := by ring
      _ = num * 2 ^ (e - -53).toNat * 1 := by rw [hscale, Nat.mul_one]

end CaseSetup.Rounding
