import CaseSetup.Decimal.Style
import CaseSetup.Proofs.Decimal.Parts
import CaseSetup.Proofs.Decimal.Scientific

/-! # Decimals that read back

The exact digits of a float read back as it, so the shortest ones that the search finds do too.
Zeros written after the digits change nothing. -/

namespace CaseSetup

open Float.Model Float.Model.UnpackedFloat FloatParts Rounding

namespace Decimal

theorem toFloat_eq (d : Decimal) :
    d.toFloat = ofUnpacked (UnpackedFloat.ofScientific Format.binary64 d.digits d.exponent) :=
  rfl

theorem toFloat_exact {m : Nat} {q : Int} (hm : 0 < m) (ht : target m 1 q = q) :
    (exact m q).toFloat = ofUnpacked (.finite .positive m q hm) := by
  have hlow : -1074 ≤ q := by
    have := target_eq m 1 q
    omega
  have hp : Precise m 1 q := by
    rw [Precise, ht]
  rw [toFloat_eq, ← roundFraction_of_target hm ht]
  congr 1
  unfold exact
  split
  · rename_i hq
    have hneg : (-q).toNat = 0 := by omega
    show UnpackedFloat.ofScientific Format.binary64 (m * 2 ^ q.toNat) 0 = _
    have hmod : Moderate (m * 2 ^ q.toNat) 0 := ⟨by omega, by omega⟩
    refine ofScientific_eq (Nat.mul_pos hm (Nat.two_pow_pos _)) hmod Nat.one_pos hp ?_
    simp [hneg]
  · rename_i hq
    have hpos : q.toNat = 0 := by omega
    show UnpackedFloat.ofScientific Format.binary64 (m * 5 ^ (-q).toNat) q = _
    have hmod : Moderate (m * 5 ^ (-q).toNat) q := ⟨by omega, by omega⟩
    refine ofScientific_eq (Nat.mul_pos hm (Nat.pow_pos (by decide))) hmod Nat.one_pos hp ?_
    rw [hpos, pow_zero, pow_zero, Nat.mul_one, Nat.mul_one, Nat.mul_one, Nat.mul_assoc, ← Nat.mul_pow]

/-- Zeros at the end of the digits move into the exponent. -/
theorem toFloat_zeros {n k : Nat} {e : Int} (he : 0 ≤ e) (hk : e + k ≤ 2048) :
    toFloat ⟨n * 10 ^ (e.toNat + k), -(k : Int)⟩ = toFloat ⟨n, e⟩ := by
  rcases Nat.eq_zero_or_pos n with rfl | hn
  · rw [toFloat_eq, toFloat_eq]
    simp [UnpackedFloat.ofScientific]
  · have hmod : Moderate n e := ⟨by omega, by omega⟩
    have hmod' : Moderate (n * 10 ^ (e.toNat + k)) (-(k : Int)) := ⟨by omega, by omega⟩
    rw [toFloat_eq, toFloat_eq]
    show ofUnpacked (UnpackedFloat.ofScientific Format.binary64 (n * 10 ^ (e.toNat + k)) (-(k : Int))) =
      ofUnpacked (UnpackedFloat.ofScientific Format.binary64 n e)
    rw [ofScientific_of_nonneg hn he hmod]
    congr 1
    refine ofScientific_eq (Nat.mul_pos hn (Nat.pow_pos (by decide))) hmod' Nat.one_pos (precise_product hn _) ?_
    have h₁ : (-(k : Int)).toNat = 0 := by omega
    have h₂ : (- -(k : Int)).toNat = k := by omega
    have h₃ : (-(-53 : Int)).toNat = 53 := rfl
    have h₄ : ((-53 : Int)).toNat = 0 := rfl
    rw [h₁, h₂, h₃, h₄]
    ring

end Decimal

/-- What is written of a float reads back as its magnitude. -/
theorem toFloat_shortest {x : Float} {s : Sign} {m : Nat} {q : Int} {hm : 0 < m}
    (h : x.toModel.unpack = .finite s m q hm) (tie : Decimal.Tie) :
    (Decimal.shortest tie (fun d => d.toFloat = x.abs) m q).toFloat = x.abs := by
  have hexact : (Decimal.exact m q).toFloat = x.abs := by
    rw [Decimal.toFloat_exact hm (target_of_unpack h), abs_eq h]
  generalize hr : (fun d : Decimal => decide (d.toFloat = x.abs)) = readsBack
  have hiff : ∀ d, readsBack d = true ↔ d.toFloat = x.abs := by
    intro d
    rw [← hr]
    exact decide_eq_true_iff
  exact (hiff _).1 (Decimal.readsBack_shortest ((hiff _).2 hexact))

end CaseSetup
