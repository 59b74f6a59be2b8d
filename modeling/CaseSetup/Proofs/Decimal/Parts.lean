import CaseSetup.Decimal.Bits
import CaseSetup.Proofs.Decimal.Rounding
import Mathlib

/-! # The parts of a float

A float is its sign, exponent and mantissa. Taking one apart and putting it together again gives it
back, and so does changing the sign twice. -/

namespace CaseSetup.FloatParts

open Float.Model Float.Model.UnpackedFloat

variable {s : Sign} {e : BitVec 11} {f : BitVec 52}

/-- The bits of the number with these parts. -/
abbrev bits (s : Sign) (e : BitVec 11) (f : BitVec 52) : BitVec Format.binary64.numBits :=
  packComponents Format.binary64 s e f

theorem exists_bits (b : BitVec Format.binary64.numBits) : ∃ s e f, b = bits s e f :=
  ⟨_, _, _, (packComponents_unpackSign_unpackExponent_unpackMantissa b).symm⟩

theorem toNat_normal (f : BitVec 52) : (1#1 ++ f).toNat = 2 ^ 52 + f.toNat := by
  have hf := f.isLt
  rw [BitVec.toNat_append, ← Nat.shiftLeft_add_eq_or_of_lt hf]
  rfl

theorem log2_normal (f : BitVec 52) : (2 ^ 52 + f.toNat).log2 = 52 := by
  have hf := f.isLt
  refine (Nat.log2_eq_iff (by omega)).2 ⟨by omega, by omega⟩

theorem log2_subnormal (hf : f ≠ 0) : f.toNat.log2 < 52 := by
  have hpos : f.toNat ≠ 0 := by simpa [BitVec.toNat_eq] using hf
  exact (Nat.log2_lt hpos).2 f.isLt

theorem toNat_pos (hf : f ≠ 0) : 0 < f.toNat := by
  have hpos : f.toNat ≠ 0 := by simpa [BitVec.toNat_eq] using hf
  omega

theorem unpack_zero : UnpackedFloat.unpack Format.binary64 (bits s 0 0) = .zero s := by
  simp [UnpackedFloat.unpack, unpackSign_packComponents, Sign.ofBitVec_toBitVec]

theorem unpack_subnormal (hf : f ≠ 0) :
    UnpackedFloat.unpack Format.binary64 (bits s 0 f) = .finite s f.toNat (-1074) (toNat_pos hf) := by
  have hf : f ≠ 0#52 := hf
  simp [UnpackedFloat.unpack, unpackSign_packComponents, Sign.ofBitVec_toBitVec, hf, Format.exponentBias]

theorem unpack_normal (he : e ≠ 0) (he' : e ≠ -1) :
    UnpackedFloat.unpack Format.binary64 (bits s e f) =
      .finite s (2 ^ 52 + f.toNat) (e.toNat - 1075) (by omega) := by
  have he : e ≠ 0#11 := he
  have he' : e ≠ -1#11 := he'
  have hm := toNat_normal f
  simp only [UnpackedFloat.unpack, unpackSign_packComponents, Sign.ofBitVec_toBitVec, unpackExponent_packComponents,
    unpackMantissa_packComponents, he, he', ↓reduceIte, hm]
  rfl

theorem unpack_of_greatest (s : Sign) (f : BitVec 52) :
    UnpackedFloat.unpack Format.binary64 (bits s (-1) f) = if f = 0 then .infinity s else .notANumber := by
  simp only [UnpackedFloat.unpack, unpackSign_packComponents, Sign.ofBitVec_toBitVec, unpackExponent_packComponents,
    unpackMantissa_packComponents]
  rfl

/-- The bits of a number or of an infinity are packed from what they unpack to. -/
theorem pack_unpack_bits (he : e ≠ -1) :
    UnpackedFloat.pack Format.binary64 (UnpackedFloat.unpack Format.binary64 (bits s e f)) = bits s e f := by
  have he : e ≠ -1#11 := he
  rw [pack_unpack, if_neg]
  rw [isNaNBits, unpackExponent_packComponents, decide_eq_true_iff]
  exact fun h => he h.1

theorem pack_subnormal (hf : f ≠ 0) :
    UnpackedFloat.pack Format.binary64 (.finite s f.toNat (-1074) (toNat_pos hf)) = bits s 0 f := by
  rw [← unpack_subnormal hf]
  exact pack_unpack_bits (by decide)

theorem pack_normal (he : e ≠ 0) (he' : e ≠ -1) :
    UnpackedFloat.pack Format.binary64 (.finite s (2 ^ 52 + f.toNat) (e.toNat - 1075) (by omega)) = bits s e f := by
  rw [← unpack_normal he he']
  exact pack_unpack_bits he'

/-- The float that `u` is packed as. -/
def ofUnpacked (u : UnpackedFloat) : Float := .ofModel (.pack u)

/-- Every float is packed from what it unpacks to. -/
theorem ofUnpacked_unpack (x : Float) : ofUnpacked x.toModel.unpack = x := by
  obtain ⟨⟨b, hb⟩⟩ := x
  have hpack : UnpackedFloat.pack Format.binary64 (UnpackedFloat.unpack Format.binary64 b.toBitVec) = b.toBitVec :=
    pack_unpack_of_valid hb
  have hbits : UInt64.ofBitVec (UnpackedFloat.pack Format.binary64
      (UnpackedFloat.unpack Format.binary64 b.toBitVec)) = b := UInt64.toBitVec_inj.1 hpack
  rw [ofUnpacked, Float.Model.pack]
  congr

theorem unpack_ofUnpacked (u : UnpackedFloat) :
    (ofUnpacked u).toModel.unpack = UnpackedFloat.unpack Format.binary64 (UnpackedFloat.pack Format.binary64 u) :=
  rfl

variable {x : Float} {m : Nat} {q : Int} {hm : 0 < m}

/-- A float that unpacks to a number is normal or subnormal. -/
theorem exists_parts (h : x.toModel.unpack = .finite s m q hm) :
    ∃ e f, x.toModel.toBits.toBitVec = bits s e f ∧
      (e = 0 ∧ f ≠ 0 ∧ m = f.toNat ∧ q = -1074 ∨
        e ≠ 0 ∧ e ≠ -1 ∧ m = 2 ^ 52 + f.toNat ∧ q = e.toNat - 1075) := by
  obtain ⟨s', e, f, hb⟩ := exists_bits x.toModel.toBits.toBitVec
  have h : UnpackedFloat.unpack Format.binary64 x.toModel.toBits.toBitVec = .finite s m q hm := h
  rw [hb] at h
  refine ⟨e, f, ?_⟩
  by_cases he : e = 0
  · subst he
    by_cases hf : f = 0
    · subst hf
      rw [unpack_zero] at h
      cases h
    · rw [unpack_subnormal hf] at h
      cases h
      exact ⟨hb, .inl ⟨rfl, hf, rfl, rfl⟩⟩
  · by_cases he' : e = -1
    · subst he'
      rw [unpack_of_greatest] at h
      split at h <;> cases h
    · rw [unpack_normal he he'] at h
      cases h
      exact ⟨hb, .inr ⟨he, he', rfl, rfl⟩⟩

/-- A number has the exponent that it would be rounded to. -/
theorem target_of_unpack (h : x.toModel.unpack = .finite s m q hm) : Rounding.target m 1 q = q := by
  rw [Rounding.target_eq, Nat.div_one]
  obtain ⟨e, f, -, ⟨-, hf, rfl, rfl⟩ | ⟨he, -, rfl, rfl⟩⟩ := exists_parts h
  · have := log2_subnormal hf
    omega
  · have hpos : e.toNat ≠ 0 := by simpa [BitVec.toNat_eq] using he
    rw [log2_normal]
    omega

theorem ofUnpacked_of_unpack (h : x.toModel.unpack = .finite s m q hm) : ofUnpacked (.finite s m q hm) = x := by
  rw [← h, ofUnpacked_unpack]

theorem ofUnpacked_of_unpack_zero (h : x.toModel.unpack = .zero s) : ofUnpacked (.zero s) = x := by
  rw [← h, ofUnpacked_unpack]

/-- The same number with any sign unpacks to itself. -/
theorem unpack_withSign (h : x.toModel.unpack = .finite s m q hm) (s' : Sign) :
    (ofUnpacked (.finite s' m q hm)).toModel.unpack = .finite s' m q hm := by
  rw [unpack_ofUnpacked]
  obtain ⟨e, f, hb, ⟨rfl, hf, rfl, rfl⟩ | ⟨he, he', rfl, rfl⟩⟩ := exists_parts h
  · rw [pack_subnormal hf, unpack_subnormal hf]
  · rw [pack_normal he he', unpack_normal he he']

theorem abs_eq (h : x.toModel.unpack = .finite s m q hm) : x.abs = ofUnpacked (.finite .positive m q hm) := by
  show ofUnpacked x.toModel.unpack.abs = _
  rw [h]
  rfl

theorem neg_eq (h : x.toModel.unpack = .finite s m q hm) : -x = ofUnpacked (.finite (-s) m q hm) := by
  show ofUnpacked x.toModel.unpack.neg = _
  rw [h]
  rfl

theorem unpack_neg (h : x.toModel.unpack = .finite s m q hm) : (-x).toModel.unpack = .finite (-s) m q hm := by
  rw [neg_eq h]
  exact unpack_withSign h (-s)

/-- Is the float below zero, or the zero with a minus sign? -/
def isSigned (x : Float) : Bool :=
  match x.toModel.unpack with
  | .zero .negative | .finite .negative .. => true
  | _ => false

/-- A finite float is zero or a number with mantissa and exponent. -/
theorem isFinite_cases (h : x.isFinite) :
    (∃ s, x.toModel.unpack = .zero s) ∨ ∃ s m q hm, x.toModel.unpack = .finite s m q hm := by
  have h : x.toModel.unpack.isFinite := h
  cases hu : x.toModel.unpack with
  | notANumber | infinity => simp [hu, UnpackedFloat.isFinite] at h
  | zero s => exact .inl ⟨s, rfl⟩
  | finite s m q hm => exact .inr ⟨s, m, q, hm, rfl⟩

theorem neg_positive_zero : -ofUnpacked (.zero .positive) = ofUnpacked (.zero .negative) := by
  decide

theorem neg_negative_zero : -ofUnpacked (.zero .negative) = ofUnpacked (.zero .positive) := by
  decide

theorem abs_zero (s : UnpackedFloat.Sign) : (ofUnpacked (.zero s)).abs = ofUnpacked (.zero .positive) := by
  cases s <;> decide

/-- A finite float is its magnitude with its sign. -/
theorem eq_signed_abs (h : x.isFinite) : x = if isSigned x then -x.abs else x.abs := by
  rcases isFinite_cases h with ⟨s, hu⟩ | ⟨s, m, q, hm, hu⟩
  · rw [← ofUnpacked_of_unpack_zero hu, abs_zero, neg_positive_zero]
    cases s <;> rfl
  · have habs : x.abs.toModel.unpack = .finite .positive m q hm := by
      rw [abs_eq hu]
      exact unpack_withSign hu .positive
    cases s with
    | positive =>
      have hs : isSigned x = false := by simp [isSigned, hu]
      rw [hs, abs_eq hu, ofUnpacked_of_unpack hu]
      rfl
    | negative =>
      have hs : isSigned x = true := by simp [isSigned, hu]
      rw [hs, neg_eq habs]
      exact (ofUnpacked_of_unpack hu).symm

theorem unpack_neg_zero {s : UnpackedFloat.Sign} (h : x.toModel.unpack = .zero s) :
    (-x).toModel.unpack = .zero (-s) := by
  rw [← ofUnpacked_of_unpack_zero h]
  cases s <;> rfl

theorem isFinite_neg (h : x.isFinite) : (-x).isFinite := by
  show (-x).toModel.unpack.isFinite
  rcases isFinite_cases h with ⟨s, hu⟩ | ⟨s, m, q, hm, hu⟩
  · rw [unpack_neg_zero hu]
    rfl
  · rw [unpack_neg hu]
    rfl

theorem isSigned_neg (h : x.isFinite) : isSigned (-x) = !isSigned x := by
  rcases isFinite_cases h with ⟨s, hu⟩ | ⟨s, m, q, hm, hu⟩
  · rw [isSigned, isSigned, unpack_neg_zero hu, hu]
    cases s <;> rfl
  · rw [isSigned, isSigned, unpack_neg hu, hu]
    cases s <;> rfl

theorem abs_neg (h : x.isFinite) : (-x).abs = x.abs := by
  rcases isFinite_cases h with ⟨s, hu⟩ | ⟨s, m, q, hm, hu⟩
  · rw [← ofUnpacked_of_unpack_zero hu, abs_zero]
    cases s
    · rw [neg_negative_zero, abs_zero]
    · rw [neg_positive_zero, abs_zero]
  · rw [abs_eq hu, abs_eq (unpack_neg hu)]

end CaseSetup.FloatParts

namespace CaseSetup.FloatBits

open Float.Model Float.Model.UnpackedFloat

/-- A float is the number of its bits. -/
@[simp] theorem toFloat_ofFloat (x : Float) : (ofFloat x).toFloat = x := FloatParts.ofUnpacked_unpack x

/-- Bits are those of their number, unless that is a NaN. -/
theorem ofFloat_toFloat {x : FloatBits} (h : x.toFloat.isNaN = false) : ofFloat x.toFloat = x := by
  obtain ⟨b⟩ := x
  have h : (UnpackedFloat.unpack Format.binary64 (UnpackedFloat.pack Format.binary64
      (UnpackedFloat.unpack Format.binary64 b.toBitVec))).isNaN = false := h
  suffices hb : UnpackedFloat.pack Format.binary64 (UnpackedFloat.unpack Format.binary64 b.toBitVec) = b.toBitVec from
    congrArg FloatBits.mk (UInt64.toBitVec_inj.1 hb)
  rw [pack_unpack] at h ⊢
  split at h
  · exact absurd h (by decide)
  · rename_i hnan
    exact if_neg hnan

theorem ofFloat_toFloat_of_isFinite {x : FloatBits} (h : x.toFloat.isFinite) : ofFloat x.toFloat = x := by
  refine ofFloat_toFloat ?_
  show x.toFloat.toModel.unpack.isNaN = false
  rcases FloatParts.isFinite_cases h with ⟨s, hu⟩ | ⟨s, m, q, hm, hu⟩ <;> rw [hu] <;> rfl

/-- Bits that stand for one number are the same, or all of them stand for NaN. -/
theorem eq_or_isNaN_of_toFloat_eq {x y : FloatBits} (h : x.toFloat = y.toFloat) :
    x = y ∨ x.toFloat.isNaN ∧ y.toFloat.isNaN := by
  cases hx : x.toFloat.isNaN with
  | true => exact .inr ⟨rfl, h ▸ hx⟩
  | false => exact .inl (by rw [← ofFloat_toFloat hx, h, ofFloat_toFloat (h ▸ hx)])

end CaseSetup.FloatBits
