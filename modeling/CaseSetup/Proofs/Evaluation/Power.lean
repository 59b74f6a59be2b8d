import CaseSetup.Proofs.Outcome
import CaseSetup.Scope
import Mathlib.Algebra.Order.Ring.Int
import Mathlib.Algebra.Ring.Parity

/-! # Integer powers

A power of integers with an exponent that is not negative is exact, or an overflow. It is an overflow
if it needs more than 64 bits, and for the bases with powers that never grow also if the exponent
needs more than 32 bits. -/

namespace CaseSetup

namespace Arithmetic

theorem fit?_eq_some_iff {i : Int} {n : Int64} : fit? i = some n ↔ n.toInt = i := by
  unfold fit?
  split
  · rename_i h
    obtain ⟨hlo, hhi⟩ := h
    rw [Int64.toInt_minValue] at hlo
    rw [Int64.toInt_maxValue] at hhi
    have hi : (Int64.ofInt i).toInt = i := Int64.toInt_ofInt_of_le hlo (Int.lt_of_le_sub_one hhi)
    rw [Option.some.injEq, ← Int64.toInt_inj, hi, eq_comm]
  · rename_i h
    simp only [reduceCtorEq, false_iff]
    rintro rfl
    exact h ⟨n.minValue_le_toInt, n.toInt_le⟩

/-- The powers of such a base repeat after the first two. -/
theorem pow_of_natAbs_le_one {a : Int} (ha : a.natAbs ≤ 1) (n : Nat) : a ^ min n (2 - n % 2) = a ^ n := by
  rcases n.eq_zero_or_pos with rfl | hn
  · rfl
  obtain rfl | rfl | rfl : a = 0 ∨ a = 1 ∨ a = -1 := by omega
  · rw [zero_pow (by omega), zero_pow (by omega)]
  · rw [one_pow, one_pow]
  · rcases n.even_or_odd with h | h
    · have hmin : min n (2 - n % 2) = 2 := by have := Nat.even_iff.1 h; omega
      rw [hmin, h.neg_one_pow, even_two.neg_one_pow]
    · have hmin : min n (2 - n % 2) = 1 := by have := Nat.odd_iff.1 h; omega
      rw [hmin, h.neg_one_pow, pow_one]

/-- No other base has a power from the 64th on that fits. -/
theorem ne_pow_of_two_le {a : Int} (ha : 2 ≤ a.natAbs) {n : Nat} (hn : 64 ≤ n) (m : Int64) : m.toInt ≠ a ^ n := by
  intro h
  have hpow : 2 ^ 64 ≤ m.toInt.natAbs := by
    rw [h, Int.natAbs_pow]
    calc 2 ^ 64 ≤ 2 ^ n := Nat.pow_le_pow_right (by decide) hn
      _ ≤ a.natAbs ^ n := Nat.pow_le_pow_left ha n
  have hlo := m.le_toInt
  have hhi := m.toInt_lt
  omega

theorem power?_fit?_eq_some_iff {a : Int} {n : Nat} {m : Int64} :
    (power? a n).bind fit? = some m ↔ m.toInt = a ^ n := by
  unfold power?
  split
  · rename_i ha
    have hpow : Int.pow a (min n (2 - n % 2)) = a ^ n := pow_of_natAbs_le_one ha n
    rw [Option.bind_some, fit?_eq_some_iff, hpow]
  split
  · exact fit?_eq_some_iff
  · rename_i ha hn
    simp only [Option.bind_none, reduceCtorEq, false_iff]
    exact ne_pow_of_two_le (by omega) (by omega) m

/-- The powers the evaluator refuses although they fit: those of `-1`, `0` and `1` to an exponent of
more than 32 bits. -/
def BeyondExponent (a b : Int64) : Prop := maxExponent < b.toInt ∧ a.toInt.natAbs ≤ 1

theorem intOp_pow_eq_ok_iff {a b : Int64} (hb : 0 ≤ b.toInt) {w : Value} :
    intOp .pow a b = .ok w ↔
      ∃ n : Int64, w = .int n ∧ n.toInt = a.toInt ^ b.toInt.toNat ∧ ¬BeyondExponent a b := by
  have hnonneg : ¬b.toInt < 0 := Int.not_lt.2 hb
  simp only [intOp, if_neg hnonneg]
  split
  · rename_i hle
    have hwithin : ¬BeyondExponent a b := fun h => Int.not_lt.2 hle h.1
    cases hfit : (power? a.toInt b.toInt.toNat).bind fit? with
    | some m =>
      have hm := power?_fit?_eq_some_iff.1 hfit
      simp only [Except.ok.injEq]
      constructor
      · rintro rfl
        exact ⟨m, rfl, hm, hwithin⟩
      · rintro ⟨n, rfl, hn, -⟩
        rw [Int64.toInt_inj.1 (hm.trans hn.symm)]
    | none =>
      simp only [reduceCtorEq, false_iff]
      rintro ⟨n, -, hn, -⟩
      rw [power?_fit?_eq_some_iff.2 hn] at hfit
      cases hfit
  · rename_i hgt
    have hgt' : maxExponent < b.toInt := Int.not_le.1 hgt
    simp only [reduceCtorEq, false_iff]
    rintro ⟨n, -, hn, hwithin⟩
    have ha : 2 ≤ a.toInt.natAbs := Nat.lt_of_not_le fun ha => hwithin ⟨hgt', ha⟩
    have hexp : 64 ≤ b.toInt.toNat := by unfold maxExponent at hgt'; omega
    exact ne_pow_of_two_le ha hexp n hn

/-- An integer power fails in one way only. -/
theorem eq_overflow_of_intOp_pow {a b : Int64} (hb : 0 ≤ b.toInt) {f : Fault} (h : intOp .pow a b = .error f) :
    f = .overflow a .pow b := by
  have hnonneg : ¬b.toInt < 0 := Int.not_lt.2 hb
  simp only [intOp, if_neg hnonneg] at h
  split at h
  · split at h
    · cases h
    · exact (Except.error.inj h).symm
  · exact (Except.error.inj h).symm

end Arithmetic

namespace Value

open Arithmetic

variable {root here : Site} {enter : Site → String → Except Fault Value} {p : Place} {l r : Value} {a b : Int64}

/-- Wherever it stands, a power whose operands have integer values, the exponent not negative, has the
exact integer as its value if that fits 64 bits, and is an overflow if not; apart from the bases of
magnitude one at most, which are refused any exponent of more than 32 bits. -/
theorem evaluateWith_pow (hl : l.evaluateWith root here enter (.left :: p) = .ok (.int a))
    (hr : r.evaluateWith root here enter (.right :: p) = .ok (.int b)) (hb : 0 ≤ b.toInt) :
    (∀ w, (binary .pow l r).evaluateWith root here enter p = .ok w ↔
      ∃ n : Int64, w = .int n ∧ n.toInt = a.toInt ^ b.toInt.toNat ∧ ¬BeyondExponent a b) ∧
    ∀ f, (binary .pow l r).evaluateWith root here enter p = .error f ↔
      f = .overflow a .pow b ∧ ((∀ n : Int64, n.toInt ≠ a.toInt ^ b.toInt.toNat) ∨ BeyondExponent a b) := by
  have heval : (binary .pow l r).evaluateWith root here enter p = intOp .pow a b := by
    rw [evaluateWith, hl, hr]
    rfl
  rw [heval]
  refine ⟨fun w => intOp_pow_eq_ok_iff hb, fun f => ⟨fun h => ⟨eq_overflow_of_intOp_pow hb h, ?_⟩, ?_⟩⟩
  · by_contra hne
    push Not at hne
    obtain ⟨⟨n, hn⟩, hwithin⟩ := hne
    rw [(intOp_pow_eq_ok_iff hb).2 ⟨n, rfl, hn, hwithin⟩] at h
    cases h
  · rintro ⟨rfl, hnone⟩
    cases hpow : intOp .pow a b with
    | error f => rw [eq_overflow_of_intOp_pow hb hpow]
    | ok w =>
      obtain ⟨n, -, hn, hwithin⟩ := (intOp_pow_eq_ok_iff hb).1 hpow
      rcases hnone with hnone | hbeyond
      · exact absurd hn (hnone n)
      · exact absurd hbeyond hwithin

/-- The least integer of all is a power, the next power of its base is not an integer of 64 bits, an odd
power of minus one has the greatest exponent there is, and a power of one is refused beyond it. -/
theorem evaluateWith_pow_boundary :
    let s : Scope := Block.scope []
    s.evaluate (.binary .pow (.int (-2)) (.int 63)) = .ok (.int Int64.minValue) ∧
    s.evaluate (.binary .pow (.int (-2)) (.int 64)) = .error (.overflow (-2) .pow 64) ∧
    s.evaluate (.binary .pow (.int (-1)) (.int 4294967295)) = .ok (.int (-1)) ∧
    s.evaluate (.binary .pow (.int 1) (.int 4294967296)) = .error (.overflow 1 .pow 4294967296) := by
  intro s
  have hself (n : Int64) (p : Place) : (int n).evaluateWith (.root s.root) s.site
      (evaluateBinding (.root s.root) [] (s.root.refs ++ [])) p = .ok (.int n) := rfl
  have hpow (a b : Int64) (hb : 0 ≤ b.toInt) :=
    evaluateWith_pow (hself a [.left, .loose]) (hself b [.right, .loose]) hb
  refine ⟨((hpow _ _ (by decide)).1 _).2 ?_, ((hpow _ _ (by decide)).2 _).2 ?_, ((hpow _ _ (by decide)).1 _).2 ?_,
    ((hpow _ _ (by decide)).2 _).2 ?_⟩
  · exact ⟨_, rfl, by decide, by unfold BeyondExponent; decide⟩
  · exact ⟨rfl, .inl fun n => ne_pow_of_two_le (by decide) (by decide) n⟩
  · refine ⟨_, rfl, ?_, by unfold BeyondExponent; decide⟩
    have hodd : Odd (4294967295 : Nat) := by decide
    exact hodd.neg_one_pow.symm
  · exact ⟨rfl, .inr ⟨by decide, by decide⟩⟩

end Value

end CaseSetup
