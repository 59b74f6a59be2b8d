import CaseSetup.Proofs.Evaluation.Correctness
import CaseSetup.Proofs.Evaluation.Derivation
import CaseSetup.Proofs.Evaluation.Power

/-! # Exact integers

A value that is evaluated to a number stands for a formula: the value with each reference replaced by
what its binding stands for. Main statement: a value has an integer result exactly if its formula is
made of nothing but integers, signs, sums, differences, products and powers, and no part of it leaves
64 bits; the result is then what the formula gives in the integers, where nothing wraps or rounds. -/

namespace CaseSetup

/-- Arithmetic without references. -/
inductive Formula
  | int (n : Int64)
  | float (x : Float)
  | neg (operand : Formula)
  | binary (op : Op) (left right : Formula)

/-- The formula of a value that is written in the block `here`. A name stands for its binding in that
block or else for the one in the root. -/
inductive Unfolds (root : Block) : Block → Value → Formula → Prop
  | int {here : Block} (n : Int64) : Unfolds root here (.int n) (.int n)
  | float {here : Block} (x : Float) : Unfolds root here (.float x) (.float x)
  | neg {here : Block} {v : Value} {e : Formula} : Unfolds root here v e → Unfolds root here (.neg v) (.neg e)
  | binary {here : Block} {op : Op} {l r : Value} {d e : Formula} :
    Unfolds root here l d → Unfolds root here r e → Unfolds root here (.binary op l r) (.binary op d e)
  | near {here : Block} {name : String} {v : Value} {e : Formula} :
    here.lookup name = some v → Unfolds root here v e → Unfolds root here (.var name) e
  | far {here : Block} {name : String} {v : Value} {e : Formula} :
    here.lookup name = none → root.lookup name = some v → Unfolds root root v e →
      Unfolds root here (.var name) e

/-- The result on integers of any size. A quotient is not taken in the integers, nor is a power with a
negative exponent. -/
def Op.integer? : Op → Int → Int → Option Int
  | add, i, j => some (i + j)
  | sub, i, j => some (i - j)
  | mul, i, j => some (i * j)
  | div, _, _ => none
  | pow, i, j => if 0 ≤ j then some (i ^ j.toNat) else none

namespace Formula

/-- What the formula gives in the integers, which have no bounds there. -/
def integer? : Formula → Option Int
  | int n => some n.toInt
  | float _ => none
  | neg e => e.integer?.map (- ·)
  | binary op l r => do op.integer? (← l.integer?) (← r.integer?)

/-- The formula and all the formulas it is made of. -/
def parts : Formula → List Formula
  | int n => [int n]
  | float x => [float x]
  | neg e => neg e :: e.parts
  | binary op l r => binary op l r :: (l.parts ++ r.parts)

/-- The last step of the formula is one on integers, and its result has 64 bits. -/
structure StaysInteger (e : Formula) : Prop where
  not_float : ∀ x, e ≠ float x
  not_quotient : ∀ l r, e ≠ binary .div l r
  exponent : ∀ l r, e = binary .pow l r → ∃ j, r.integer? = some j ∧ 0 ≤ j
  fits : ∃ i, e.integer? = some i ∧ -2 ^ 63 ≤ i ∧ i < 2 ^ 63

/-- The formula is a power that is refused for its exponent alone. -/
def Refused (e : Formula) : Prop :=
  ∃ l r, ∃ a b : Int64, e = binary .pow l r ∧ l.integer? = some a.toInt ∧ r.integer? = some b.toInt ∧
    Arithmetic.BeyondExponent a b

/-- The formula gives `n` in the integers, and each of its parts is integer arithmetic that stays in
64 bits and is not refused. -/
structure Computes (e : Formula) (n : Int64) : Prop where
  exact : e.integer? = some n.toInt
  parts : ∀ f ∈ e.parts, f.StaysInteger
  allowed : ∀ f ∈ e.parts, ¬f.Refused

variable {e l r : Formula} {op : Op}

theorem self_mem_parts (e : Formula) : e ∈ e.parts := by
  cases e <;> exact List.mem_cons_self

theorem integer?_binary_eq_some {i : Int} : (binary op l r).integer? = some i ↔
    ∃ a b, l.integer? = some a ∧ r.integer? = some b ∧ op.integer? a b = some i := by
  simp [integer?, Option.bind_eq_some_iff]

/-- What has a value in the integers has nothing else in its last step. -/
theorem StaysInteger.of_integer? {n : Int64} (h : e.integer? = some n.toInt) : e.StaysInteger where
  not_float x := by
    rintro rfl
    cases h
  not_quotient l r := by
    rintro rfl
    obtain ⟨a, b, -, -, hop⟩ := integer?_binary_eq_some.1 h
    cases hop
  exponent l r := by
    rintro rfl
    obtain ⟨a, b, -, hb, hop⟩ := integer?_binary_eq_some.1 h
    refine ⟨b, hb, ?_⟩
    by_contra hneg
    simp [Op.integer?, hneg] at hop
  fits := ⟨n.toInt, h, n.le_toInt, n.toInt_lt⟩

end Formula

namespace Arithmetic

theorem negate_eq_int_iff {v : Value} {n : Int64} :
    negate v = .ok (.int n) ↔ ∃ a : Int64, v = .int a ∧ n.toInt = -a.toInt := by
  cases v with
  | int a =>
    rw [negate]
    split
    · rename_i m hm
      have hm : m.toInt = -a.toInt := fit?_eq_some_iff.1 hm
      constructor
      · rintro ⟨rfl⟩
        exact ⟨a, rfl, hm⟩
      · rintro ⟨_, ⟨rfl⟩, hn⟩
        rw [Int64.toInt_inj.1 (hm.trans hn.symm)]
    · rename_i hnone
      simp only [reduceCtorEq, false_iff, not_exists, not_and]
      rintro _ ⟨rfl⟩ hn
      cases hnone.symm.trans (fit?_eq_some_iff.2 hn)
  | _ => simp [negate]

theorem float_ne_int {x : Except Fault Float} {n : Int64} : x.map Value.float ≠ .ok (.int n) := by
  cases x <;> simp [Except.map]

theorem intOp_eq_int_iff {op : Op} {a b n : Int64} : intOp op a b = .ok (.int n) ↔
    op.integer? a.toInt b.toInt = some n.toInt ∧ ¬(op = .pow ∧ BeyondExponent a b) := by
  cases op with
  | add | sub | mul =>
    simp only [intOp, Option.bind_some, Op.integer?, Option.some.injEq, reduceCtorEq, false_and, not_false_eq_true,
      and_true]
    split
    · rename_i m hm
      rw [← fit?_eq_some_iff.1 hm, Except.ok.injEq, Value.int.injEq, Int64.toInt_inj]
    · rename_i hnone
      simp only [reduceCtorEq, false_iff]
      intro hi
      cases hnone.symm.trans (fit?_eq_some_iff.2 hi.symm)
  | div => simpa [intOp, Op.integer?] using float_ne_int
  | pow =>
    rcases Int.lt_or_le b.toInt 0 with hb | hb
    · simpa [intOp, hb, Op.integer?, Int.not_le.2 hb] using float_ne_int
    · rw [intOp_pow_eq_ok_iff hb]
      simp [Op.integer?, hb, eq_comm]

theorem apply_eq_int_iff {op : Op} {l r : Value} {n : Int64} : apply op l r = .ok (.int n) ↔
    ∃ a b : Int64, l = .int a ∧ r = .int b ∧ op.integer? a.toInt b.toInt = some n.toInt ∧
      ¬(op = .pow ∧ BeyondExponent a b) := by
  unfold apply
  split
  · rename_i a b
    rw [intOp_eq_int_iff]
    simp
  · rename_i hne
    simp only [Outcome.bind_eq_ok, Outcome.pure_eq_ok, reduceCtorEq, and_false, exists_false, false_iff]
    rintro ⟨a, b, rfl, rfl, -⟩
    exact hne a b rfl rfl

end Arithmetic

namespace Formula.Computes

variable {e l r : Formula} {op : Op} {n : Int64}

/-- Where each part stays in the integers, there is an integer that is computed. -/
theorem of_parts (h : ∀ f ∈ e.parts, f.StaysInteger ∧ ¬f.Refused) : ∃ n : Int64, e.Computes n := by
  obtain ⟨i, hi, hlo, hhi⟩ := (h e e.self_mem_parts).1.fits
  have hn : e.integer? = some (Int64.ofInt i).toInt := by rw [hi, Int64.toInt_ofInt_of_le hlo hhi]
  exact ⟨.ofInt i, hn, fun f hf => (h f hf).1, fun f hf => (h f hf).2⟩

theorem int (n : Int64) : (Formula.int n).Computes n where
  exact := rfl
  parts := List.forall_mem_singleton.2 (.of_integer? rfl)
  allowed := List.forall_mem_singleton.2 (by rintro ⟨l, r, a, b, ⟨⟩, -⟩)

theorem neg_iff : (Formula.neg e).Computes n ↔ ∃ a, e.Computes a ∧ n.toInt = -a.toInt := by
  constructor
  · rintro ⟨hn, hparts, hallowed⟩
    obtain ⟨a, ha⟩ := of_parts (e := e) fun f hf =>
      ⟨hparts f (List.mem_cons_of_mem _ hf), hallowed f (List.mem_cons_of_mem _ hf)⟩
    rw [integer?, ha.exact] at hn
    exact ⟨a, ha, (Option.some.inj hn).symm⟩
  · rintro ⟨a, ha, hn⟩
    have hneg : (Formula.neg e).integer? = some n.toInt := by
      rw [integer?, ha.exact, hn]
      rfl
    refine ⟨hneg, List.forall_mem_cons.2 ⟨.of_integer? hneg, ha.parts⟩,
      List.forall_mem_cons.2 ⟨?_, ha.allowed⟩⟩
    rintro ⟨l, r, a, b, ⟨⟩, -⟩

theorem binary_iff : (Formula.binary op l r).Computes n ↔
    ∃ a b, l.Computes a ∧ r.Computes b ∧ op.integer? a.toInt b.toInt = some n.toInt ∧
      ¬(op = .pow ∧ Arithmetic.BeyondExponent a b) := by
  constructor
  · rintro ⟨hn, hparts, hallowed⟩
    obtain ⟨-, hparts⟩ := List.forall_mem_cons.1 hparts
    obtain ⟨hself, hrest⟩ := List.forall_mem_cons.1 hallowed
    obtain ⟨hl, hr⟩ := List.forall_mem_append.1 hparts
    obtain ⟨hl', hr'⟩ := List.forall_mem_append.1 hrest
    obtain ⟨a, ha⟩ := of_parts fun f hf => ⟨hl f hf, hl' f hf⟩
    obtain ⟨b, hb⟩ := of_parts fun f hf => ⟨hr f hf, hr' f hf⟩
    obtain ⟨i, j, hi, hj, hop⟩ := integer?_binary_eq_some.1 hn
    obtain rfl : a.toInt = i := Option.some.inj (ha.exact.symm.trans hi)
    obtain rfl : b.toInt = j := Option.some.inj (hb.exact.symm.trans hj)
    refine ⟨a, b, ha, hb, hop, ?_⟩
    rintro ⟨rfl, hbeyond⟩
    exact hself ⟨l, r, a, b, rfl, hi, hj, hbeyond⟩
  · rintro ⟨a, b, ha, hb, hop, hwithin⟩
    have hn : (Formula.binary op l r).integer? = some n.toInt :=
      integer?_binary_eq_some.2 ⟨_, _, ha.exact, hb.exact, hop⟩
    refine ⟨hn, List.forall_mem_cons.2 ⟨.of_integer? hn, List.forall_mem_append.2 ⟨ha.parts, hb.parts⟩⟩,
      List.forall_mem_cons.2 ⟨?_, List.forall_mem_append.2 ⟨ha.allowed, hb.allowed⟩⟩⟩
    rintro ⟨_, _, i, j, ⟨⟩, hi, hj, hbeyond⟩
    obtain rfl : a = i := Int64.toInt_inj.1 (Option.some.inj (ha.exact.symm.trans hi))
    obtain rfl : b = j := Int64.toInt_inj.1 (Option.some.inj (hb.exact.symm.trans hj))
    exact hwithin ⟨rfl, hbeyond⟩

end Formula.Computes

section

variable {root here : Block} {v w : Value} {d e : Formula} {n : Int64}

/-- A value stands for one formula. -/
theorem Unfolds.unique (hd : Unfolds root here v d) (he : Unfolds root here v e) : d = e := by
  induction hd generalizing e with
  | int n | float x => cases he; rfl
  | neg _ ih =>
    cases he with
    | neg he => rw [ih he]
  | binary _ _ ihl ihr =>
    cases he with
    | binary hl hr => rw [ihl hl, ihr hr]
  | near hl _ ih =>
    cases he with
    | near hl' he =>
      obtain rfl := Option.some.inj (hl.symm.trans hl')
      exact ih he
    | far hn => cases hl.symm.trans hn
  | far hn hl _ ih =>
    cases he with
    | near hl' => cases hn.symm.trans hl'
    | far _ hl' he =>
      obtain rfl := Option.some.inj (hl.symm.trans hl')
      exact ih he

/-- What a value means, if it is an integer, its formula computes: no operator makes an integer of a
float. -/
theorem Means.exists_formula (h : Means root here v w) (hw : w = .int n) :
    ∃ e, Unfolds root here v e ∧ e.Computes n := by
  induction h using Means.induction generalizing n with
  | bool | float | str | list | tuple | dict | block => cases hw
  | int here m =>
    cases hw
    exact ⟨.int m, .int m, .int m⟩
  | neg here v a w _ hop ih =>
    subst hw
    obtain ⟨a, rfl, hn⟩ := Arithmetic.negate_eq_int_iff.1 hop
    obtain ⟨e, he, ha⟩ := ih rfl
    exact ⟨.neg e, .neg he, Formula.Computes.neg_iff.2 ⟨a, ha, hn⟩⟩
  | binary here op l r a b w _ _ hop ihl ihr =>
    subst hw
    obtain ⟨a, b, rfl, rfl, hn⟩ := Arithmetic.apply_eq_int_iff.1 hop
    obtain ⟨d, hd, ha⟩ := ihl rfl
    obtain ⟨e, he, hb⟩ := ihr rfl
    exact ⟨.binary op d e, .binary hd he, Formula.Computes.binary_iff.2 ⟨a, b, ha, hb, hn⟩⟩
  | near here name v w hl _ ih =>
    obtain ⟨e, he, hn⟩ := ih hw
    exact ⟨e, .near hl he, hn⟩
  | far here name v w hnone hl _ ih =>
    obtain ⟨e, he, hn⟩ := ih hw
    exact ⟨e, .far hnone hl he, hn⟩

theorem Unfolds.means (h : Unfolds root here v e) (he : e.Computes n) : Means root here v (.int n) := by
  induction h generalizing n with
  | int m =>
    obtain rfl : m = n := Int64.toInt_inj.1 (Option.some.inj he.exact)
    exact .int m
  | float x => cases he.exact
  | neg _ ih =>
    obtain ⟨a, ha, hn⟩ := Formula.Computes.neg_iff.1 he
    exact .neg (ih ha) (Arithmetic.negate_eq_int_iff.2 ⟨a, rfl, hn⟩)
  | binary _ _ ihl ihr =>
    obtain ⟨a, b, ha, hb, hn⟩ := Formula.Computes.binary_iff.1 he
    exact .binary (ihl ha) (ihr hb) (Arithmetic.apply_eq_int_iff.2 ⟨a, b, rfl, rfl, hn⟩)
  | near hl _ ih => exact .near hl (ih he)
  | far hn hl _ ih => exact .far hn hl (ih he)

theorem means_int_iff : Means root here v (.int n) ↔ ∃ e, Unfolds root here v e ∧ e.Computes n :=
  ⟨fun h => h.exists_formula rfl, fun ⟨_, he, hn⟩ => he.means hn⟩

end

namespace Scope

/-- A value stands for one formula at most. An integer is the result exactly if it is what the formula
gives in the integers, where the formula and all its parts stay in 64 bits and have no float, no
quotient and no negative exponent. So it is for the bindings of the scope. -/
theorem evaluates_int_iff (s : Scope) (hr : s.root.isKeyed) :
    (∀ v d e, Unfolds s.root s.block v d → Unfolds s.root s.block v e → d = e) ∧
    (∀ v n, v.isKeyed → (s.evaluate v = .ok (.int n) ↔ ∃ e, Unfolds s.root s.block v e ∧ e.Computes n)) ∧
    ∀ name n, s.value name = .ok (.int n) ↔
      ∃ v, s.block.lookup name = some v ∧ ∃ e, Unfolds s.root s.block v e ∧ e.Computes n := by
  refine ⟨fun v d e hd he => hd.unique he, fun v n hv => ?_, fun name n => ?_⟩
  · rw [evaluate_eq_ok_iff hr hv, means_int_iff]
  · rw [value_eq_ok_iff hr]
    exact exists_congr fun v => and_congr_right fun _ => means_int_iff

/-- The least integer of all as a power, with its base from the block and its exponent from the root;
and the root cannot negate it, nor does it get an integer out of a half and a half. -/
theorem evaluates_int_iff_boundary :
    let m : Block := [("n", .int (-2)), ("x", .binary .pow (.var "n") (.binary .add (.var "k") (.int 60)))]
    let root : Block := [("n", .int 3), ("k", .var "n"), ("m", .block m), ("h", .float 0.5)]
    let s : Scope := ⟨root, ["m"], m, rfl⟩
    let e : Formula := .binary .pow (.int (-2)) (.binary .add (.int 3) (.int 60))
    root.isKeyed ∧ s.value "x" = .ok (.int Int64.minValue) ∧
      Unfolds root m (.binary .pow (.var "n") (.binary .add (.var "k") (.int 60))) e ∧ e.Computes Int64.minValue ∧
      (∀ n, s.evaluate (.neg (.var "x")) ≠ .ok (.int n)) ∧
      ∀ n, s.evaluate (.binary .add (.var "h") (.var "h")) ≠ .ok (.int n) := by
  intro m root s e
  have hr : root.isKeyed := by decide
  obtain ⟨hunique, hevaluate, hvalue⟩ := evaluates_int_iff s hr
  have hx : s.value "x" = .ok (.int Int64.minValue) := by with_unfolding_all rfl
  have he : Unfolds root m (.binary .pow (.var "n") (.binary .add (.var "k") (.int 60))) e :=
    .binary (.near rfl (.int _)) (.binary (.far rfl rfl (.near rfl (.int _))) (.int _))
  obtain ⟨v, hl, d, hd, hcomputes⟩ := (hvalue "x" Int64.minValue).1 hx
  cases hl
  obtain rfl : d = e := hunique _ _ _ hd he
  refine ⟨hr, hx, he, hcomputes, fun n hn => ?_, fun n hn => ?_⟩
  · obtain ⟨c, hc, hn⟩ := (hevaluate _ n rfl).1 hn
    obtain rfl := hunique _ _ _ hc (.neg (.near rfl he))
    have htwo : 2 ^ 63 = n.toInt := Option.some.inj hn.exact
    have hlt := n.toInt_lt
    omega
  · obtain ⟨c, hc, hn⟩ := (hevaluate _ n rfl).1 hn
    have hhalf : Unfolds root m (.var "h") (.float 0.5) := .far rfl rfl (.float _)
    obtain rfl := hunique _ _ _ hc (.binary hhalf hhalf)
    cases hn.exact

end Scope

end CaseSetup
