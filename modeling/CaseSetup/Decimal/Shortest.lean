import CaseSetup.Decimal.Basic

/-! # The fewest digits that read back

Given a positive number `m * 2 ^ q` and a test that says which decimals read back as it, `shortest`
tries one digit, two digits, up to seventeen: on each grid the two neighbours of the number, the
nearer first. If none reads back the exact digits are taken, so the result reads back whenever the
exact digits do (`readsBack_shortest`). -/

namespace CaseSetup.Decimal

/-- Which of two equally near neighbours is tried first. -/
inductive Tie
  | up
  | even
  deriving DecidableEq, Repr

/-- The exponent `k` with `10 ^ k ≤ num / den < 10 ^ (k + 1)`. -/
def decade (num den : Nat) : Int :=
  if den ≤ num then (Nat.toDigits 10 (num / den)).length - 1
  else -(Nat.toDigits 10 ((den - 1) / num)).length

/-- The multiples of `10 ^ e` next to `num / den`, the nearer first. -/
def neighbours (tie : Tie) (num den : Nat) (e : Int) : List Decimal :=
  let n := num * Nat.pow 10 (-e).toNat
  let d := den * Nat.pow 10 e.toNat
  let below := n / d
  let downFirst := match compare (2 * (n % d)) d, tie with
    | .lt, _ => true
    | .gt, _ => false
    | .eq, .up => false
    | .eq, .even => below % 2 = 0
  if downFirst then [strip ⟨below, e⟩, strip ⟨below + 1, e⟩]
  else [strip ⟨below + 1, e⟩, strip ⟨below, e⟩]

def shortest (tie : Tie) (readsBack : Decimal → Bool) (m : Nat) (q : Int) : Decimal :=
  let num := m * Nat.pow 2 q.toNat
  let den := Nat.pow 2 (-q).toNat
  let top := decade num den
  ((List.range 17).findSome? fun (i : Nat) => (neighbours tie num den (top - i)).find? readsBack).getD (exact m q)

theorem readsBack_shortest {tie : Tie} {readsBack : Decimal → Bool} {m : Nat} {q : Int}
    (h : readsBack (exact m q)) : readsBack (shortest tie readsBack m q) := by
  unfold shortest
  simp only
  cases hf : List.findSome? _ (List.range 17) with
  | none => exact h
  | some d =>
    obtain ⟨i, -, hi⟩ := List.exists_of_findSome?_eq_some hf
    exact List.find?_some hi

end CaseSetup.Decimal
