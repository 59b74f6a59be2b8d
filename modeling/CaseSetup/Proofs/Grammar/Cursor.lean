import CaseSetup.Grammar.Cursor
import CaseSetup.Proofs.Outcome

/-! # Seeing and taking

What is seen ahead is a token or the end of the text. A token that is seen is taken, unless malformed
text stands behind it; where the end is seen nothing is taken. -/

namespace CaseSetup

theorem Sight.code_unexpected (s : Sight) (x : Expected) : (s.unexpected x).code = some 201 ↔ s.token = none := by
  unfold unexpected
  cases s.token <;> simp

namespace Ending

variable {e : Ending} {t : Located} {ts us : Tokens}

/-- May the tokens `ts` lie ahead? None may, only if the text ends well. -/
def Ahead (e : Ending) (ts : Tokens) : Prop := e.resume ts = .ok ts

@[simp] theorem resume_eq_ok : e.resume ts = .ok us ↔ us = ts ∧ e.Ahead ts := by
  cases ts <;> cases e <;> simp [resume, Ahead, eq_comm]

theorem Ahead.clean (h : e.Ahead []) : ∃ p, e = .clean p := by
  cases e with
  | clean p => exact ⟨p, rfl⟩
  | malformed p m => simp [Ahead, resume] at h

@[simp] theorem ahead_cons (t : Located) : e.Ahead (t :: ts) := by
  cases e <;> rfl

theorem Ahead.append (h : e.Ahead us) (ts : Tokens) : e.Ahead (ts ++ us) := by
  cases ts with
  | nil => exact h
  | cons t ts => exact ahead_cons t

@[simp] theorem peek_nil : e.peek [] = none := rfl

@[simp] theorem peek_cons : e.peek (t :: ts) = some t.token := rfl

theorem peek_eq_none : e.peek ts = none ↔ ts = [] := by
  cases ts <;> simp

theorem peek_eq_some {k : Token} : e.peek ts = some k ↔ ∃ t us, ts = t :: us ∧ t.token = k := by
  cases ts <;> simp

/-- Nothing is taken at the end. -/
@[simp] theorem bump_nil : e.bump [] = .ok [] := rfl

@[simp] theorem bump_cons : e.bump (t :: ts) = e.resume ts := rfl

/-- One token is taken, or none where none is left. -/
theorem bump_eq_ok : e.bump ts = .ok us ↔ us = ts.tail ∧ (ts ≠ [] → e.Ahead us) := by
  cases ts with
  | nil => simp [eq_comm]
  | cons t ts =>
    rw [bump_cons, resume_eq_ok]
    constructor
    · rintro ⟨rfl, ha⟩
      exact ⟨rfl, fun _ => ha⟩
    · rintro ⟨rfl, ha⟩
      exact ⟨rfl, ha (List.cons_ne_nil _ _)⟩

@[simp] theorem expect_eq_ok {k : Token} {x : Expected} :
    e.expect k x ts = .ok us ↔ ∃ t, ts = t :: us ∧ t.token = k ∧ e.Ahead us := by
  unfold expect
  cases ts with
  | nil => simp
  | cons t ts =>
    by_cases h : t.token = k
    · simp only [peek_cons, h, if_true, bump_cons, resume_eq_ok, List.cons.injEq]
      constructor
      · rintro ⟨rfl, ha⟩
        exact ⟨t, ⟨rfl, rfl⟩, h, ha⟩
      · rintro ⟨_, ⟨-, rfl⟩, -, ha⟩
        exact ⟨rfl, ha⟩
    · simp [h]

end Ending

end CaseSetup
