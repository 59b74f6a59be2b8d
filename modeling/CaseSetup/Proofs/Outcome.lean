import CaseSetup.Fault

/-! # Outcomes

A run of `Except` steps succeeds exactly when every step does. Two runs are alike if both succeed
with related results or neither does; they agree if, besides, their faults are of one kind and code. -/

namespace CaseSetup

namespace Cause

inductive Kind
  | lexical
  | unexpected
  | duplicateName
  | missingName
  | wrongType
  | badValue
  | file
  deriving DecidableEq

def kind : Cause → Kind
  | lexical .. => .lexical
  | unexpected .. => .unexpected
  | duplicateName _ => .duplicateName
  | missingName _ => .missingName
  | wrongType _ => .wrongType
  | badValue _ => .badValue
  | file .. => .file

end Cause

namespace Outcome

section

variable {ε α β : Type}

@[simp] theorem bind_eq_ok {x : Except ε α} {f : α → Except ε β} {b : β} :
    x >>= f = .ok b ↔ ∃ a, x = .ok a ∧ f a = .ok b := by
  cases x <;> simp [bind, Except.bind]

theorem bind_eq_error {x : Except ε α} {f : α → Except ε β} {err : ε} :
    x >>= f = .error err ↔ x = .error err ∨ ∃ a, x = .ok a ∧ f a = .error err := by
  cases x <;> simp [bind, Except.bind]

/-- The fault of a run, if it has one. Unlike the run itself, it can be compared. -/
def fault? : Except ε α → Option ε
  | .ok _ => none
  | .error err => some err

theorem fault?_eq_none {x : Except ε α} : fault? x = none ↔ ∃ a, x = .ok a := by
  cases x <;> simp [fault?]

theorem fault?_eq_some {x : Except ε α} {err : ε} : fault? x = some err ↔ x = .error err := by
  cases x <;> simp [fault?]

/-- The first step that fails is the one whose fault is seen. -/
theorem fault?_bind {x : Except ε α} {f : α → Except ε β} {err : Option ε} (h : ∀ a, fault? (f a) = err) :
    fault? (x >>= f) = (fault? x).or err := by
  cases x with
  | ok a => exact h a
  | error e => rfl

@[simp] theorem fault?_map {x : Except ε α} {f : α → β} : fault? (f <$> x) = fault? x := by
  cases x <;> rfl

@[simp] theorem map_eq_ok {x : Except ε α} {f : α → β} {b : β} :
    f <$> x = .ok b ↔ ∃ a, x = .ok a ∧ f a = b := by
  cases x <;> simp [Functor.map, Except.map]

theorem map_eq_error {x : Except ε α} {f : α → β} {err : ε} : f <$> x = .error err ↔ x = .error err := by
  cases x <;> simp [Functor.map, Except.map]

@[simp] theorem pure_eq_ok {a b : α} : (pure a : Except ε α) = .ok b ↔ a = b := by
  simp [pure, Except.pure]

end

/-- Every fault the run can end with is a `P`. -/
structure OnlyFails {ε α : Type} (P : ε → Prop) (x : Except ε α) : Prop where
  of_error {err : ε} : x = .error err → P err

namespace OnlyFails

variable {ε α β : Type} {P : ε → Prop} {x : Except ε α}

theorem ok (a : α) : OnlyFails P (.ok a : Except ε α) := ⟨fun h => nomatch h⟩

theorem error {err : ε} (h : P err) : OnlyFails P (.error err : Except ε α) := by
  constructor
  rintro _ ⟨rfl⟩
  exact h

theorem weaken {Q : ε → Prop} (hx : OnlyFails P x) (h : ∀ err, P err → Q err) : OnlyFails Q x :=
  ⟨fun herr => h _ (hx.of_error herr)⟩

theorem bind_of_eq {f : α → Except ε β} (hx : OnlyFails P x) (hf : ∀ a, x = .ok a → OnlyFails P (f a)) :
    OnlyFails P (x >>= f) := by
  constructor
  intro err h
  rcases bind_eq_error.1 h with h | ⟨a, ha, h⟩
  · exact hx.of_error h
  · exact (hf a ha).of_error h

theorem bind {f : α → Except ε β} (hx : OnlyFails P x) (hf : ∀ a, OnlyFails P (f a)) : OnlyFails P (x >>= f) :=
  hx.bind_of_eq fun a _ => hf a

theorem map {f : α → β} (hx : OnlyFails P x) : OnlyFails P (f <$> x) := by
  cases x with
  | ok a => exact ok (f a)
  | error e => exact error (hx.of_error rfl)

theorem mapM {f : α → Except ε β} {as : List α} (h : ∀ a ∈ as, OnlyFails P (f a)) : OnlyFails P (as.mapM f) := by
  induction as with
  | nil => exact ok []
  | cons a as ih =>
    obtain ⟨ha, has⟩ := List.forall_mem_cons.1 h
    rw [List.mapM_cons]
    exact ha.bind fun b => (ih has).map

end OnlyFails

/-- A result of one side is related by `r` to a result of the other. Nothing is said about faults. -/
def Alike {ε α β : Type} (r : α → β → Prop) (x : Except ε α) (y : Except ε β) : Prop :=
  (∀ a, x = .ok a → ∃ b, y = .ok b ∧ r a b) ∧ ∀ b, y = .ok b → ∃ a, x = .ok a ∧ r a b

/-- Both succeed with results related by `r`, or both fail alike. -/
inductive Agree {α β : Type} (r : α → β → Prop) : Except Fault α → Except Fault β → Prop
  | ok {a : α} {b : β} : r a b → Agree r (.ok a) (.ok b)
  | error {f g : Fault} : f.cause.kind = g.cause.kind → f.code = g.code → Agree r (.error f) (.error g)

namespace Agree

variable {α β γ δ : Type} {r : α → β → Prop} {q : γ → δ → Prop}

theorem refl (x : Except Fault α) : Agree Eq x x := by
  cases x with
  | ok a => exact .ok rfl
  | error f => exact .error rfl rfl

theorem bind {x : Except Fault α} {y : Except Fault β} (h : Agree r x y) {f : α → Except Fault γ}
    {g : β → Except Fault δ} (hfg : ∀ a b, r a b → Agree q (f a) (g b)) : Agree q (x >>= f) (y >>= g) := by
  cases h with
  | ok hr => exact hfg _ _ hr
  | error hk hc => exact .error hk hc

/-- A hint changes neither the kind of a fault nor its code. -/
theorem mapError {x : Except Fault α} {y : Except Fault β} (h : Agree r x y) {f : Fault → Fault}
    (hcause : ∀ e, (f e).cause = e.cause) (hcode : ∀ e, (f e).code = e.code) :
    Agree r (x.mapError f) (y.mapError f) := by
  cases h with
  | ok hr => exact .ok hr
  | error hk hc => exact .error (by rw [hcause, hcause, hk]) (by rw [hcode, hcode, hc])

end Agree

end Outcome

end CaseSetup
