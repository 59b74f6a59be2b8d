import CaseSetup.Proofs.Grammar.Closed

/-! # More depth changes no result

A reader that has not used up its depth comes out the same with more of it. Readers put together from
such readers are such readers. -/

namespace CaseSetup

namespace Reader

variable {α β : Type} {A R : Reader α} {e : Ending} {n m : Nat} {ts : Tokens}

/-- One more of depth changes nothing, if `n` is enough. -/
def Steady (R : Reader α) (e : Ending) (n : Nat) (ts : Tokens) : Prop :=
  R e n ts ≠ .error .depth → R e (n + 1) ts = R e n ts

namespace Steady

theorem succ (heq : ∀ e n ts, R e (n + 1) ts = A e n ts) (h : Steady A e n ts) : Steady R e (n + 1) ts := by
  intro hne
  rw [heq, heq]
  exact h (heq e n ts ▸ hne)

theorem take {t : Token} (ht : (e.front ts).token = some t) (h : Steady R e n ts.tail) : Steady (take R) e n ts := by
  obtain ⟨t, us, rfl, -⟩ := Ending.peek_eq_some.1 ht
  intro hne
  show e.resume us >>= R e (n + 1) = e.resume us >>= R e n
  cases hresume : e.resume us with
  | error err => rfl
  | ok vs =>
    obtain ⟨rfl, -⟩ := Ending.resume_eq_ok.1 hresume
    refine h fun hr => hne ?_
    show e.resume vs >>= R e n = _
    rw [hresume]
    exact hr

theorem andThen {B : α → Reader β} (hA : Steady A e n ts)
    (hB : ∀ a us, A e n ts = .ok (a, us) → Steady (B a) e n us) : Steady (andThen A B) e n ts := by
  intro hne
  have hne' : A e n ts ≠ .error .depth := fun h => hne (Outcome.bind_eq_error.2 (.inl h))
  show A e (n + 1) ts >>= _ = A e n ts >>= _
  rw [hA hne']
  cases hr : A e n ts with
  | error err => rfl
  | ok r => exact hB r.1 r.2 hr fun h => hne (Outcome.bind_eq_error.2 (.inr ⟨r, hr, h⟩))

theorem closed : Closed fun _ => Steady where
  weaken h _ := h
  result _ _ _ _ _ := fun _ => rfl
  blame _ _ _ _ _ := fun _ => rfl
  fail _ := fun _ => rfl
  depth h := fun hne => absurd h hne
  succ := .succ
  look h := h
  take := .take
  andThen := .andThen

theorem each (e : Ending) (n : Nat) : Each (fun _ => Steady) e n := closed.each e n

/-- Depth that is enough gives what any larger depth gives. -/
theorem run_eq (h : ∀ n, Steady R e n ts) (hr : R e n ts ≠ .error .depth) (hn : n ≤ m) : R e m ts = R e n ts := by
  induction hn with
  | refl => rfl
  | step _ ih => rw [h _ (ih ▸ hr), ih]

end Steady

end Reader

end CaseSetup
