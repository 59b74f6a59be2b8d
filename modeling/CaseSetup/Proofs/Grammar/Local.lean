import CaseSetup.Proofs.Grammar.Closed
import CaseSetup.Proofs.Grammar.Sight

/-! # Readers that look no further than one token

A reader is local on the tokens ahead if its run is decided by the sights of the tokens that it took
and of the one after them: any other tokens that begin with the same sights give the same value, or
the same blame. Readers put together from local ones are local. No more than a few calls are made
before a token is taken, so a depth of five for each token, and a little more, is enough. -/

namespace CaseSetup

namespace Reader

variable {α β : Type}

/-- From `ts` on, `R` stops in front of `us`, and comes out as `out` says. So does it from any other
tokens that look the same up to there, if it is given the depth. -/
def Stops (R : Reader α) (c : Nat) (e : Ending) (ts us : Tokens)
    (out : Ending → Tokens → Except Stop (α × Tokens)) : Prop :=
  ∃ cs, ts = cs ++ us ∧ e.Ahead us ∧
    ∀ ⦃m e' cs' us'⦄, 5 * cs.length + c ≤ m → cs'.map Located.seen = cs.map Located.seen → e'.Ahead us' →
      e'.front us' = e.front us → R e' m (cs' ++ us') = out e' us'

variable {A R : Reader α} {c d n : Nat} {e : Ending} {ts us vs : Tokens}
  {out : Ending → Tokens → Except Stop (α × Tokens)}

namespace Stops

theorem ahead (h : Stops R c e ts us out) : e.Ahead us :=
  let ⟨_, _, ha, _⟩ := h
  ha

theorem weaken (h : Stops R c e ts us out) (hd : c ≤ d) : Stops R d e ts us out := by
  obtain ⟨cs, hts, ha, hrun⟩ := h
  exact ⟨cs, hts, ha, fun _ _ _ _ hm => hrun (by omega)⟩

/-- A reader that takes nothing. -/
theorem here (ha : e.Ahead ts) (h : ∀ e n ts, R e n ts = out e ts) : Stops R c e ts ts out := by
  refine ⟨[], rfl, ha, fun m e' cs us _ hcs _ _ => ?_⟩
  obtain rfl : cs = [] := by simpa using hcs
  exact h e' m us

theorem succ (heq : ∀ e n ts, R e (n + 1) ts = A e n ts) (h : Stops A c e ts us out) :
    Stops R (c + 1) e ts us out := by
  obtain ⟨cs, hts, ha, hrun⟩ := h
  refine ⟨cs, hts, ha, fun m e' cs' us' hm hcs ha' hs => ?_⟩
  obtain ⟨k, rfl⟩ : ∃ k, m = k + 1 := ⟨m - 1, by omega⟩
  rw [heq]
  exact hrun (by omega) hcs ha' hs

theorem look {f : Sight → Reader α} (h : Stops (f (e.front ts)) c e ts us out) : Stops (look f) c e ts us out := by
  obtain ⟨cs, hts, ha, hrun⟩ := h
  refine ⟨cs, hts, ha, fun m e' cs' us' hm hcs ha' hs => ?_⟩
  rw [hts, ← Ending.front_append hcs hs] at hrun
  exact hrun hm hcs ha' hs

/-- A token taken pays for five calls. -/
theorem take {t : Located} (h : Stops R (c + 5) e ts us out) : Stops (take R) c e (t :: ts) us out := by
  obtain ⟨cs, hts, ha, hrun⟩ := h
  refine ⟨t :: cs, congrArg (t :: ·) hts, ha, fun m e' cs' us' hm hcs ha' hs => ?_⟩
  cases cs' with
  | nil => cases hcs
  | cons u cs' =>
    have hresume : e'.resume (cs' ++ us') = .ok (cs' ++ us') := ha'.append cs'
    show e'.resume (cs' ++ us') >>= R e' m = out e' us'
    rw [hresume]
    rw [List.length_cons] at hm
    exact hrun (by omega) (List.cons.inj hcs).2 ha' hs

/-- The second reader goes on where the first one stopped. What the first one took pays for it. -/
theorem andThen {B : α → Reader β} {out : Ending → Tokens → Except Stop (β × Tokens)} {a : α}
    (hA : Stops A c e ts us fun _ us => .ok (a, us)) (hB : Stops (B a) (c + 5 * (ts.length - us.length)) e us vs out) :
    Stops (andThen A B) c e ts vs out := by
  obtain ⟨cs, hts, _, hrun⟩ := hA
  obtain ⟨ds, hus, ha, hrun'⟩ := hB
  have hlength : ts.length - us.length = cs.length := by
    rw [hts, List.length_append, Nat.add_sub_cancel]
  rw [hlength] at hrun'
  refine ⟨cs ++ ds, by rw [hts, hus, List.append_assoc], ha, fun m e' bs vs' hm hbs ha' hs => ?_⟩
  rw [List.map_append] at hbs
  obtain ⟨cs', ds', rfl, hcs, hds⟩ := List.map_eq_append_iff.1 hbs
  rw [List.length_append] at hm
  have hfront : e'.front (ds' ++ vs') = e.front us := by
    rw [hus]
    exact Ending.front_append hds hs
  show A e' m (cs' ++ ds' ++ vs') >>= _ = _
  rw [List.append_assoc, hrun (by omega) hcs (ha'.append ds') hfront]
  exact hrun' (by omega) hds ha' hs

theorem andThen_blame {B : α → Reader β} {x : Expected}
    (hA : Stops A c e ts us fun e us => .error (e.unexpected us x)) :
    Stops (Reader.andThen A B) c e ts us fun e us => .error (e.unexpected us x) := by
  obtain ⟨cs, hts, ha, hrun⟩ := hA
  refine ⟨cs, hts, ha, fun m e' cs' us' hm hcs ha' hs => ?_⟩
  show A e' m (cs' ++ us') >>= _ = _
  rw [hrun hm hcs ha' hs]
  rfl

end Stops

/-- The run of `R` from `ts` on is decided by what it took and what is seen after that. -/
structure Local (R : Reader α) (c : Nat) (e : Ending) (n : Nat) (ts : Tokens) : Prop where
  ok {a : α} {us : Tokens} : R e n ts = .ok (a, us) → Stops R c e ts us fun _ us => .ok (a, us)
  blame {f : Fault} : R e n ts = .error (.fault f) → f.cause.kind = .unexpected →
    ∃ us x, f = (e.front us).unexpected x ∧ Stops R c e ts us fun e us => .error (e.unexpected us x)

namespace Local

theorem weaken (h : Local R c e n ts) (hd : c ≤ d) : Local R d e n ts where
  ok hr := (h.ok hr).weaken hd
  blame hr hf :=
    let ⟨us, x, hfault, hstop⟩ := h.blame hr hf
    ⟨us, x, hfault, hstop.weaken hd⟩

theorem result (ha : e.Ahead ts) (a : α) : Local (result a) c e n ts where
  ok hr := by
    cases hr
    exact .here ha fun _ _ _ => rfl
  blame hr := by cases hr

theorem blamed (ha : e.Ahead ts) (x : Expected) : Local (Reader.blame x : Reader α) c e n ts where
  ok hr := by cases hr
  blame hr _ := by
    cases hr
    exact ⟨ts, x, rfl, .here ha fun _ _ _ => rfl⟩

theorem fail {f : Fault} (hf : f.cause.kind ≠ .unexpected) : Local (fail f : Reader α) c e n ts where
  ok hr := by cases hr
  blame hr hk := by
    cases hr
    exact absurd hk hf

theorem depth (h : R e n ts = .error .depth) : Local R c e n ts where
  ok hr := by
    rw [h] at hr
    cases hr
  blame hr := by
    rw [h] at hr
    cases hr

/-- A reader that calls `A` with one less of depth. -/
theorem succ (heq : ∀ e n ts, R e (n + 1) ts = A e n ts) (h : Local A c e n ts) : Local R (c + 1) e (n + 1) ts where
  ok hr := (h.ok (heq e n ts ▸ hr)).succ heq
  blame hr hf :=
    let ⟨us, x, hfault, hstop⟩ := h.blame (heq e n ts ▸ hr) hf
    ⟨us, x, hfault, hstop.succ heq⟩

theorem look {f : Sight → Reader α} (h : Local (f (e.front ts)) c e n ts) : Local (look f) c e n ts where
  ok hr := (h.ok hr).look
  blame hr hf :=
    let ⟨us, x, hfault, hstop⟩ := h.blame hr hf
    ⟨us, x, hfault, hstop.look⟩

theorem take {t : Token} (ht : (e.front ts).token = some t)
    (h : e.Ahead ts.tail → Local R (c + 5) e n ts.tail) : Local (take R) c e n ts := by
  obtain ⟨u, rest, rfl⟩ : ∃ u rest, ts = u :: rest := by
    cases ts with
    | nil => cases ht
    | cons u rest => exact ⟨u, rest, rfl⟩
  constructor
  · intro a us hr
    obtain ⟨_, hresume, hr'⟩ := Outcome.bind_eq_ok.1 hr
    obtain ⟨rfl, ha⟩ := Ending.resume_eq_ok.1 hresume
    exact ((h ha).ok hr').take
  · intro f hr hf
    rcases Outcome.bind_eq_error.1 hr with hresume | ⟨_, hresume, hr'⟩
    · exact absurd hf (Ending.resume_ne_unexpected hresume)
    · obtain ⟨rfl, ha⟩ := Ending.resume_eq_ok.1 hresume
      obtain ⟨us, x, hfault, hstop⟩ := (h ha).blame hr' hf
      exact ⟨us, x, hfault, hstop.take⟩

theorem andThen {B : α → Reader β} (hA : Local A c e n ts) (hB : ∀ a us, A e n ts = .ok (a, us) → e.Ahead us →
    Local (B a) (c + 5 * (ts.length - us.length)) e n us) : Local (andThen A B) c e n ts := by
  constructor
  · intro b vs hr
    obtain ⟨⟨a, us⟩, hr, hr'⟩ := Outcome.bind_eq_ok.1 hr
    have hstop := hA.ok hr
    exact hstop.andThen ((hB a us hr hstop.ahead).ok hr')
  · intro f hr hf
    rcases Outcome.bind_eq_error.1 hr with hr | ⟨⟨a, us⟩, hr, hr'⟩
    · obtain ⟨us, x, hfault, hstop⟩ := hA.blame hr hf
      exact ⟨us, x, hfault, hstop.andThen_blame⟩
    · have hstop := hA.ok hr
      obtain ⟨vs, x, hfault, hstop'⟩ := (hB a us hr hstop.ahead).blame hr' hf
      exact ⟨vs, x, hfault, hstop.andThen hstop'⟩

end Local

end Reader

end CaseSetup
