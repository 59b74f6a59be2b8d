import CaseSetup.Proofs.Evaluation.Correctness
import CaseSetup.Proofs.Evaluation.Faults
import Mathlib.Data.List.Chain

/-! # What a fault of evaluation says

The active definitions are at any time a trail: the first is the one that was asked for, each reads the
next, and the last reads the one that is evaluated now. Every definition that is not pending is on the
trail. So the chain that a circular reference reports is there in the document and comes back to one of
its definitions, and a name that is said to be missing is missing where the trail has led. -/

namespace CaseSetup

open Outcome

/-- What a fault says when the definition `start` of the document `root` was asked for. -/
structure Fault.Justified (root : Block) (start : Definition) (f : Fault) : Prop where
  /-- The chain that is reported starts where it should, and it ends with a definition that it has had
  before. -/
  circular : f.code = some 403 → ∃ (chain : List Definition) (last : Definition),
    f = .circular (chain.map (·.name)) last.name ∧ chain.head? = some start ∧
    (chain ++ [last]).IsChain (Definition.Reads (.root root)) ∧ last ∈ chain ∧
    ∀ c ∈ chain, Whole.Holds ⟨root, none⟩ c.site
  /-- The name asked for is not bound, or a reference that is read is bound neither where it is written
  nor in the root. -/
  missing (name : String) : f.cause = .missingName name → name = start.name ∧ start.raw? = none ∨
    ∃ (c : Definition) (v : Value) (q : Place),
      Relation.ReflTransGen (Definition.Reads (.root root)) start c ∧ c.raw? = some v ∧
      Within c.place v q (.var name) ∧ c.site.block.lookup name = none ∧ root.lookup name = none

theorem Fault.OfOperator.justified {f : Fault} (h : f.OfOperator) (root : Block) (start : Definition) :
    f.Justified root start := by
  have hkind : f.cause.kind ≠ .missingName ∧ f.code ≠ some 403 := by
    rcases List.mem_pair.1 h with h | h <;> obtain ⟨hkind, hcode⟩ := Prod.mk.inj h <;> simp [hkind, hcode]
  refine ⟨fun hcode => absurd hcode hkind.2, fun name hcause => ?_⟩
  exact absurd (by rw [hcause]; rfl) hkind.1

/-- The definitions of `chain` are active and lead to `c`, which comes next. -/
structure Trail (root : Block) (start : Definition) (active pending : List Ref) (chain : List Definition)
    (c : Definition) : Prop where
  active_eq : active = (chain.map (·.ref)).reverse
  head : (chain ++ [c]).head? = some start
  steps : (chain ++ [c]).IsChain (Definition.Reads (.root root))
  reached : Relation.ReflTransGen (Definition.Reads (.root root)) start c
  holds : ∀ e ∈ chain ++ [c], Whole.Holds ⟨root, none⟩ e.site
  covered : ∀ r ∈ root.refs, r ∈ pending ∨ r ∈ active

namespace Trail

variable {root : Block} {start c e : Definition} {active pending : List Ref} {chain : List Definition} {v : Value}

theorem nil (hstart : Whole.Holds ⟨root, none⟩ start.site) :
    Trail root start [] root.refs [] start where
  active_eq := rfl
  head := rfl
  steps := .singleton start
  reached := .refl
  holds := List.forall_mem_singleton.2 hstart
  covered _ hr := .inl hr

theorem holds_last (h : Trail root start active pending chain c) : Whole.Holds ⟨root, none⟩ c.site :=
  h.holds c (List.mem_append_right _ List.mem_cons_self)

theorem step (h : Trail root start active pending chain c) (hd : Whole.isKeyed ⟨root, none⟩)
    (he : c.Reads (.root root) e) :
    Trail root start (c.ref :: active) (without c.ref pending) (chain ++ [c]) e where
  active_eq := by rw [h.active_eq, List.map_append, List.reverse_append]; rfl
  head := by rw [List.head?_append, h.head]; rfl
  steps := by
    refine h.steps.append (.singleton e) fun x hx y hy => ?_
    obtain rfl : c = x := by simpa using hx
    obtain rfl : e = y := by simpa using hy
    exact he
  reached := h.reached.tail he
  holds := List.forall_mem_append.2 ⟨h.holds, List.forall_mem_singleton.2 (he.holds hd h.holds_last).1⟩
  covered r hr := by
    by_cases hrc : r = c.ref
    · exact .inr (hrc ▸ List.mem_cons_self)
    · exact (h.covered r hr).imp (fun hp => mem_without.2 ⟨hp, hrc⟩) (List.mem_cons_of_mem _)

/-- A bound definition that is not pending is on the trail already. -/
theorem mem_chain (h : Trail root start active pending chain c) (hv : c.raw? = some v) (hc : c.ref ∉ pending) :
    c ∈ chain := by
  have hroot : c.site.ref c.name ∈ root.refs := by simpa [Whole.refs] using h.holds_last.ref_mem hv
  have hactive : c.ref ∈ active := (h.covered c.ref hroot).resolve_left hc
  rw [h.active_eq, List.mem_reverse] at hactive
  obtain ⟨e, he, href⟩ := List.mem_map.1 hactive
  obtain rfl := Definition.eq_of_ref_eq (h.holds e (List.mem_append_left _ he)) h.holds_last href
  exact he

theorem justified_circular (h : Trail root start active pending chain c) (hv : c.raw? = some v)
    (hc : c.ref ∉ pending) :
    (Fault.circular (active.reverse.map (·.name)) c.name).Justified root start := by
  have hmem := h.mem_chain hv hc
  obtain ⟨first, rest, rfl⟩ := List.exists_cons_of_ne_nil (List.ne_nil_of_mem hmem)
  have hnames : active.reverse.map (·.name) = (first :: rest).map (·.name) := by
    rw [h.active_eq, List.reverse_reverse, List.map_map]
    rfl
  refine ⟨fun _ => ⟨first :: rest, c, by rw [hnames], h.head, h.steps, hmem, ?_⟩,
    fun name hcause => nomatch hcause⟩
  exact fun e he => h.holds e (List.mem_append_left _ he)

theorem justified_unresolved (h : Trail root start active pending chain c) (hv : c.raw? = some v) {q : Place}
    {name : String} (hw : Within c.place v q (.var name))
    (hnone : Site.resolve? (.root root) c.site name = none) : (Fault.unresolved name).Justified root start := by
  refine ⟨(nomatch ·), fun n hcause => .inr ⟨c, v, q, h.reached, hv, ?_⟩⟩
  obtain rfl : name = n := Cause.missingName.inj hcause
  exact ⟨hw, Site.resolve?_eq_none hnone⟩

/-- Only what was asked for can be missing itself: all else that is read is bound. -/
theorem justified_missing (h : Trail root start active pending chain c)
    (hbound : chain ≠ [] → ∃ v, c.raw? = some v) (hnone : c.raw? = none) : (Fault.missingName c.name).Justified root start := by
  refine ⟨(nomatch ·), fun n hcause => .inl ?_⟩
  obtain rfl : c.name = n := Cause.missingName.inj hcause
  have hchain : chain = [] := by
    by_contra hne
    obtain ⟨v, hv⟩ := hbound hne
    cases hnone.symm.trans hv
  subst hchain
  obtain rfl : c = start := Option.some.inj h.head
  exact ⟨rfl, hnone⟩

end Trail

theorem justified_evaluateBinding {root : Block} (hd : Whole.isKeyed ⟨root, none⟩) {start : Definition}
    {active pending : List Ref} {chain : List Definition} {s : Site} {name : String}
    (h : Trail root start active pending chain ⟨s, name⟩)
    (hbound : chain ≠ [] → ∃ v, s.block.lookup name = some v) :
    OnlyFails (Fault.Justified root start) (evaluateBinding (.root root) active pending s name) := by
  induction active, pending, s, name using evaluateBinding.induct generalizing chain with
  | case1 active pending s name hl =>
    rw [evaluateBinding, hl]
    exact .error (h.justified_missing hbound hl)
  | case2 active pending s name v hl hp ih =>
    rw [evaluateBinding, hl]
    simp only [hp, ↓reduceDIte]
    have hstep (e : Definition) (he : Definition.Reads (.root root) ⟨s, name⟩ e) :=
      ih e.site e.name (h.step hd he) fun _ => (he.holds hd h.holds_last).2
    refine Value.fails_evaluateWith (fun f hf => hf.justified root start)
      ⟨fun hw hb => ?_, fun hw ht => ?_, fun hw hnone => ?_⟩
    · exact hstep _ (.entry hl hw hb)
    · exact hstep _ (.reference hl hw ht)
    · exact h.justified_unresolved hl hw hnone
  | case3 active pending s name v hl hp =>
    rw [evaluateBinding, hl]
    simp only [hp, ↓reduceDIte]
    exact .error (h.justified_circular hl hp)

namespace Scope

/-- A fault of reading a name is justified: a circular reference is one in the document, and what is
missing is missing where a reference to it is read. -/
theorem value_justified (s : Scope) (hr : s.root.isKeyed) (name : String) (f : Fault)
    (h : s.value name = .error f) : f.Justified s.root ⟨s.site, name⟩ := by
  have hd : Whole.isKeyed ⟨s.root, none⟩ := by simpa [Whole.isKeyed] using hr
  have htrail : Trail s.root ⟨s.site, name⟩ [] s.root.refs [] ⟨s.site, name⟩ := .nil (s.holds_site none)
  exact (justified_evaluateBinding hd htrail fun hne => absurd rfl hne).of_error h

/-- A circular reference through a list and out of a nested block, a name that is missing in a block
that is read on the way, and a name that is missing where it is asked for. -/
theorem value_justified_knot :
    let m : Block := [("x", .neg (.var "a"))]
    let root : Block := [("a", .list [.var "m"]), ("m", .block m), ("b", .var "k"), ("k", .block [("y", .var "z")])]
    let s : Scope := ⟨root, ["m"], m, rfl⟩
    root.isKeyed ∧
      s.value "x" = .error (.circular ["x", "a", "m"] "x") ∧
      (Fault.circular ["x", "a", "m"] "x").Justified root ⟨s.site, "x"⟩ ∧
      root.scope.value "b" = .error (.unresolved "z") ∧
      (Fault.unresolved "z").Justified root ⟨.root root, "b"⟩ ∧
      s.value "b" = .error (.missingName "b") ∧ (Fault.missingName "b").Justified root ⟨s.site, "b"⟩ := by
  intro m root s
  have hr : root.isKeyed := by decide
  have hx : s.value "x" = .error (.circular ["x", "a", "m"] "x") := by with_unfolding_all rfl
  have hz : root.scope.value "b" = .error (.unresolved "z") := by with_unfolding_all rfl
  have hb : s.value "b" = .error (.missingName "b") := by with_unfolding_all rfl
  exact ⟨hr, hx, value_justified s hr "x" _ hx, hz, value_justified root.scope hr "b" _ hz, hb,
    value_justified s hr "b" _ hb⟩

end Scope

end CaseSetup
