import CaseSetup.Proofs.Evaluation.Location
import CaseSetup.Proofs.Evaluation.Reference
import CaseSetup.Proofs.Outcome

/-! # The evaluator and the meaning of values

The evaluator refuses to read a binding that is being read already. That never costs a result: each
active binding leads to the one read next, and a binding with a result does not lead back to itself.
So the evaluator gives exactly the results that `Means` derives. -/

namespace CaseSetup

section Sound

variable {root here : Site} {enter : Site → String → Except Fault Value}

/-- Reading a binding gives only what its value means. -/
def Sound (root : Site) (enter : Site → String → Except Fault Value) : Prop :=
  ∀ (s : Site) (name : String) (w : Value), s.block.isKeyed → enter s name = .ok w →
    ∃ v, s.block.lookup name = some v ∧ Means root.block s.block v w

theorem Sound.block (he : Sound root enter) {s : Site} (hs : s.block.isKeyed) {es c : Block}
    (hes : ∀ e ∈ es, e ∈ s.block) (h : es.mapM (fun e => (e.1, ·) <$> enter s e.1) = .ok c) :
    MeansBlock root.block s.block es c := by
  induction es generalizing c with
  | nil =>
    obtain rfl : [] = c := by simpa using h
    exact .nil
  | cons e es ih =>
    obtain ⟨name, v⟩ := e
    simp only [List.mapM_cons, Outcome.bind_eq_ok, Outcome.map_eq_ok, Outcome.pure_eq_ok] at h
    obtain ⟨_, ⟨w, hw, rfl⟩, c, hc, rfl⟩ := h
    obtain ⟨v', hl, hm⟩ := he s name w hs hw
    have hv := Entries.lookup_of_mem (Block.isKeyed_iff.1 hs).1 (hes (name, v) (by simp))
    obtain rfl : v' = v := by simpa [hl] using hv
    exact .cons hm (ih (fun e he => hes e (List.mem_cons_of_mem _ he)) hc)

mutual
theorem means_of_evaluateWith (he : Sound root enter) (hr : root.block.isKeyed) (hh : here.block.isKeyed)
    {w : Value} (p : Place) (v : Value) (hv : v.isKeyed) (h : v.evaluateWith root here enter p = .ok w) :
    Means root.block here.block v w := by
  cases v with
  | bool b => cases h; exact .bool b
  | int n => cases h; exact .int n
  | float x => cases h; exact .float x
  | str s => cases h; exact .str s
  | list vs =>
    simp only [Value.evaluateWith, Outcome.map_eq_ok] at h
    obtain ⟨ws, hws, rfl⟩ := h
    exact .list (means_of_evaluateItems he hr hh p 0 vs hv hws)
  | tuple vs =>
    simp only [Value.evaluateWith, Outcome.map_eq_ok] at h
    obtain ⟨ws, hws, rfl⟩ := h
    exact .tuple (means_of_evaluateItems he hr hh p 0 vs hv hws)
  | dict es =>
    simp only [Value.evaluateWith, Outcome.map_eq_ok] at h
    obtain ⟨fs, hfs, rfl⟩ := h
    exact .dict (means_of_evaluateDict he hr hh p es (Bool.and_eq_true_iff.1 hv).2 hfs)
  | block b =>
    simp only [Value.evaluateWith, Outcome.map_eq_ok] at h
    obtain ⟨c, hc, rfl⟩ := h
    exact .block (he.block (s := ⟨p, b⟩) hv (fun _ h => h) hc)
  | neg v =>
    simp only [Value.evaluateWith, Outcome.bind_eq_ok] at h
    obtain ⟨a, ha, hw⟩ := h
    exact .neg (means_of_evaluateWith he hr hh _ v hv ha) hw
  | binary op l r =>
    obtain ⟨hl, hr'⟩ := Bool.and_eq_true_iff.1 hv
    simp only [Value.evaluateWith, Outcome.bind_eq_ok] at h
    obtain ⟨a, ha, b, hb, hw⟩ := h
    exact .binary (means_of_evaluateWith he hr hh _ l hl ha) (means_of_evaluateWith he hr hh _ r hr' hb) hw
  | var name =>
    rw [Value.evaluateWith] at h
    split at h
    · obtain ⟨v, hl, hm⟩ := he here name w hh h
      exact .near hl hm
    · rename_i hb
      split at h
      · obtain ⟨v, hl, hm⟩ := he root name w hr h
        exact .far (Block.binds_eq_false_iff.1 (Bool.eq_false_iff.2 hb)) hl hm
      · cases h
termination_by structural v

theorem means_of_evaluateItems (he : Sound root enter) (hr : root.block.isKeyed) (hh : here.block.isKeyed)
    {ws : List Value} (p : Place) (i : Nat) (vs : List Value) (hv : itemsKeyed vs)
    (h : Value.evaluateItems root here enter p i vs = .ok ws) : MeansItems root.block here.block vs ws := by
  cases vs with
  | nil => cases h; exact .nil
  | cons v vs =>
    obtain ⟨hv, hvs⟩ := Bool.and_eq_true_iff.1 hv
    simp only [Value.evaluateItems, Outcome.bind_eq_ok, Outcome.pure_eq_ok] at h
    obtain ⟨a, ha, as, has, rfl⟩ := h
    exact .cons (means_of_evaluateWith he hr hh _ v hv ha) (means_of_evaluateItems he hr hh _ _ vs hvs has)
termination_by structural vs

theorem means_of_evaluateDict (he : Sound root enter) (hr : root.block.isKeyed) (hh : here.block.isKeyed)
    {fs : Dict} (p : Place) (es : List (Key × Value)) (hv : dictKeyed es)
    (h : Value.evaluateDict root here enter p es = .ok fs) : MeansDict root.block here.block es fs := by
  match es with
  | [] => cases h; exact .nil
  | (k, v) :: es =>
    obtain ⟨hv, hes⟩ := Bool.and_eq_true_iff.1 hv
    simp only [Value.evaluateDict, Outcome.bind_eq_ok, Outcome.pure_eq_ok] at h
    obtain ⟨a, ha, as, has, rfl⟩ := h
    exact .cons (means_of_evaluateWith he hr hh _ v hv ha) (means_of_evaluateDict he hr hh _ es hes has)
termination_by structural es
end

theorem sound_evaluateBinding (hr : root.block.isKeyed) (active pending : List Ref) :
    Sound root (evaluateBinding root active pending) := by
  intro s name w hs h
  induction active, pending, s, name using evaluateBinding.induct generalizing w with
  | case1 active pending s name hl =>
    rw [evaluateBinding, hl] at h
    cases h
  | case2 active pending s name v hl hp ih =>
    rw [evaluateBinding, hl] at h
    simp only [hp, ↓reduceDIte] at h
    have hv := (Block.isKeyed_iff.1 hs).2 _ (Entries.mem_of_lookup hl)
    exact ⟨v, hl, means_of_evaluateWith (fun s name w hs h => ih s name w hs h) hr hs _ v hv h⟩
  | case3 active pending s name v hl hp =>
    rw [evaluateBinding, hl] at h
    simp only [hp, ↓reduceDIte] at h
    cases h

end Sound

section Complete

variable {d : Whole} {here : Site} {enter : Site → String → Except Fault Value}

/-- Reading a binding that `v` refers to gives what its value means. -/
def Complete (d : Whole) (here : Site) (enter : Site → String → Except Fault Value) (v : Value) : Prop :=
  ∀ (s : Site) (name : String) (u w : Value), d.Holds s → Refers d.root here.block v (s.block, name) →
    s.block.lookup name = some u → Means d.root s.block u w → enter s name = .ok w

theorem Complete.of_part {v v' : Value} (he : Complete d here enter v)
    (h : ∀ r, Refers d.root here.block v' r → Refers d.root here.block v r) : Complete d here enter v' :=
  fun s name u w hs hr => he s name u w hs (h _ hr)

theorem Complete.block {p : Place} {b : Block} (he : Complete d here enter (.block b))
    (hp : d.at? p = some (.block b)) (hb : b.isKeyed) {es c : Block} (hes : ∀ e ∈ es, e ∈ b)
    (h : MeansBlock d.root b es c) : es.mapM (fun e => (e.1, ·) <$> enter ⟨p, b⟩ e.1) = .ok c := by
  induction es generalizing c with
  | nil => cases h; rfl
  | cons e es ih =>
    cases h with
    | @cons _ name v w _ fs hv hs =>
      have hl := Entries.lookup_of_mem (Block.isKeyed_iff.1 hb).1 (hes (name, v) (by simp))
      have hw := he ⟨p, b⟩ name v w hp (.entry (hes (name, v) (by simp))) hl hv
      have htail := ih (fun e he => hes e (List.mem_cons_of_mem _ he)) hs
      simp [List.mapM_cons, hw, htail]

mutual
theorem evaluateWith_of_means (hd : d.isKeyed) (hh : d.Holds here) {w : Value} (p : Place) (v : Value)
    (hp : d.at? p = some v) (he : Complete d here enter v) (h : Means d.root here.block v w) :
    v.evaluateWith (.root d.root) here enter p = .ok w := by
  cases v with
  | bool | int | float | str => cases h; rfl
  | list vs =>
    cases h with
    | list h =>
      have hat (j : Nat) (u : Value) (hu : vs[j]? = some u) : d.at? (.item (0 + j) :: p) = some u :=
        Whole.at?_cons hp (by rwa [Nat.zero_add])
      have := evaluateItems_of_means hd hh p 0 vs hat (fun v hv => he.of_part fun r => .listItem hv) h
      simp [Value.evaluateWith, this]
  | tuple vs =>
    cases h with
    | tuple h =>
      have hat (j : Nat) (u : Value) (hu : vs[j]? = some u) : d.at? (.item (0 + j) :: p) = some u :=
        Whole.at?_cons hp (by rwa [Nat.zero_add])
      have := evaluateItems_of_means hd hh p 0 vs hat (fun v hv => he.of_part fun r => .tupleItem hv) h
      simp [Value.evaluateWith, this]
  | dict es =>
    cases h with
    | dict h =>
      have hk := (Value.isKeyed_dict.1 (Whole.isKeyed_of_at hd hp)).1
      have hat (e : Key × Value) (hm : e ∈ es) : d.at? (.key e.1 :: p) = some e.2 :=
        Whole.at?_cons hp (Entries.lookup_of_mem hk hm)
      have := evaluateDict_of_means hd hh p es hat (fun e hm => he.of_part fun r => .dictValue hm) h
      simp [Value.evaluateWith, this]
  | block b =>
    cases h with
    | block h =>
      have := he.block hp (Whole.isKeyed_of_at hd hp) (fun _ h => h) h
      simp [Value.evaluateWith, this]
  | neg v =>
    cases h with
    | neg h hw =>
      have := evaluateWith_of_means hd hh (.operand :: p) v (Whole.at?_cons hp rfl) (he.of_part fun r => .operand) h
      simp [Value.evaluateWith, this, hw]
  | binary op l r =>
    cases h with
    | binary hl hr hw =>
      have ha := evaluateWith_of_means hd hh (.left :: p) l (Whole.at?_cons hp rfl) (he.of_part fun r => .left) hl
      have hb := evaluateWith_of_means hd hh (.right :: p) r (Whole.at?_cons hp rfl) (he.of_part fun r => .right) hr
      simp [Value.evaluateWith, ha, hb, hw]
  | var name =>
    rw [Value.evaluateWith]
    cases h with
    | near hl h =>
      rw [if_pos (Block.binds_eq_true_iff.2 ⟨_, hl⟩)]
      exact he here name _ w hh (.near hl) hl h
    | far hn hl h =>
      have hb : (Site.root d.root).block.binds name := Block.binds_eq_true_iff.2 ⟨_, hl⟩
      rw [Block.binds_eq_false_iff.2 hn, if_neg Bool.false_ne_true, if_pos hb]
      exact he (.root d.root) name _ w Whole.holds_root (.far hn hl) hl h
termination_by structural v

theorem evaluateItems_of_means (hd : d.isKeyed) (hh : d.Holds here) {ws : List Value} (p : Place) (i : Nat)
    (vs : List Value) (hp : ∀ j u, vs[j]? = some u → d.at? (.item (i + j) :: p) = some u)
    (he : ∀ v ∈ vs, Complete d here enter v) (h : MeansItems d.root here.block vs ws) :
    Value.evaluateItems (.root d.root) here enter p i vs = .ok ws := by
  cases vs with
  | nil => cases h; rfl
  | cons v vs =>
    cases h with
    | cons h hs =>
      have ha := evaluateWith_of_means hd hh _ v (hp 0 v rfl) (he v (by simp)) h
      have hat (j : Nat) (u : Value) (hu : vs[j]? = some u) : d.at? (.item (i + 1 + j) :: p) = some u := by
        rw [Nat.add_right_comm]
        exact hp (j + 1) u hu
      have has := evaluateItems_of_means hd hh p (i + 1) vs hat (fun v hv => he v (List.mem_cons_of_mem _ hv)) hs
      rw [Nat.add_zero] at ha
      simp [Value.evaluateItems, ha, has]
termination_by structural vs

theorem evaluateDict_of_means (hd : d.isKeyed) (hh : d.Holds here) {fs : Dict} (p : Place)
    (es : List (Key × Value)) (hp : ∀ e ∈ es, d.at? (.key e.1 :: p) = some e.2)
    (he : ∀ e ∈ es, Complete d here enter e.2) (h : MeansDict d.root here.block es fs) :
    Value.evaluateDict (.root d.root) here enter p es = .ok fs := by
  match es with
  | [] => cases h; rfl
  | (k, v) :: es =>
    cases h with
    | cons h hs =>
      have ha := evaluateWith_of_means hd hh _ v (hp (k, v) (by simp)) (he (k, v) (by simp)) h
      have has := evaluateDict_of_means hd hh p es (fun e hm => hp e (List.mem_cons_of_mem _ hm))
        (fun e hm => he e (List.mem_cons_of_mem _ hm)) hs
      simp [Value.evaluateDict, ha, has]
termination_by structural es
end

/-- Every binding that is not pending leads to `r`. -/
def Guarded (d : Whole) (pending : List Ref) (r : Binding) : Prop :=
  ∀ q ∈ d.refs, q ∉ pending →
    ∃ (s : Site) (name : String), d.Holds s ∧ s.ref name = q ∧ Relation.TransGen (Leads d.root) (s.block, name) r

theorem Guarded.mem_pending {pending : List Ref} {s : Site} {name : String} {v : Value}
    (hg : Guarded d pending (s.block, name)) (hs : d.Holds s) (hl : s.block.lookup name = some v)
    (hr : Grounded d.root (s.block, name)) : s.ref name ∈ pending := by
  by_contra hp
  obtain ⟨t, n, ht, hq, hc⟩ := hg _ (hs.ref_mem hl) hp
  obtain ⟨hplace, rfl⟩ : t.place = s.place ∧ n = name := by simpa [Site.ref] using hq
  rw [ht.block_eq hs hplace] at hc
  exact hr.not_leads_self hc

theorem Guarded.without {pending : List Ref} {s : Site} {name : String} {r : Binding}
    (hg : Guarded d pending (s.block, name)) (hs : d.Holds s) (hr : Leads d.root (s.block, name) r) :
    Guarded d (without (s.ref name) pending) r := by
  intro q hq hp
  by_cases hn : q = s.ref name
  · exact ⟨s, name, hs, hn.symm, .single hr⟩
  · have hp' : q ∉ pending := fun h => hp (mem_without.2 ⟨h, hn⟩)
    obtain ⟨t, n, ht, hq', hc⟩ := hg q hq hp'
    exact ⟨t, n, ht, hq', hc.tail hr⟩

theorem evaluateBinding_of_means (hd : d.isKeyed) {s : Site} {name : String} {v w : Value}
    (hs : d.Holds s) (hl : s.block.lookup name = some v) (h : Means d.root s.block v w)
    {active pending : List Ref} (hg : Guarded d pending (s.block, name)) :
    evaluateBinding (.root d.root) active pending s name = .ok w := by
  have hr : Grounded d.root (s.block, name) := .of_lookup hl h.grounded
  generalize hb : (s.block, name) = b at hr
  induction hr generalizing s name v w active pending with
  | intro b _ ih =>
    subst hb
    have hp := hg.mem_pending hs hl (.of_lookup hl h.grounded)
    rw [evaluateBinding, hl]
    simp only [hp, ↓reduceDIte]
    refine evaluateWith_of_means hd hs _ v (Whole.at?_cons hs hl) ?_ h
    intro t n u w ht hr hu hm
    have hleads : Leads d.root (s.block, name) (t.block, n) := ⟨v, hl, hr⟩
    exact ih _ hleads ht hu hm (hg.without hs hleads) rfl

end Complete

namespace Scope

variable {s : Scope}

theorem holds_site (loose : Option Value) : Whole.Holds ⟨s.root, loose⟩ s.site :=
  Whole.holds_of_nested s.nested

theorem guarded_refs (d : Whole) (r : Binding) : Guarded d d.refs r := fun _ hq hp => absurd hq hp

theorem isKeyed_block (hr : s.root.isKeyed) : s.block.isKeyed :=
  (holds_site none).isKeyed (d := ⟨s.root, none⟩) (by simp [Whole.isKeyed, hr])

theorem value_eq_ok_iff (hr : s.root.isKeyed) {name : String} {w : Value} :
    s.value name = .ok w ↔ ∃ v, s.block.lookup name = some v ∧ Means s.root s.block v w := by
  constructor
  · exact sound_evaluateBinding hr [] s.root.refs s.site name w (isKeyed_block hr)
  · rintro ⟨v, hl, hm⟩
    refine evaluateBinding_of_means (d := ⟨s.root, none⟩) ?_ (holds_site none) hl hm ?_
    · simp [Whole.isKeyed, hr]
    · have := guarded_refs ⟨s.root, none⟩ (s.site.block, name)
      simpa [Whole.refs] using this

theorem evaluate_eq_ok_iff (hr : s.root.isKeyed) {v w : Value} (hv : v.isKeyed) :
    s.evaluate v = .ok w ↔ Means s.root s.block v w := by
  constructor
  · exact means_of_evaluateWith (sound_evaluateBinding hr [] _) hr (isKeyed_block hr) [.loose] v hv
  · intro h
    have hd : Whole.isKeyed ⟨s.root, some v⟩ := by simp [Whole.isKeyed, hr, hv]
    refine evaluateWith_of_means hd (holds_site (some v)) [.loose] v rfl ?_ h
    intro t n u w' ht _ hu hm
    exact evaluateBinding_of_means hd ht hu hm (guarded_refs ⟨s.root, some v⟩ (t.block, n))

theorem evaluatedBlock_eq_ok_iff (hr : s.root.isKeyed) {c : Block} :
    s.evaluatedBlock = .ok c ↔ MeansBlock s.root s.block s.block c := by
  have hvalue (e : String × Value) (he : e ∈ s.block) (w : Value) :
      s.value e.1 = .ok w ↔ Means s.root s.block e.2 w := by
    rw [value_eq_ok_iff hr, Entries.lookup_of_mem (Block.isKeyed_iff.1 (isKeyed_block hr)).1 he]
    simp
  suffices h : ∀ es c : Block, (∀ e ∈ es, e ∈ s.block) →
      (es.mapM (fun e => (e.1, ·) <$> s.value e.1) = .ok c ↔ MeansBlock s.root s.block es c) from
    h s.block c fun _ h => h
  intro es c hes
  induction es generalizing c with
  | nil =>
    constructor
    · intro h
      obtain rfl : [] = c := by simpa using h
      exact .nil
    · intro h
      cases h
      rfl
  | cons e es ih =>
    obtain ⟨name, v⟩ := e
    have ih c := ih c fun e he => hes e (List.mem_cons_of_mem _ he)
    have hv := hvalue (name, v) (hes _ (by simp))
    simp only [List.mapM_cons, Outcome.bind_eq_ok, Outcome.map_eq_ok, Outcome.pure_eq_ok]
    constructor
    · rintro ⟨_, ⟨w, hw, rfl⟩, fs, hfs, rfl⟩
      exact .cons ((hv w).1 hw) ((ih fs).1 hfs)
    · intro h
      cases h with
      | @cons _ _ _ w _ fs hw hfs => exact ⟨_, ⟨w, (hv w).2 hw, rfl⟩, fs, (ih fs).2 hfs, rfl⟩

/-- Evaluation ends, and it gives a result exactly where a finite derivation does: for a value as if
it were written in the scope, for a binding of the scope, and for its whole block. -/
theorem evaluates_iff_means (s : Scope) (hr : s.root.isKeyed) :
    (∀ v w, v.isKeyed → (s.evaluate v = .ok w ↔ Means s.root s.block v w)) ∧
    (∀ name w, s.value name = .ok w ↔ ∃ v, s.block.lookup name = some v ∧ Means s.root s.block v w) ∧
    (∀ c, s.evaluatedBlock = .ok c ↔ MeansBlock s.root s.block s.block c) :=
  ⟨fun _ _ hv => evaluate_eq_ok_iff hr hv, fun _ _ => value_eq_ok_iff hr,
    fun _ => evaluatedBlock_eq_ok_iff hr⟩

/-- Two names that refer to each other have no result; the block beside them, which binds one of the
two names itself, has one. -/
theorem evaluates_iff_means_knot :
    let m : Block := [("b", .int 3), ("c", .binary .add (.var "b") (.var "n"))]
    let root : Block := [("a", .var "b"), ("b", .var "a"), ("n", .int 2), ("m", .block m)]
    root.isKeyed ∧ Means root m (.var "c") (.int 5) ∧ ∀ w, ¬ Means root root (.var "a") w := by
  intro m root
  have hr : root.isKeyed := by decide
  refine ⟨hr, ?_, fun w hw => ?_⟩
  · refine ((evaluates_iff_means ⟨root, ["m"], m, rfl⟩ hr).1 (.var "c") (.int 5) rfl).1 ?_
    with_unfolding_all rfl
  · have hw := ((evaluates_iff_means root.scope hr).1 (.var "a") w rfl).2 hw
    have he : root.scope.evaluate (.var "a") = .error (.circular ["a", "b"] "a") := by with_unfolding_all rfl
    rw [he] at hw
    cases hw

end Scope

end CaseSetup
