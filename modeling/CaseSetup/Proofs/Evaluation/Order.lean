import CaseSetup.Proofs.Evaluation.Correctness
import CaseSetup.Proofs.Evaluation.Derivation
import CaseSetup.Proofs.Reordered
import CaseSetup.Proofs.Walk

/-! # The order of definitions

Putting the entries of blocks and dictionaries in another order, at any depth, changes no result but
for the order of its entries. Which of several faults is met first does depend on the order, so only
results are compared. -/

namespace CaseSetup

namespace Value

variable {v w : Value}

theorem IsNumber.reordered (hv : v.IsNumber) : v.Reordered Eq v := by
  obtain ⟨n, rfl⟩ | ⟨x, rfl⟩ := hv
  · exact .int n
  · exact .float rfl

/-- A number has no entries to put in another order. -/
theorem Reordered.eq_of_isNumber (h : v.Reordered Eq w) (hv : v.IsNumber) : w = v := by
  obtain ⟨n, rfl⟩ | ⟨x, rfl⟩ := hv
  · cases h
    rfl
  · cases h with
    | float h => rw [h]

end Value

section

variable {r r' here here' : Block} {v v' w : Value}

/-- Item by item, what has a result still has one in the other order. -/
theorem exists_meansItems {vs vs' ws : List Value} (hvs : List.Forall₂ (Value.Reordered Eq) vs vs')
    (hws : List.Forall₂
      (fun v w => ∀ v', v.Reordered Eq v' → ∃ w', Means r' here' v' w' ∧ w.Reordered Eq w') vs ws) :
    ∃ ws', MeansItems r' here' vs' ws' ∧ List.Forall₂ (Value.Reordered Eq) ws ws' := by
  induction hws generalizing vs' with
  | nil =>
    cases hvs
    exact ⟨[], .nil, .nil⟩
  | cons hw _ ih =>
    cases hvs with
    | cons hv hvs =>
      obtain ⟨w', hm, hr⟩ := hw _ hv
      obtain ⟨ws', hms, hrs⟩ := ih hvs
      exact ⟨w' :: ws', .cons hm hms, .cons hr hrs⟩

/-- In a reordered document a reordered value has the result it had, reordered. -/
theorem Means.reordered (h : Means r here v w) (hr : r.isKeyed) (hh : here.isKeyed) (hv : v.isKeyed)
    (hrr : r.Reordered Eq r') (hhh : here.Reordered Eq here') (hvv : v.Reordered Eq v') :
    ∃ w', Means r' here' v' w' ∧ w.Reordered Eq w' := by
  -- the two blocks change on the way down and on every jump, the two roots stay
  induction h using Means.induction generalizing here' v' with
  | bool here b => cases hvv; exact ⟨_, .bool b, .bool b⟩
  | int here n => cases hvv; exact ⟨_, .int n, .int n⟩
  | float here x =>
    cases hvv with
    | float h => exact ⟨_, .float _, .float h⟩
  | str here s => cases hvv; exact ⟨_, .str s, .str s⟩
  | list here vs ws _ ih =>
    cases hvv with
    | list hvv =>
      obtain ⟨ws', hm, hrs⟩ := exists_meansItems hvv <| forall₂_imp_of_mem ih fun v w hm ⟨_, ih⟩ v' hvv =>
        ih hh (itemsKeyed_iff.1 hv v hm) hhh hvv
      exact ⟨_, .list hm, .list hrs⟩
  | tuple here vs ws _ ih =>
    cases hvv with
    | tuple hvv =>
      obtain ⟨ws', hm, hrs⟩ := exists_meansItems hvv <| forall₂_imp_of_mem ih fun v w hm ⟨_, ih⟩ v' hvv =>
        ih hh (itemsKeyed_iff.1 hv v hm) hhh hvv
      exact ⟨_, .tuple hm, .tuple hrs⟩
  | dict here es fs _ ih =>
    obtain ⟨hd, hkeyed⟩ := Value.isKeyed_dict.1 hv
    cases hvv with
    | dict hk hvv =>
      obtain ⟨fs', hm, hrs⟩ := Entries.Shuffled.exists_related ⟨hk, hvv⟩ hd ih
        fun k v v' w he hvv ⟨_, ih⟩ => ih hh (hkeyed _ he) hhh hvv
      exact ⟨_, .dict (meansDict_iff.2 hm), Value.Reordered.dict_iff.2 hrs⟩
  | block here b c _ ih =>
    obtain ⟨hd, hkeyed⟩ := Block.isKeyed_iff.1 hv
    cases hvv with
    | block hk hvv =>
      obtain ⟨c', hm, hrs⟩ := Entries.Shuffled.exists_related ⟨hk, hvv⟩ hd ih
        fun name v v' w he hvv' ⟨_, ih⟩ => ih hv (hkeyed _ he) ⟨hk, hvv⟩ hvv'
      exact ⟨_, .block (meansBlock_iff.2 hm), Value.Reordered.block_iff.2 hrs⟩
  | neg here v a w _ hw ih =>
    cases hvv with
    | neg hvv =>
      obtain ⟨a', hm, hra⟩ := ih hh hv hhh hvv
      obtain ⟨ha, hwn⟩ := Arithmetic.isNumber_of_negate hw
      obtain rfl := hra.eq_of_isNumber ha
      exact ⟨w, .neg hm hw, hwn.reordered⟩
  | binary here op l r a b w _ _ hw ihl ihr =>
    obtain ⟨hl, hr⟩ := Bool.and_eq_true_iff.1 hv
    cases hvv with
    | binary hll hrr =>
      obtain ⟨a', hma, hra⟩ := ihl hh hl hhh hll
      obtain ⟨b', hmb, hrb⟩ := ihr hh hr hhh hrr
      obtain ⟨ha, hb, hwn⟩ := Arithmetic.isNumber_of_apply hw
      obtain rfl := hra.eq_of_isNumber ha
      obtain rfl := hrb.eq_of_isNumber hb
      exact ⟨w, .binary hma hmb hw, hwn.reordered⟩
  | near here name v w hl _ ih =>
    cases hvv with
    | var =>
      obtain ⟨hkeyed, v', hl', hvv⟩ := hhh.lookup hh hl
      obtain ⟨w', hm, hr⟩ := ih hh hkeyed hhh hvv
      exact ⟨w', .near hl' hm, hr⟩
  | far here name v w hn hl _ ih =>
    cases hvv with
    | var =>
      obtain ⟨hkeyed, v', hl', hvv⟩ := hrr.lookup hr hl
      obtain ⟨w', hm, hww⟩ := ih hr hkeyed hrr hvv
      exact ⟨w', .far (hhh.lookup_eq_none hh hn) hl' hm, hww⟩

end

namespace Scope

variable {s s' : Scope} {name : String} {w : Value}

/-- What a name is read as, in the same place of a reordered document. -/
theorem value_of_reordered (hr : s.root.isKeyed) (hroot : s.root.Reordered Eq s'.root)
    (hblock : s.block.Reordered Eq s'.block) (h : s.value name = .ok w) :
    ∃ w', s'.value name = .ok w' ∧ w.Reordered Eq w' := by
  obtain ⟨v, hl, hm⟩ := (value_eq_ok_iff hr).1 h
  obtain ⟨hkeyed, v', hl', hvv⟩ := hblock.lookup (isKeyed_block hr) hl
  obtain ⟨w', hm', hw⟩ := hm.reordered hr (isKeyed_block hr) hkeyed hroot hblock hvv
  exact ⟨w', (value_eq_ok_iff (hroot.isKeyed hr)).2 ⟨v', hl', hm'⟩, hw⟩

end Scope

namespace Block

variable {r r' : Block}

theorem evaluated_of_reordered {e : Block} (hr : r.isKeyed) (h : r.Reordered Eq r') (he : r.evaluated = .ok e) :
    ∃ e', r'.evaluated = .ok e' ∧ e.Reordered Eq e' := by
  have hm : Means r r (.block r) (.block e) := .block ((Scope.evaluatedBlock_eq_ok_iff hr).1 he)
  obtain ⟨w, hm', hw⟩ := hm.reordered hr hr hr h h (Value.Reordered.block_iff.2 h)
  cases hm' with
  | @block _ _ e' hm' =>
    exact ⟨e', (r'.scope.evaluatedBlock_eq_ok_iff (h.isKeyed hr)).2 hm', Value.Reordered.block_iff.1 hw⟩

/-- Two documents that differ in the order of entries have the same scopes; in each of them a name
has a result in both documents or in neither, and the two results differ in the order of entries
alone. So it is for the evaluated documents. -/
theorem reads_of_reordered (hr : r.isKeyed) (h : r.Reordered Eq r') :
    (∀ names, Outcome.Alike
      (fun s s' => ∀ name, Outcome.Alike (Value.Reordered Eq) (s.value name) (s'.value name))
      (r.scope.walk names) (r'.scope.walk names)) ∧
    Outcome.Alike (Block.Reordered Eq) r.evaluated r'.evaluated := by
  have hr' : r'.isKeyed := h.isKeyed hr
  have h' : r'.Reordered Eq r := h.symm fun _ _ => Eq.symm
  have hvalue {s s' : Scope} (hroot : s.root = r) (hroot' : s'.root = r') (hblock : s.block.Reordered Eq s'.block)
      (name : String) : Outcome.Alike (Value.Reordered Eq) (s.value name) (s'.value name) := by
    subst hroot hroot'
    refine ⟨fun w hw => Scope.value_of_reordered hr h hblock hw, fun w' hw' => ?_⟩
    obtain ⟨w, hw, hww⟩ := Scope.value_of_reordered hr' h' (hblock.symm fun _ _ => Eq.symm) hw'
    exact ⟨w, hw, hww.symm fun _ _ => Eq.symm⟩
  have hforth (e : Block) (he : r.evaluated = .ok e) := evaluated_of_reordered hr h he
  refine ⟨fun names => ⟨fun s hs => ?_, fun s' hs' => ?_⟩, hforth, fun e' he' => ?_⟩
  · obtain ⟨rfl, rfl⟩ := walk_eq_ok.1 hs
    obtain ⟨b', hn', hb⟩ := h.nested hr s.nested
    obtain ⟨s', hs', rfl⟩ := exists_walk hn'
    exact ⟨s', hs', hvalue rfl (walk_eq_ok.1 hs').1 hb⟩
  · obtain ⟨rfl, rfl⟩ := walk_eq_ok.1 hs'
    obtain ⟨b, hn, hb⟩ := h'.nested hr' s'.nested
    obtain ⟨s, hs, rfl⟩ := exists_walk hn
    exact ⟨s, hs, hvalue (walk_eq_ok.1 hs).1 rfl (hb.symm fun _ _ => Eq.symm)⟩
  · obtain ⟨e, he, hee⟩ := evaluated_of_reordered hr' h' he'
    exact ⟨e, he, hee.symm fun _ _ => Eq.symm⟩

/-- A forward reference becomes a backward one, and the entries of the nested block that is read are
in the other order. -/
theorem reads_of_reordered_pair :
    let r : Block := [("d", .dict [(.int 1, .var "m"), (.int 2, .var "n")]),
      ("m", .block [("y", .var "n"), ("x", .int 1)]), ("n", .int 7)]
    let r' : Block := [("n", .int 7), ("d", .dict [(.int 2, .var "n"), (.int 1, .var "m")]),
      ("m", .block [("x", .int 1), ("y", .var "n")])]
    let w : Value := .dict [(.int 1, .block [("y", .int 7), ("x", .int 1)]), (.int 2, .int 7)]
    r.isKeyed ∧ r.Reordered Eq r' ∧ r.scope.value "d" = .ok w ∧
      ∃ w', r'.scope.value "d" = .ok w' ∧ w.Reordered Eq w' := by
  intro r r' w
  have hr : r.isKeyed := by decide
  have hdict : Value.Reordered Eq (.dict [(.int 1, .var "m"), (.int 2, .var "n")])
      (.dict [(.int 2, .var "n"), (.int 1, .var "m")]) :=
    .dict (.swap ..) fun k v v' hv hv' => by simp at hv hv'; grind [Value.Reordered]
  have hm : Value.Reordered Eq (.block [("y", .var "n"), ("x", .int 1)])
      (.block [("x", .int 1), ("y", .var "n")]) :=
    Value.Reordered.block_iff.2 (.of_perm (fun _ => rfl) (by decide) (.swap ..))
  have hrr : r.Reordered Eq r' :=
    ⟨by decide, fun name v v' hv hv' => by simp [r, r'] at hv hv'; grind [Value.Reordered]⟩
  have hw : r.scope.value "d" = .ok w := by with_unfolding_all rfl
  obtain ⟨s', hs', hvalue⟩ := ((reads_of_reordered hr hrr).1 []).1 r.scope rfl
  cases hs'
  exact ⟨hr, hrr, hw, (hvalue "d").1 w hw⟩

end Block

end CaseSetup
