import CaseSetup.Proofs.Block.Change
import CaseSetup.Proofs.Evaluation.Finished
import CaseSetup.Proofs.Evaluation.Frame
import CaseSetup.Proofs.Evaluation.Lazy
import CaseSetup.Proofs.Evaluation.Routes

/-! # Other definitions in the root

A document reads as before if its root keeps its definitions, has some of them replaced by their
values, and perhaps gets new ones: an evaluation that has a result met every definition it needed, and
none it met is gone. Main statements: a definition of the root can be replaced by its value, and a new
one can be added to the root, whatever its value, and what could be read is read as before. -/

namespace CaseSetup

variable {r r' b : Block} {name : String} {names : List String} {u v w w' : Value}

/-- In `r'` each definition of `r` is still there, with its value as it was written or with its result. -/
def Block.Retains (r r' : Block) : Prop :=
  ∀ name u, r.lookup name = some u → ∃ u', r'.lookup name = some u' ∧ (u' = u ∨ Means r r u u')

/-- In a block of the document a name has one result. -/
theorem Means.unique_of_nested (hr : r.isKeyed) (hn : r.nested? names = some b) (hl : b.lookup name = some v)
    (h : Means r b v w) (h' : Means r b v w') : w = w' := by
  let s : Scope := ⟨r, names, b, hn⟩
  have hw : s.value name = .ok w := (Scope.value_eq_ok_iff hr).2 ⟨v, hl, h⟩
  have hw' : s.value name = .ok w' := (Scope.value_eq_ok_iff hr).2 ⟨v, hl, h'⟩
  exact Except.ok.inj (hw.symm.trans hw')

/-- What is written in a block that has not changed means what it did. -/
theorem Means.of_retains {here here' : Block} (h : Means r here v w) (hr : r.isKeyed) (hh : here.isKeyed)
    (hv : v.isKeyed) (hseen : Seen r r' here here') (hrr : r.Retains r') : Means r' here' v w := by
  refine h.of_redefined hr hh hv hseen fun name u _ hl => ?_
  obtain ⟨u', hl', rfl | hm⟩ := hrr name u hl
  · exact ⟨u', hl', .inl rfl⟩
  · refine ⟨u', hl', .inr fun w hw => ?_⟩
    have hself : r.nested? [] = some r := rfl
    obtain rfl := hm.unique_of_nested hr hself hl hw
    exact .of_isLiteral hm.isLiteral

namespace Block

/-- To read a path is to find the value of its last name in the block that the others lead to. -/
theorem getPath_eq_ok_iff (hr : r.isKeyed) {path : String} : r.getPath path = .ok w ↔
    ∃ names name b v, Path.names path = .ok (names ++ [name]) ∧ r.nested? names = some b ∧
      b.lookup name = some v ∧ Means r b v w := by
  have hvalue {t : Scope} {name : String} (ht : t.root = r) :
      t.value name = .ok w ↔ ∃ v, t.block.lookup name = some v ∧ Means r t.block v w := by
    subst ht
    exact Scope.value_eq_ok_iff hr
  rw [getPath_eq_ok_iff_lookup, Scope.lookup, Outcome.bind_eq_ok]
  constructor
  · rintro ⟨ms, hms, hw⟩
    obtain ⟨names, name, rfl⟩ := Path.exists_concat hms
    rw [Scope.follow_concat, Outcome.bind_eq_ok] at hw
    obtain ⟨t, ht, hw⟩ := hw
    obtain ⟨hroot, hpath⟩ := walk_eq_ok.1 ht
    obtain ⟨v, hl, hm⟩ := (hvalue hroot).1 hw
    exact ⟨names, name, t.block, v, hms, by rw [← hroot, ← hpath, t.nested], hl, hm⟩
  · rintro ⟨names, name, b, v, hms, hn, hl, hm⟩
    obtain ⟨t, ht, rfl⟩ := exists_walk hn
    refine ⟨_, hms, ?_⟩
    rw [Scope.follow_concat, Outcome.bind_eq_ok]
    exact ⟨t, ht, (hvalue (walk_eq_ok.1 ht).1).2 ⟨v, hl, hm⟩⟩

/-- Where a block was nested there is one now, with each name that had a result, and it has that. -/
theorem Retains.means (h : r.Retains r') (hr : r.isKeyed) (hn : r.nested? names = some b)
    (hl : b.lookup name = some v) (hm : Means r b v w) :
    ∃ b' v', r'.nested? names = some b' ∧ b'.lookup name = some v' ∧ Means r' b' v' w := by
  have hb : b.isKeyed := Scope.isKeyed_block (s := ⟨r, names, b, hn⟩) hr
  have hv : v.isKeyed := (isKeyed_iff.1 hb).2 _ (Entries.mem_of_lookup hl)
  cases names with
  | nil =>
    obtain rfl : r = b := Option.some.inj hn
    obtain ⟨v', hl', rfl | hv'⟩ := h name v hl
    · exact ⟨r', v', rfl, hl', hm.of_retains hr hr hv (.inr ⟨rfl, rfl⟩) h⟩
    · obtain rfl := hm.unique_of_nested hr hn hl hv'
      exact ⟨r', w, rfl, hl', .of_isLiteral hm.isLiteral⟩
  | cons top names =>
    obtain ⟨c, hc, hnest⟩ := nested?_cons_eq_some.1 hn
    obtain ⟨u, hu, rfl | hmc⟩ := h top _ hc
    · exact ⟨b, v, nested?_cons_eq_some.2 ⟨c, hu, hnest⟩, hl, hm.of_retains hr hb hv (.inl rfl) h⟩
    · -- the path leads into the block that is a result now
      cases hmc with
      | block hmc =>
        obtain ⟨b', hb', hmb⟩ := hmc.nested hnest
        obtain ⟨w', hw', hmw⟩ := hmb.lookup hl
        obtain rfl := hm.unique_of_nested hr hn hl hmw
        exact ⟨b', w, nested?_cons_eq_some.2 ⟨_, hu, hb'⟩, hw', .of_isLiteral hm.isLiteral⟩

theorem Retains.getPath (h : r.Retains r') (hr : r.isKeyed) (hr' : r'.isKeyed) {path : String}
    (hw : r.getPath path = .ok w) : r'.getPath path = .ok w := by
  obtain ⟨names, name, b, v, hnames, hn, hl, hm⟩ := (getPath_eq_ok_iff hr).1 hw
  obtain ⟨b', v', hn', hl', hm'⟩ := h.means hr hn hl hm
  exact (getPath_eq_ok_iff hr').2 ⟨names, name, b', v', hnames, hn', hl', hm'⟩

/-- If no definition is new, the evaluated document is the same. -/
theorem Retains.evaluated (h : r.Retains r') (hr : r.isKeyed) (hr' : r'.isKeyed)
    (hkeys : Entries.keys r' = Entries.keys r) {e : Block} (he : r.evaluated = .ok e) : r'.evaluated = .ok e := by
  have hm : Entries.Related (fun _ => Means r r) r e :=
    meansBlock_iff.1 ((r.scope.evaluatedBlock_eq_ok_iff hr).1 he)
  refine (r'.scope.evaluatedBlock_eq_ok_iff hr').2 (meansBlock_iff.2 ?_)
  refine .of_keys_eq (hm.keys_eq.trans hkeys.symm) fun name u' w hu' hw => ?_
  obtain ⟨u, hu, huw⟩ := hm.exists_left hw
  have hl : r.lookup name = some u := Entries.lookup_of_mem (isKeyed_iff.1 hr).1 hu
  have hself : r.nested? [] = some r := rfl
  obtain ⟨b', v', hn', hl', hm'⟩ := h.means hr hself hl huw
  obtain rfl : r' = b' := Option.some.inj hn'
  obtain rfl : v' = u' := Entries.eq_of_mem (isKeyed_iff.1 hr').1 (Entries.mem_of_lookup hl') hu'
  exact hm'

/-- A definition of the root can be replaced by its value: each path that could be read gives what it
gave, also one that leads into the definition, and so does the evaluation of the document. -/
theorem reads_of_set_value (hr : r.isKeyed) (h : r.scope.value name = .ok v) :
    ∃ r', r.set name v = .ok r' ∧ (∀ path w, r.getPath path = .ok w → r'.getPath path = .ok w) ∧
      ∀ e, r.evaluated = .ok e → r'.evaluated = .ok e := by
  obtain ⟨u, hl, hm⟩ := (Scope.value_eq_ok_iff hr).1 h
  have hbinds : r.binds name := binds_eq_true_iff.2 ⟨u, hl⟩
  have hu : u.isKeyed := (isKeyed_iff.1 hr).2 _ (Entries.mem_of_lookup hl)
  have hr' : Block.isKeyed (Entries.replace name v r) := isKeyed_replace hr (hm.isKeyed hr hr hu)
  have hretains : r.Retains (Entries.replace name v r) := by
    intro n w hn
    rw [Entries.lookup_replace hbinds]
    by_cases hname : n = name
    · subst hname
      obtain rfl : u = w := Option.some.inj (hl.symm.trans hn)
      exact ⟨v, if_pos rfl, .inr hm⟩
    · exact ⟨w, (if_neg hname).trans hn, .inl rfl⟩
  exact ⟨_, if_pos hbinds, fun path w hw => hretains.getPath hr hr' hw,
    fun e he => hretains.evaluated hr hr' (Entries.keys_replace ..) he⟩

/-- A block with a name of its own and one of the root, which another block reads whole. -/
theorem reads_of_set_value_nested :
    let x : Block := [("n", .int 5), ("a", .binary .add (.var "n") (.var "k"))]
    let w : Block := [("n", .int 5), ("a", .int 7)]
    let rest : Block := [("k", .var "n"), ("n", .int 2), ("m", .block [("k", .int 0), ("b", .var "x")])]
    let r : Block := ("x", .block x) :: rest
    let r' : Block := ("x", .block w) :: rest
    r.isKeyed ∧ r.scope.value "x" = .ok (.block w) ∧ r.set "x" (.block w) = .ok r' ∧
      r'.getPath "x.a" = .ok (.int 7) ∧ r'.getPath "m.b" = .ok (.block w) ∧
      r'.evaluated = .ok
        [("x", .block w), ("k", .int 2), ("n", .int 2), ("m", .block [("k", .int 0), ("b", .block w)])] := by
  intro x w rest r r'
  have hr : r.isKeyed := by decide
  have hx : r.scope.value "x" = .ok (.block w) := by with_unfolding_all rfl
  obtain ⟨_, hset, hpath, heval⟩ := reads_of_set_value hr hx
  cases hset
  exact ⟨hr, hx, rfl, hpath _ _ (by with_unfolding_all rfl), hpath _ _ (by with_unfolding_all rfl),
    heval _ (by with_unfolding_all rfl)⟩

/-- A name can be added to the root with any value: each path that could be read gives what it gave. -/
theorem getPath_of_add (hr : r.isKeyed) (hv : v.isKeyed) (hname : r.binds name = false) :
    ∃ r', r.add name v = .ok r' ∧ ∀ path w, r.getPath path = .ok w → r'.getPath path = .ok w := by
  have hkeys : name ∉ Entries.keys r := fun hk => by
    cases hname.symm.trans (Entries.binds_iff_mem_keys.2 hk)
  have hretains : r.Retains (r ++ [(name, v)]) := fun n u hn =>
    ⟨u, by rw [List.lookup_append, hn]; rfl, .inl rfl⟩
  refine ⟨r ++ [(name, v)], add_of_not_mem hkeys v, fun path w hw => ?_⟩
  exact hretains.getPath hr (isKeyed_append hr hv hkeys) hw

/-- The new definition has a name that a nested block has too, and it is circular. -/
theorem getPath_of_add_circular :
    let m : Block := [("k", .int 1), ("x", .binary .add (.var "k") (.var "n"))]
    let r : Block := [("n", .int 2), ("m", .block m)]
    let r' : Block := [("n", .int 2), ("m", .block m), ("k", .var "k")]
    r.isKeyed ∧ r.binds "k" = false ∧ r.add "k" (.var "k") = .ok r' ∧ r'.getPath "m.x" = .ok (.int 3) ∧
      r'.scope.value "k" = .error (.circular ["k"] "k") := by
  intro m r r'
  have hr : r.isKeyed := by decide
  have hk : r.binds "k" = false := rfl
  obtain ⟨_, hadd, hpath⟩ := getPath_of_add (v := .var "k") hr rfl hk
  cases hadd
  exact ⟨hr, hk, rfl, hpath _ _ (by with_unfolding_all rfl), by with_unfolding_all rfl⟩

end Block

end CaseSetup
