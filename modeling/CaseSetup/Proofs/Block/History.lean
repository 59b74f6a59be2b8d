import CaseSetup.Proofs.Block.Change
import CaseSetup.Proofs.Block.InPlace
import CaseSetup.Proofs.Evaluation.Correctness
import CaseSetup.Proofs.Evaluation.Settled

/-! # Histories of a document

A history is a document and what is done to it, one action after the other, each to a block that is
reached by spots. Main statement: every block is an ordered list of entries with distinct names, on
which an action that succeeds does one thing and touches nothing else in the document, and an action
that fails leaves the document as it was; when it fails, and with which fault, is decided by the names
that are bound. -/

namespace CaseSetup

open Outcome

namespace Block

/-- The two documents are the same but for the nested block at the end of the names, which is `m` in
the first and `m'` in the second. -/
inductive Exchanged (m m' : Block) : List String → Block → Block → Prop
  | here : Exchanged m m' [] m m'
  | inside {as bs c c' : Block} {name : String} {names : List String} : Exchanged m m' names c c' →
    Exchanged m m' (name :: names) (as ++ (name, .block c) :: bs) (as ++ (name, .block c') :: bs)

/-- Walking down the names from the block ends with a fault. -/
inductive Stops : Block → List String → Fault → Prop
  | missing {b : Block} {name : String} {names : List String} :
    name ∉ b.names → Stops b (name :: names) (.missingName name)
  | notABlock {b : Block} {name : String} {v : Value} {names : List String} :
    (name, v) ∈ b → v.asBlock? = none → Stops b (name :: names) (.notABlock name v)
  | later {b c : Block} {name : String} {names : List String} {f : Fault} :
    (name, .block c) ∈ b → Stops c names f → Stops b (name :: names) f

end Block

namespace Change

/-- Are the values that the change brings in keyed? -/
def isKeyed : Change → Bool
  | add _ v | set _ v | setPath _ v => v.isKeyed
  | remove _ | clear => true

/-- The change makes one list of entries of another, and gives back what it takes out. -/
inductive Makes : Change → Block → Option Value → Block → Prop
  | add {name : String} {v : Value} {b : Block} : name ∉ b.names → Makes (add name v) b none (b ++ [(name, v)])
  | set {name : String} {u v : Value} {as bs : Block} :
    Makes (set name v) (as ++ (name, u) :: bs) none (as ++ (name, v) :: bs)
  | setPath {path name : String} {names : List String} {u v : Value} {as bs b b' : Block} :
    Path.names path = .ok (names ++ [name]) →
    Block.Exchanged (as ++ (name, u) :: bs) (as ++ (name, v) :: bs) names b b' → Makes (setPath path v) b none b'
  | remove {name : String} {v : Value} {as bs : Block} :
    Makes (remove name) (as ++ (name, v) :: bs) (some v) (as ++ bs)
  | clear {b : Block} : Makes clear b none []

/-- The change cannot be made to the block. -/
inductive Refused : Change → Block → Fault → Prop
  | add {name : String} {v : Value} {b : Block} : name ∈ b.names → Refused (add name v) b (.duplicateName name)
  | set {name : String} {v : Value} {b : Block} : name ∉ b.names → Refused (set name v) b (.missingName name)
  | badPath {path : String} {v : Value} {b : Block} {f : Fault} :
    Path.names path = .error f → Refused (setPath path v) b f
  | stopped {path name : String} {names : List String} {v : Value} {b : Block} {f : Fault} :
    Path.names path = .ok (names ++ [name]) → b.Stops names f → Refused (setPath path v) b f
  | unbound {path name : String} {names : List String} {v : Value} {b m : Block} :
    Path.names path = .ok (names ++ [name]) → b.nested? names = some m → name ∉ m.names →
    Refused (setPath path v) b (.missingName name)
  | remove {name : String} {b : Block} : name ∉ b.names → Refused (remove name) b (.missingName name)

end Change

namespace Spot

/-- The spots lead from the document down the names, to a nested block. -/
inductive Reach : List Spot → Block → List String → Block → Prop
  | here {b : Block} : Reach [] b [] b
  | step {spot : Spot} {spots : List Spot} {b c m : Block} {ns ms : List String} :
    spot.names = .ok ns → b.nested? ns = some c → Reach spots c ms m → Reach (spot :: spots) b (ns ++ ms) m

/-- The spots do not lead to a nested block. -/
inductive Astray : List Spot → Block → Fault → Prop
  | badPath {spot : Spot} {spots : List Spot} {b : Block} {f : Fault} :
    spot.names = .error f → Astray (spot :: spots) b f
  | stopped {spot : Spot} {spots : List Spot} {b : Block} {ns : List String} {f : Fault} :
    spot.names = .ok ns → b.Stops ns f → Astray (spot :: spots) b f
  | later {spot : Spot} {spots : List Spot} {b c : Block} {ns : List String} {f : Fault} :
    spot.names = .ok ns → b.nested? ns = some c → Astray spots c f → Astray (spot :: spots) b f

end Spot

/-- A change, and the spots that lead to the block it is made to. -/
structure Action where
  spots : List Spot
  change : Change

/-- What comes of an action, and what it makes of the document. -/
inductive Action.Does (a : Action) : Block → Except Fault (Option Value) → Block → Prop
  | made {b b' m m' : Block} {names : List String} {v? : Option Value} :
    Spot.Reach a.spots b names m → a.change.Makes m v? m' → Block.Exchanged m m' names b b' → Does a b (.ok v?) b'
  | astray {b : Block} {f : Fault} : Spot.Astray a.spots b f → Does a b (.error f) b
  | refused {b m : Block} {names : List String} {f : Fault} :
    Spot.Reach a.spots b names m → a.change.Refused m f → Does a b (.error f) b

/-- The actions take the first document to the last with these outcomes, and there are no names twice
in a block in any document on the way. -/
inductive History : Block → List Action → List (Except Fault (Option Value)) → Block → Prop
  | done {b : Block} : b.isKeyed → History b [] [] b
  | step {b c d : Block} {a : Action} {actions : List Action} {outcome : Except Fault (Option Value)}
    {outcomes : List (Except Fault (Option Value))} :
    b.isKeyed → a.Does b outcome c → History c actions outcomes d →
    History b (a :: actions) (outcome :: outcomes) d

/-! ## One block -/

namespace Block

variable {b b' c c' m m' : Block} {name : String} {v : Value} {names : List String} {f : Fault}

theorem mem_iff_lookup (hb : b.isKeyed) : (name, v) ∈ b ↔ b.lookup name = some v :=
  ⟨Entries.lookup_of_mem (isKeyed_iff.1 hb).1, Entries.mem_of_lookup⟩

theorem mem_names_iff : name ∈ b.names ↔ b.binds name = true := Entries.binds_iff_mem_keys.symm

theorem not_mem_names_iff : name ∉ b.names ↔ b.lookup name = none := by
  rw [mem_names_iff, Bool.not_eq_true, binds_eq_false_iff]

theorem add_eq_ok : b.add name v = .ok b' ↔ name ∉ b.names ∧ b ++ [(name, v)] = b' := by
  unfold add
  rw [mem_names_iff]
  split <;> simp_all

theorem add_eq_error : b.add name v = .error f ↔ name ∈ b.names ∧ Fault.duplicateName name = f := by
  unfold add
  rw [mem_names_iff]
  split <;> simp_all

theorem set_eq_ok (hb : b.isKeyed) :
    b.set name v = .ok b' ↔ ∃ as u bs, b = as ++ (name, u) :: bs ∧ as ++ (name, v) :: bs = b' := by
  unfold set
  split
  · rename_i h
    obtain ⟨u, hu⟩ := binds_eq_true_iff.1 h
    simp only [Except.ok.injEq]
    constructor
    · rintro rfl
      obtain ⟨as, bs, rfl, has⟩ := Entries.exists_append_of_lookup hu
      exact ⟨as, u, bs, rfl, (Entries.replace_append has).symm⟩
    · rintro ⟨as, u, bs, rfl, rfl⟩
      exact Entries.replace_append (Entries.not_mem_keys_left (isKeyed_iff.1 hb).1)
  · rename_i h
    simp only [reduceCtorEq, false_iff, not_exists, not_and]
    rintro as u bs rfl
    exact absurd (mem_names_iff.1 (by simp [names])) h

theorem set_eq_error : b.set name v = .error f ↔ name ∉ b.names ∧ Fault.missingName name = f := by
  unfold set
  rw [mem_names_iff]
  split <;> simp_all

theorem remove_eq_ok (hb : b.isKeyed) :
    b.remove name = .ok (v, b') ↔ ∃ as bs, b = as ++ (name, v) :: bs ∧ as ++ bs = b' := by
  unfold remove
  split
  · rename_i u hu
    simp only [Except.ok.injEq, Prod.mk.injEq]
    constructor
    · rintro ⟨rfl, rfl⟩
      obtain ⟨as, bs, rfl, has⟩ := Entries.exists_append_of_lookup hu
      exact ⟨as, bs, rfl, (Entries.erase_append has).symm⟩
    · rintro ⟨as, bs, rfl, rfl⟩
      have has := Entries.not_mem_keys_left (isKeyed_iff.1 hb).1
      exact ⟨Option.some.inj (hu.symm.trans (Entries.lookup_append has)), Entries.erase_append has⟩
  · rename_i h
    simp only [reduceCtorEq, false_iff, not_exists, not_and]
    rintro as bs rfl
    exact absurd h (mt not_mem_names_iff.2 (by simp [names]))

theorem remove_eq_error : b.remove name = .error f ↔ name ∉ b.names ∧ Fault.missingName name = f := by
  unfold remove
  rw [not_mem_names_iff]
  cases h : b.lookup name <;> simp

theorem child_eq_error (hb : b.isKeyed) : b.child name = .error f ↔
    (name ∉ b.names ∧ Fault.missingName name = f) ∨
      ∃ v, (name, v) ∈ b ∧ v.asBlock? = none ∧ Fault.notABlock name v = f := by
  simp only [mem_iff_lookup hb, not_mem_names_iff]
  unfold child
  split
  · rename_i h
    simp [h, Value.asBlock?]
  · rename_i v hv h
    have hblock : v.asBlock? = none := by
      unfold Value.asBlock?
      split
      · exact absurd rfl (hv _)
      · rfl
    simp [h, hblock]
  · rename_i h
    simp [h]

/-- An entry exchanged for another of the same name. -/
theorem isKeyed_exchange {as bs : Block} {u : Value} (hb : Block.isKeyed (as ++ (name, u) :: bs))
    (hv : v.isKeyed) : Block.isKeyed (as ++ (name, v) :: bs) := by
  obtain ⟨hd, hes⟩ := isKeyed_iff.1 hb
  refine isKeyed_iff.2 ⟨by simpa using hd, fun e he => ?_⟩
  rcases List.mem_append.1 he with he | he
  · exact hes e (List.mem_append_left _ he)
  rcases List.mem_cons.1 he with rfl | he
  · exact hv
  · exact hes e (List.mem_append_right _ (List.mem_cons_of_mem _ he))

/-! ## A block inside the document -/

namespace Exchanged

theorem isKeyed_left (h : Exchanged m m' names b b') (hb : b.isKeyed) : m.isKeyed := by
  induction h with
  | here => exact hb
  | @inside as bs c _ name _ _ ih => exact ih ((isKeyed_iff.1 hb).2 (name, .block c) (by simp))

theorem isKeyed (h : Exchanged m m' names b b') (hb : b.isKeyed) (hm : m'.isKeyed) : b'.isKeyed := by
  induction h with
  | here => exact hm
  | @inside as bs c c' name _ _ ih =>
    have hc' : c'.isKeyed := ih ((isKeyed_iff.1 hb).2 (name, .block c) (by simp))
    exact isKeyed_exchange hb hc'

theorem nested (h : Exchanged m m' names b b') (hb : b.isKeyed) : b.nested? names = some m := by
  induction h with
  | here => rfl
  | @inside as bs c _ name _ _ ih =>
    obtain ⟨hd, hes⟩ := isKeyed_iff.1 hb
    exact nested?_cons_eq_some.2
      ⟨c, Entries.lookup_append (Entries.not_mem_keys_left hd), ih (hes (name, .block c) (by simp))⟩

theorem trans {ns ms : List String} (h : Exchanged c c' ns b b') (hc : Exchanged m m' ms c c') :
    Exchanged m m' (ns ++ ms) b b' := by
  induction h with
  | here => exact hc
  | inside _ ih => exact ih.inside

theorem split {ns ms : List String} (h : Exchanged m m' (ns ++ ms) b b') (hb : b.isKeyed)
    (hc : b.nested? ns = some c) : ∃ c', Exchanged c c' ns b b' ∧ Exchanged m m' ms c c' := by
  induction ns generalizing b b' with
  | nil =>
    obtain rfl : b = c := Option.some.inj hc
    exact ⟨b', .here, h⟩
  | cons n ns ih =>
    cases h with
    | @inside as bs d d' _ _ h =>
      obtain ⟨hd, hes⟩ := isKeyed_iff.1 hb
      obtain ⟨d₁, hd₁, hnest⟩ := nested?_cons_eq_some.1 hc
      obtain rfl : d = d₁ := by
        simpa [Entries.lookup_append (Entries.not_mem_keys_left hd)] using hd₁
      obtain ⟨c', hc', hm⟩ := ih h (hes (n, .block d) (by simp)) hnest
      exact ⟨c', hc'.inside, hm⟩

end Exchanged

section

variable {α : Type} {g : Block → Except Fault (α × Block)} {x : α}

theorem modifyAt_eq_ok (hb : b.isKeyed) :
    modifyAt g names b = .ok (x, b') ↔ ∃ m m', g m = .ok (x, m') ∧ Exchanged m m' names b b' := by
  induction names generalizing b b' with
  | nil =>
    constructor
    · exact fun h => ⟨b, b', h, .here⟩
    · rintro ⟨m, m', h, hx⟩
      cases hx
      exact h
  | cons name names ih =>
    obtain ⟨hd, hes⟩ := isKeyed_iff.1 hb
    rw [modifyAt_cons_eq_ok]
    constructor
    · rintro ⟨c, c', hc, hm, rfl⟩
      obtain ⟨m, m', h, hx⟩ := (ih (hes _ (Entries.mem_of_lookup hc))).1 hm
      obtain ⟨as, bs, rfl, has⟩ := Entries.exists_append_of_lookup hc
      refine ⟨m, m', h, ?_⟩
      rw [Entries.replace_append has]
      exact hx.inside
    · rintro ⟨m, m', h, hx⟩
      cases hx with
      | @inside as bs c c' _ _ hx =>
        have has := Entries.not_mem_keys_left hd
        have hm := (ih (hes (name, .block c) (by simp))).2 ⟨m, m', h, hx⟩
        exact ⟨c, c', Entries.lookup_append has, hm, (Entries.replace_append has).symm⟩

theorem modifyAt_eq_error (hb : b.isKeyed) :
    modifyAt g names b = .error f ↔ b.Stops names f ∨ ∃ m, b.nested? names = some m ∧ g m = .error f := by
  induction names generalizing b with
  | nil =>
    constructor
    · exact fun h => .inr ⟨b, rfl, h⟩
    · rintro (h | ⟨m, hm, h⟩)
      · cases h
      · obtain rfl : b = m := Option.some.inj hm
        exact h
  | cons name names ih =>
    have hchild (c : Block) : b.child name = .ok c ↔ (name, .block c) ∈ b := by
      rw [child_eq_ok, mem_iff_lookup hb]
    have hkeyed (c : Block) (hc : (name, .block c) ∈ b) : c.isKeyed :=
      (isKeyed_iff.1 hb).2 (name, .block c) hc
    have hinner (c : Block) (hc : (name, .block c) ∈ b) :
        (modifyAt g names c >>= fun p => pure (p.1, Entries.replace name (.block p.2) b)) =
            (.error f : Except Fault (α × Block)) ↔
          c.Stops names f ∨ ∃ m, c.nested? names = some m ∧ g m = .error f := by
      rw [← ih (hkeyed c hc), bind_eq_error]
      simp [pure, Except.pure]
    rw [modifyAt, bind_eq_error, child_eq_error hb]
    constructor
    · rintro ((⟨hn, rfl⟩ | ⟨v, hv, hblock, rfl⟩) | ⟨c, hc, h⟩)
      · exact .inl (.missing hn)
      · exact .inl (.notABlock hv hblock)
      · have hc := (hchild c).1 hc
        rcases (hinner c hc).1 h with h | ⟨m, hm, h⟩
        · exact .inl (.later hc h)
        · exact .inr ⟨m, nested?_cons_eq_some.2 ⟨c, (mem_iff_lookup hb).1 hc, hm⟩, h⟩
    · rintro (h | ⟨m, hm, h⟩)
      · cases h with
        | missing hn => exact .inl (.inl ⟨hn, rfl⟩)
        | notABlock hv hblock => exact .inl (.inr ⟨_, hv, hblock, rfl⟩)
        | later hc h => exact .inr ⟨_, (hchild _).2 hc, (hinner _ hc).2 (.inl h)⟩
      · obtain ⟨c, hc, hm⟩ := nested?_cons_eq_some.1 hm
        have hc := (mem_iff_lookup hb).2 hc
        exact .inr ⟨c, (hchild c).2 hc, (hinner c hc).2 (.inr ⟨m, hm, h⟩)⟩

end

end Block

namespace Change

variable {c : Change} {b b' m m' : Block} {v? : Option Value} {f : Fault} {spots : List Spot}

theorem apply_eq_ok (hb : b.isKeyed) : c.apply b = .ok (v?, b') ↔ c.Makes b v? b' := by
  cases c with
  | add name v =>
    simp only [apply, map_eq_ok, Block.add_eq_ok, Prod.mk.injEq]
    constructor
    · rintro ⟨_, ⟨hn, rfl⟩, rfl, rfl⟩
      exact .add hn
    · intro h
      cases h with
      | add hn => exact ⟨_, ⟨hn, rfl⟩, rfl, rfl⟩
  | set name v =>
    simp only [apply, map_eq_ok, Block.set_eq_ok hb, Prod.mk.injEq]
    constructor
    · rintro ⟨_, ⟨as, u, bs, rfl, rfl⟩, rfl, rfl⟩
      exact .set
    · intro h
      cases h with
      | set => exact ⟨_, ⟨_, _, _, rfl, rfl⟩, rfl, rfl⟩
  | setPath path v =>
    simp only [apply, map_eq_ok, Block.setPath, bind_eq_ok, Prod.mk.injEq]
    constructor
    · rintro ⟨_, ⟨names, hnames, h⟩, rfl, rfl⟩
      obtain ⟨ms, name, rfl⟩ := Path.exists_concat hnames
      rw [Block.setAt_append_one, map_eq_ok] at h
      obtain ⟨⟨_, d⟩, hmodify, rfl⟩ := h
      obtain ⟨m, m', hset, hx⟩ := (Block.modifyAt_eq_ok hb).1 hmodify
      obtain ⟨_, hset, hpair⟩ := map_eq_ok.1 hset
      cases hpair
      obtain ⟨as, u, bs, rfl, rfl⟩ := (Block.set_eq_ok (hx.isKeyed_left hb)).1 hset
      exact .setPath hnames hx
    · intro h
      cases h with
      | @setPath _ name ms u _ as bs _ _ hnames hx =>
        have hset := (Block.set_eq_ok (v := v) (hx.isKeyed_left hb)).2 ⟨as, u, bs, rfl, rfl⟩
        have hmodify := (Block.modifyAt_eq_ok (g := fun m => ((), ·) <$> m.set name v) (x := ()) hb).2
          ⟨_, _, map_eq_ok.2 ⟨_, hset, rfl⟩, hx⟩
        refine ⟨b', ⟨_, hnames, ?_⟩, rfl, rfl⟩
        rw [Block.setAt_append_one, hmodify]
        rfl
  | remove name =>
    simp only [apply, map_eq_ok, Prod.exists, Block.remove_eq_ok hb, Prod.mk.injEq]
    constructor
    · rintro ⟨v, _, ⟨as, bs, rfl, rfl⟩, rfl, rfl⟩
      exact .remove
    · intro h
      cases h with
      | remove => exact ⟨_, _, ⟨_, _, rfl, rfl⟩, rfl, rfl⟩
  | clear =>
    simp only [apply, Except.ok.injEq, Prod.mk.injEq]
    constructor
    · rintro ⟨rfl, rfl⟩
      exact .clear
    · intro h
      cases h
      exact ⟨rfl, rfl⟩

theorem apply_eq_error (hb : b.isKeyed) : c.apply b = .error f ↔ c.Refused b f := by
  cases c with
  | add name v =>
    rw [apply, map_eq_error, Block.add_eq_error]
    constructor
    · rintro ⟨hn, rfl⟩
      exact .add hn
    · intro h
      cases h with
      | add hn => exact ⟨hn, rfl⟩
  | set name v =>
    rw [apply, map_eq_error, Block.set_eq_error]
    constructor
    · rintro ⟨hn, rfl⟩
      exact .set hn
    · intro h
      cases h with
      | set hn => exact ⟨hn, rfl⟩
  | setPath path v =>
    have hlast (ms : List String) (name : String) :
        b.setAt v (ms ++ [name]) = .error f ↔
          b.Stops ms f ∨ ∃ m, b.nested? ms = some m ∧ name ∉ m.names ∧ Fault.missingName name = f := by
      rw [Block.setAt_append_one, map_eq_error, Block.modifyAt_eq_error hb]
      simp only [map_eq_error, Block.set_eq_error]
    rw [apply, map_eq_error, Block.setPath, bind_eq_error]
    constructor
    · rintro (h | ⟨names, hnames, h⟩)
      · exact .badPath h
      · obtain ⟨ms, name, rfl⟩ := Path.exists_concat hnames
        rcases (hlast ms name).1 h with h | ⟨m, hm, hn, rfl⟩
        · exact .stopped hnames h
        · exact .unbound hnames hm hn
    · intro h
      cases h with
      | badPath h => exact .inl h
      | stopped hnames h => exact .inr ⟨_, hnames, (hlast _ _).2 (.inl h)⟩
      | unbound hnames hm hn => exact .inr ⟨_, hnames, (hlast _ _).2 (.inr ⟨_, hm, hn, rfl⟩)⟩
  | remove name =>
    rw [apply, map_eq_error, Block.remove_eq_error]
    constructor
    · rintro ⟨hn, rfl⟩
      exact .remove hn
    · intro h
      cases h with
      | remove hn => exact ⟨hn, rfl⟩
  | clear =>
    constructor
    · intro h
      cases h
    · intro h
      cases h

theorem Makes.isKeyed (h : c.Makes b v? b') (hc : c.isKeyed) (hb : b.isKeyed) : b'.isKeyed := by
  cases h with
  | add hn => exact Block.isKeyed_append hb hc hn
  | set => exact Block.isKeyed_exchange hb hc
  | setPath _ hx => exact hx.isKeyed hb (Block.isKeyed_exchange (hx.isKeyed_left hb) hc)
  | @remove name v as bs =>
    obtain ⟨hd, hes⟩ := Block.isKeyed_iff.1 hb
    have hsub : (as ++ bs).Sublist (as ++ (name, v) :: bs) := List.Sublist.append_left (List.sublist_cons_self _ _) as
    exact Block.isKeyed_iff.2 ⟨hd.sublist (hsub.map _), fun e he => hes e (hsub.subset he)⟩
  | clear => rfl

/-! ## Anywhere in the document -/

theorem applyAlong_eq_ok (hb : b.isKeyed) : c.applyAlong spots b = .ok (v?, b') ↔
    ∃ names m m', Spot.Reach spots b names m ∧ c.Makes m v? m' ∧ Block.Exchanged m m' names b b' := by
  induction spots generalizing b b' with
  | nil =>
    rw [applyAlong, apply_eq_ok hb]
    constructor
    · exact fun h => ⟨[], b, b', .here, h, .here⟩
    · rintro ⟨_, _, _, hreach, h, hx⟩
      cases hreach
      cases hx
      exact h
  | cons spot spots ih =>
    simp only [applyAlong, bind_eq_ok, Block.modifyAt_eq_ok hb]
    constructor
    · rintro ⟨ns, hns, d, d', h, hx⟩
      obtain ⟨ms, m, m', hreach, hmakes, hx'⟩ := (ih (hx.isKeyed_left hb)).1 h
      exact ⟨ns ++ ms, m, m', .step hns (hx.nested hb) hreach, hmakes, hx.trans hx'⟩
    · rintro ⟨_, m, m', hreach, hmakes, hx⟩
      cases hreach with
      | step hns hd hreach =>
        obtain ⟨d', hxd, hx'⟩ := hx.split hb hd
        exact ⟨_, hns, _, d', (ih (hxd.isKeyed_left hb)).2 ⟨_, m, m', hreach, hmakes, hx'⟩, hxd⟩

theorem applyAlong_eq_error (hb : b.isKeyed) : c.applyAlong spots b = .error f ↔
    Spot.Astray spots b f ∨ ∃ names m, Spot.Reach spots b names m ∧ c.Refused m f := by
  induction spots generalizing b with
  | nil =>
    rw [applyAlong, apply_eq_error hb]
    constructor
    · exact fun h => .inr ⟨[], b, .here, h⟩
    · rintro (h | ⟨_, _, hreach, h⟩)
      · cases h
      · cases hreach
        exact h
  | cons spot spots ih =>
    have hkeyed {ns : List String} {d : Block} (hd : b.nested? ns = some d) : d.isKeyed :=
      Scope.isKeyed_block (s := ⟨b, ns, d, hd⟩) hb
    simp only [applyAlong, bind_eq_error, Block.modifyAt_eq_error hb]
    constructor
    · rintro (h | ⟨ns, hns, h | ⟨d, hd, h⟩⟩)
      · exact .inl (.badPath h)
      · exact .inl (.stopped hns h)
      · rcases (ih (hkeyed hd)).1 h with h | ⟨ms, m, hreach, h⟩
        · exact .inl (.later hns hd h)
        · exact .inr ⟨ns ++ ms, m, .step hns hd hreach, h⟩
    · rintro (h | ⟨_, m, hreach, h⟩)
      · cases h with
        | badPath h => exact .inl h
        | stopped hns h => exact .inr ⟨_, hns, .inl h⟩
        | later hns hd h => exact .inr ⟨_, hns, .inr ⟨_, hd, (ih (hkeyed hd)).2 (.inl h)⟩⟩
      · cases hreach with
        | step hns hd hreach =>
          exact .inr ⟨_, hns, .inr ⟨_, hd, (ih (hkeyed hd)).2 (.inr ⟨_, m, hreach, h⟩)⟩⟩

end Change

namespace Action

variable {a : Action} {b b' start last : Block} {outcome : Except Fault (Option Value)}
  {outcomes : List (Except Fault (Option Value))} {actions : List Action}

/-- Make the change in place, in the block that the spots lead to. -/
def perform (a : Action) : InPlace (Option Value) := InPlace.along a.change.perform a.spots

/-- Perform the actions one after the other, whatever comes of each. -/
def performAll (actions : List Action) : StateM Block (List (Except Fault (Option Value))) :=
  actions.mapM fun a => a.perform.run

theorem performAll_cons (a : Action) (actions : List Action) (b : Block) :
    (performAll (a :: actions)).run b =
      ((a.perform.on b).1 :: ((performAll actions).run (a.perform.on b).2).1,
        ((performAll actions).run (a.perform.on b).2).2) := by
  simp only [performAll, List.mapM_cons]
  rfl

theorem perform_iff_does (hb : b.isKeyed) : a.perform.on b = (outcome, b') ↔ a.Does b outcome b' := by
  rw [perform, Change.on_along_perform]
  constructor
  · intro h
    cases happly : a.change.applyAlong a.spots b with
    | ok p =>
      obtain ⟨v?, c⟩ := p
      rw [happly] at h
      cases h
      obtain ⟨names, m, m', hreach, hmakes, hx⟩ := (Change.applyAlong_eq_ok hb).1 happly
      exact .made hreach hmakes hx
    | error f =>
      rw [happly] at h
      cases h
      rcases (Change.applyAlong_eq_error hb).1 happly with h | ⟨names, m, hreach, h⟩
      · exact .astray h
      · exact .refused hreach h
  · intro h
    cases h with
    | made hreach hmakes hx => rw [(Change.applyAlong_eq_ok hb).2 ⟨_, _, _, hreach, hmakes, hx⟩]; rfl
    | astray h => rw [(Change.applyAlong_eq_error hb).2 (.inl h)]; rfl
    | refused hreach h => rw [(Change.applyAlong_eq_error hb).2 (.inr ⟨_, _, hreach, h⟩)]; rfl

/-- No action brings in a name twice. -/
theorem Does.isKeyed (h : a.Does b outcome b') (ha : a.change.isKeyed) (hb : b.isKeyed) : b'.isKeyed := by
  cases h with
  | made _ hmakes hx => exact hx.isKeyed hb (hmakes.isKeyed ha (hx.isKeyed_left hb))
  | astray | refused => exact hb

theorem performAll_iff_history (hb : start.isKeyed) (ha : ∀ a ∈ actions, a.change.isKeyed) :
    (performAll actions).run start = (outcomes, last) ↔ History start actions outcomes last := by
  induction actions generalizing start outcomes with
  | nil =>
    constructor
    · intro h
      cases h
      exact .done hb
    · intro h
      cases h
      rfl
  | cons a actions ih =>
    obtain ⟨ha, hactions⟩ := List.forall_mem_cons.1 ha
    rw [performAll_cons]
    constructor
    · intro h
      cases h
      have hdoes := (perform_iff_does hb).1 (Prod.eta (a.perform.on start)).symm
      exact .step hb hdoes ((ih (hdoes.isKeyed ha hb) hactions).1 rfl)
    · intro h
      cases h with
      | step _ hdoes h =>
        rw [(perform_iff_does hb).2 hdoes, (ih (hdoes.isKeyed ha hb) hactions).2 h]

/-- Performing actions on an empty or a parsed document gives its history, whatever the actions are and
whichever of them fail; and what one action leaves is what applying its change gives, or the document
it was made to if that is a fault. -/
theorem performAll_document (hstart : start = [] ∨ ∃ text, Block.parse text = .ok start)
    (ha : ∀ a ∈ actions, a.change.isKeyed) :
    (∀ outcomes last, (performAll actions).run start = (outcomes, last) ↔ History start actions outcomes last) ∧
    ∀ (c : Change) (spot : Spot) (b : Block),
      (perform ⟨[spot], c⟩).on b = InPlace.settle b (c.applyAt spot b) := by
  have hb : start.isKeyed := by
    rcases hstart with rfl | ⟨text, hparse⟩
    · rfl
    · exact (Block.regular_of_parse hparse : (Value.block start).Regular).isKeyed
  exact ⟨fun outcomes last => performAll_iff_history hb ha, fun c spot b => c.on_along_perform [spot]⟩

/-- A block is added and changed, an entry is taken out and comes last when it is bound again, and in
between fail a name that is bound, one that is not, a path through a value and a path with a blank
name. -/
theorem performAll_document_nested :
    let actions : List Action := [
      ⟨[], .add "m" (.block [("x", .int 1), ("y", .int 2)])⟩, ⟨[], .add "m" (.int 3)⟩,
      ⟨[.child "m"], .remove "x"⟩, ⟨[.here, .inside "m"], .add "x" (.bool true)⟩, ⟨[.child "m"], .set "z" (.int 4)⟩,
      ⟨[], .setPath "m.y" (.int 5)⟩, ⟨[.inside "m . y"], .clear⟩, ⟨[], .setPath "m..y" (.int 6)⟩]
    let outcomes : List (Except Fault (Option Value)) := [
      .ok none, .error (.duplicateName "m"), .ok (some (.int 1)), .ok none, .error (.missingName "z"),
      .ok none, .error (.notABlock "y" (.int 5)), .error (.badPath "m..y")]
    let last : Block := [("m", .block [("y", .int 5), ("x", .bool true)])]
    (∀ a ∈ actions, a.change.isKeyed) ∧ (performAll actions).run [] = (outcomes, last) ∧
      History [] actions outcomes last := by
  intro actions outcomes last
  have ha : ∀ a ∈ actions, a.change.isKeyed := by decide
  have hrun : (performAll actions).run [] = (outcomes, last) := by with_unfolding_all rfl
  exact ⟨ha, hrun, ((performAll_document (.inl rfl) ha).1 outcomes last).1 hrun⟩

end Action

end CaseSetup
