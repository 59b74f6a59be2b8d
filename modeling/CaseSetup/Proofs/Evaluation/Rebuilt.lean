import CaseSetup.Proofs.Entries
import CaseSetup.Proofs.Evaluation.Keyed
import CaseSetup.Proofs.Induction
import CaseSetup.Proofs.Outcome
import CaseSetup.Scope

/-! # Results built entry by entry

A result can be built as its entries come: each name is added to the block so far, each key put into
the dictionary so far. The names and keys of a document are distinct, so no entry is refused, none
takes the place of another, and all come in the order of the document: the outcome is that of
evaluation. -/

namespace CaseSetup

open Outcome

namespace Value

variable (root here : Site) (enter : Site → String → Except Fault Value)

mutual
/-- The value of what is written in the block `here` at the place `p`, built entry by entry. -/
def rebuildWith (p : Place) : Value → Except Fault Value
  | bool b => .ok (bool b)
  | int n => .ok (int n)
  | float x => .ok (float x)
  | str s => .ok (str s)
  | list items => list <$> rebuildItems p 0 items
  | tuple items => tuple <$> rebuildItems p 0 items
  | dict entries => dict <$> rebuildDict p [] entries
  | block b => block <$> b.foldlM (fun out (name, _) => do Block.add out name (← enter ⟨p, b⟩ name)) []
  | neg v => do Arithmetic.negate (← rebuildWith (.operand :: p) v)
  | binary op l r => do
    let a ← rebuildWith (.left :: p) l
    let b ← rebuildWith (.right :: p) r
    Arithmetic.apply op a b
  | var name =>
    if here.block.binds name then enter here name
    else if root.block.binds name then enter root name
    else .error (.unresolved name)
termination_by structural v => v

def rebuildItems (p : Place) (i : Nat) : List Value → Except Fault (List Value)
  | [] => .ok []
  | v :: vs => do
    let a ← rebuildWith (.item i :: p) v
    let as ← rebuildItems p (i + 1) vs
    return a :: as
termination_by structural vs => vs

/-- Put the entries into `out`. -/
def rebuildDict (p : Place) (out : Dict) : List (Key × Value) → Except Fault Dict
  | [] => .ok out
  | (k, v) :: es => do
    let a ← rebuildWith (.key k :: p) v
    rebuildDict p (Entries.put k a out) es
termination_by structural es => es
end

end Value

/-- The value of the binding `name` of `here`, built entry by entry. -/
def rebuildBinding (root : Site) (active : List Ref) (pending : List Ref) (here : Site) (name : String) :
    Except Fault Value :=
  match here.block.lookup name with
  | none => .error (.missingName name)
  | some v =>
    if _h : here.ref name ∈ pending then
      v.rebuildWith root here
        (rebuildBinding root (here.ref name :: active) (without (here.ref name) pending))
        (.entry name :: here.place)
    else .error (.circular (active.reverse.map (·.name)) name)
termination_by pending.length
decreasing_by exact length_without_lt _h

/-- The value of `v` as if it were written in the scope, built entry by entry. -/
def Scope.rebuild (s : Scope) (v : Value) : Except Fault Value :=
  v.rebuildWith (.root s.root) s.site
    (rebuildBinding (.root s.root) [] (s.root.refs ++ v.refs [.loose])) [.loose]

/-- The document with every binding evaluated, built entry by entry. -/
def Block.rebuilt (b : Block) : Except Fault Block :=
  b.foldlM (fun out (name, _) => do out.add name (← rebuildBinding (.root b) [] b.refs (.root b) name)) []

theorem Block.add_of_not_mem {b : Block} {name : String} (h : name ∉ Entries.keys b) (v : Value) :
    b.add name v = .ok (b ++ [(name, v)]) := by
  unfold add binds
  rw [if_neg fun hb => h (Entries.binds_iff_mem_keys.1 hb)]

/-- Adding new names one after the other puts them after those there are. -/
theorem Block.foldlM_add {value : String → Except Fault Value} {out es : Block}
    (h : (Entries.keys (out ++ es)).Nodup) :
    es.foldlM (fun out e => do Block.add out e.1 (← value e.1)) out =
      (out ++ ·) <$> es.mapM fun e => (e.1, ·) <$> value e.1 := by
  induction es generalizing out with
  | nil => rw [List.foldlM_nil, List.mapM_nil, map_pure, List.append_nil]
  | cons e es ih =>
    obtain ⟨name, v⟩ := e
    have hname : name ∉ Entries.keys out := Entries.not_mem_keys_left h
    rw [List.foldlM_cons, List.mapM_cons]
    cases value name with
    | error f => rfl
    | ok w =>
      have hkeys : Entries.keys (out ++ [(name, w)] ++ es) = Entries.keys (out ++ (name, v) :: es) := by simp
      have hnodup : (Entries.keys (out ++ [(name, w)] ++ es)).Nodup := by rwa [hkeys]
      have htail := ih hnodup
      simp only [bind, Except.bind, add_of_not_mem hname] at htail ⊢
      rw [htail]
      cases es.mapM fun e => (e.1, ·) <$> value e.1 with
      | error f => rfl
      | ok fs => simp [Functor.map, Except.map, pure, Except.pure]

section

variable {root here : Site} {enter enter' : Site → String → Except Fault Value} {p : Place}

theorem rebuildItems_eq {vs : List Value}
    (h : ∀ v ∈ vs, ∀ p, v.rebuildWith root here enter p = v.evaluateWith root here enter' p) (i : Nat) :
    Value.rebuildItems root here enter p i vs = Value.evaluateItems root here enter' p i vs := by
  induction vs generalizing i with
  | nil => rfl
  | cons v vs ih =>
    obtain ⟨hv, hvs⟩ := List.forall_mem_cons.1 h
    rw [Value.rebuildItems, Value.evaluateItems, hv, ih hvs]

theorem rebuildDict_eq {out es : Dict} (hd : (Entries.keys (out ++ es)).Nodup)
    (h : ∀ e ∈ es, ∀ p, e.2.rebuildWith root here enter p = e.2.evaluateWith root here enter' p) :
    Value.rebuildDict root here enter p out es = (out ++ ·) <$> Value.evaluateDict root here enter' p es := by
  induction es generalizing out with
  | nil => exact congrArg Except.ok (List.append_nil out).symm
  | cons e es ih =>
    obtain ⟨k, v⟩ := e
    obtain ⟨hv, hes⟩ := List.forall_mem_cons.1 h
    have hk : k ∉ Entries.keys out := Entries.not_mem_keys_left hd
    rw [Value.rebuildDict, Value.evaluateDict, hv]
    cases v.evaluateWith root here enter' (.key k :: p) with
    | error f => rfl
    | ok a =>
      have hkeys : Entries.keys (out ++ [(k, a)] ++ es) = Entries.keys (out ++ (k, v) :: es) := by simp
      have hnodup : (Entries.keys (out ++ [(k, a)] ++ es)).Nodup := by rwa [hkeys]
      have htail := ih hnodup hes
      simp only [bind, Except.bind, Entries.put_of_not_mem hk, htail]
      cases Value.evaluateDict root here enter' p es with
      | error f => rfl
      | ok fs => simp [Functor.map, Except.map, pure, Except.pure]

theorem Value.rebuildWith_eq (he : ∀ s name, s.block.isKeyed → enter s name = enter' s name)
    (hr : root.block.isKeyed) (hh : here.block.isKeyed) {v : Value} (hv : v.isKeyed) (p : Place) :
    v.rebuildWith root here enter p = v.evaluateWith root here enter' p := by
  induction v using Value.induction generalizing p with
  | bool | int | float | str => rfl
  | list vs ih | tuple vs ih =>
    rw [rebuildWith, evaluateWith, rebuildItems_eq fun v hm => ih v hm (itemsKeyed_iff.1 hv v hm)]
  | dict es ih =>
    obtain ⟨hd, hes⟩ := isKeyed_dict.1 hv
    rw [rebuildWith, evaluateWith, rebuildDict_eq (by simpa using hd) fun e hm => ih e hm (hes e hm)]
    simp
  | block b =>
    have hd : (Entries.keys ([] ++ b)).Nodup := (Block.isKeyed_iff.1 hv).1
    have henter : enter ⟨p, b⟩ = enter' ⟨p, b⟩ := funext fun name => he ⟨p, b⟩ name hv
    rw [rebuildWith, evaluateWith, Block.foldlM_add hd, henter]
    simp
  | neg v ih => rw [rebuildWith, evaluateWith, ih hv]
  | binary op l r ihl ihr =>
    obtain ⟨hl, hr⟩ := Bool.and_eq_true_iff.1 hv
    rw [rebuildWith, evaluateWith, ihl hl, ihr hr]
  | var name => rw [rebuildWith, evaluateWith, he here name hh, he root name hr]

end

theorem rebuildBinding_eq {root : Site} (hr : root.block.isKeyed) (active pending : List Ref) {s : Site}
    (hs : s.block.isKeyed) (name : String) :
    rebuildBinding root active pending s name = evaluateBinding root active pending s name := by
  induction active, pending, s, name using evaluateBinding.induct with
  | case1 active pending s name hl => rw [rebuildBinding, evaluateBinding, hl]
  | case2 active pending s name v hl hp ih =>
    have hv : v.isKeyed := (Block.isKeyed_iff.1 hs).2 _ (Entries.mem_of_lookup hl)
    rw [rebuildBinding, evaluateBinding, hl]
    simp only [hp, ↓reduceDIte]
    exact Value.rebuildWith_eq (fun s name hs => ih s name hs) hr hs hv _
  | case3 active pending s name v hl hp =>
    rw [rebuildBinding, evaluateBinding, hl]
    simp only [hp, ↓reduceDIte]

end CaseSetup
