import CaseSetup.Proofs.Evaluation.Keyed
import CaseSetup.Proofs.Induction
import CaseSetup.Proofs.Related
import CaseSetup.Proofs.Walk

/-! # Values up to the order of entries

A value is reordered if the entries of its blocks and dictionaries are put in another order, at any
depth. All else stays: lists and tuples item by item, scalars one by one. Which floats count as the
same is left open. -/

namespace CaseSetup

open Value

/-- The values are the same up to the order of entries, where `alike` says which floats are. -/
inductive Value.Reordered (alike : Float → Float → Prop) : Value → Value → Prop
  | bool (b : Bool) : Reordered alike (.bool b) (.bool b)
  | int (n : Int64) : Reordered alike (.int n) (.int n)
  | float {x y : Float} : alike x y → Reordered alike (.float x) (.float y)
  | str (s : String) : Reordered alike (.str s) (.str s)
  | list {vs ws : List Value} : List.Forall₂ (Reordered alike) vs ws → Reordered alike (.list vs) (.list ws)
  | tuple {vs ws : List Value} : List.Forall₂ (Reordered alike) vs ws → Reordered alike (.tuple vs) (.tuple ws)
  | dict {es fs : Dict} : (Entries.keys es).Perm (Entries.keys fs) →
    (∀ k v w, (k, v) ∈ es → (k, w) ∈ fs → Reordered alike v w) → Reordered alike (.dict es) (.dict fs)
  | block {b c : Block} : (Entries.keys b).Perm (Entries.keys c) →
    (∀ name v w, (name, v) ∈ b → (name, w) ∈ c → Reordered alike v w) → Reordered alike (.block b) (.block c)
  | neg {v w : Value} : Reordered alike v w → Reordered alike (.neg v) (.neg w)
  | binary {op : Op} {l l' r r' : Value} : Reordered alike l l' → Reordered alike r r' →
    Reordered alike (.binary op l r) (.binary op l' r')
  | var (name : String) : Reordered alike (.var name) (.var name)

/-- The blocks are the same up to the order of entries. -/
def Block.Reordered (alike : Float → Float → Prop) (b c : Block) : Prop :=
  Entries.Shuffled (Value.Reordered alike) b c

variable {alike : Float → Float → Prop}

namespace Value.Reordered

theorem dict_iff {es fs : Dict} :
    (Value.dict es).Reordered alike (.dict fs) ↔ Entries.Shuffled (Reordered alike) es fs := by
  constructor
  · intro h
    cases h with
    | dict hkeys hvalues => exact ⟨hkeys, hvalues⟩
  · exact fun h => .dict h.keys h.values

theorem block_iff {b c : Block} : (Value.block b).Reordered alike (.block c) ↔ b.Reordered alike c := by
  constructor
  · intro h
    cases h with
    | block hkeys hvalues => exact ⟨hkeys, hvalues⟩
  · exact fun h => .block h.keys h.values

theorem symm (halike : ∀ x y, alike x y → alike y x) {v w : Value} (h : v.Reordered alike w) :
    w.Reordered alike v := by
  have hitems {vs ws : List Value} (ih : ∀ v ∈ vs, ∀ w, v.Reordered alike w → w.Reordered alike v)
      (h : List.Forall₂ (Reordered alike) vs ws) : List.Forall₂ (Reordered alike) ws vs :=
    (forall₂_imp_of_mem h fun v w hv hr => ih v hv w hr).flip
  induction v using Value.induction generalizing w with
  | bool b => cases h; exact .bool b
  | int n => cases h; exact .int n
  | float x =>
    cases h with
    | float h => exact .float (halike _ _ h)
  | str s => cases h; exact .str s
  | list vs ih =>
    cases h with
    | list h => exact .list (hitems (fun v hv w => ih v hv) h)
  | tuple vs ih =>
    cases h with
    | tuple h => exact .tuple (hitems (fun v hv w => ih v hv) h)
  | dict es ih =>
    cases h with
    | dict hk h => exact dict_iff.2 (Entries.Shuffled.symm ⟨hk, h⟩ fun e he w => ih e he)
  | block b ih =>
    cases h with
    | block hk h => exact block_iff.2 (Entries.Shuffled.symm ⟨hk, h⟩ fun e he w => ih e he)
  | neg v ih =>
    cases h with
    | neg h => exact .neg (ih h)
  | binary op l r ihl ihr =>
    cases h with
    | binary hl hr => exact .binary (ihl hl) (ihr hr)
  | var name => cases h; exact .var name

theorem trans (halike : ∀ x y z, alike x y → alike y z → alike x z) {u v w : Value} (h : u.Reordered alike v)
    (h' : v.Reordered alike w) : u.Reordered alike w := by
  induction u using Value.induction generalizing v w with
  | bool | int | str | var => cases h; exact h'
  | float x =>
    cases h with
    | float hxy =>
      cases h' with
      | float hyz => exact .float (halike _ _ _ hxy hyz)
  | list us ih =>
    cases h with
    | list h =>
      cases h' with
      | list h' => exact .list (forall₂_trans h h' fun u hu v w => ih u hu)
  | tuple us ih =>
    cases h with
    | tuple h =>
      cases h' with
      | tuple h' => exact .tuple (forall₂_trans h h' fun u hu v w => ih u hu)
  | dict es ih =>
    cases h with
    | dict hk h =>
      cases h' with
      | dict hk' h' =>
        exact dict_iff.2 (Entries.Shuffled.trans ⟨hk, h⟩ ⟨hk', h'⟩ fun e he v w => ih e he)
  | block b ih =>
    cases h with
    | block hk h =>
      cases h' with
      | block hk' h' =>
        exact block_iff.2 (Entries.Shuffled.trans ⟨hk, h⟩ ⟨hk', h'⟩ fun e he v w => ih e he)
  | neg u ih =>
    cases h with
    | neg h =>
      cases h' with
      | neg h' => exact .neg (ih h h')
  | binary op l r ihl ihr =>
    cases h with
    | binary hl hr =>
      cases h' with
      | binary hl' hr' => exact .binary (ihl hl hl') (ihr hr hr')

/-- A value that binds no name and no key twice is a reordering of itself. -/
theorem refl (halike : ∀ x, alike x x) {v : Value} (hv : v.isKeyed) : v.Reordered alike v := by
  have hitems {vs : List Value} (ih : ∀ v ∈ vs, v.isKeyed → v.Reordered alike v) (hk : itemsKeyed vs) :
      List.Forall₂ (Reordered alike) vs vs :=
    List.forall₂_same.2 fun v hv => ih v hv (itemsKeyed_iff.1 hk v hv)
  have hentries {κ : Type} [DecidableEq κ] {es : List (κ × Value)}
      (ih : ∀ e ∈ es, e.2.isKeyed → e.2.Reordered alike e.2)
      (hd : (Entries.keys es).Nodup) (hk : ∀ e ∈ es, e.2.isKeyed) : Entries.Shuffled (Reordered alike) es es :=
    .of_perm (.refl _) hd fun e he => ih e he (hk e he)
  induction v using Value.induction with
  | bool b => exact .bool b
  | int n => exact .int n
  | float x => exact .float (halike x)
  | str s => exact .str s
  | list vs ih => exact .list (hitems ih hv)
  | tuple vs ih => exact .tuple (hitems ih hv)
  | dict es ih =>
    obtain ⟨hd, hes⟩ := isKeyed_dict.1 hv
    exact dict_iff.2 (hentries ih hd hes)
  | block b ih =>
    obtain ⟨hd, hes⟩ := Block.isKeyed_iff.1 hv
    exact block_iff.2 (hentries ih hd hes)
  | neg v ih => exact .neg (ih hv)
  | binary op l r ihl ihr =>
    obtain ⟨hl, hr⟩ := Bool.and_eq_true_iff.1 hv
    exact .binary (ihl hl) (ihr hr)
  | var name => exact .var name

/-- Reordering keeps keys distinct. -/
theorem isKeyed {v w : Value} (h : v.Reordered alike w) (hv : v.isKeyed) : w.isKeyed := by
  have hitems {vs ws : List Value} (ih : ∀ v ∈ vs, ∀ w, v.Reordered alike w → v.isKeyed → w.isKeyed)
      (h : List.Forall₂ (Reordered alike) vs ws) (hk : itemsKeyed vs) : itemsKeyed ws := by
    refine itemsKeyed_iff.2 fun w hw => ?_
    obtain ⟨v, hv, hr⟩ := exists_of_mem_right h hw
    exact ih v hv w hr (itemsKeyed_iff.1 hk v hv)
  have hentries {κ : Type} {es fs : List (κ × Value)}
      (ih : ∀ e ∈ es, ∀ w, e.2.Reordered alike w → e.2.isKeyed → w.isKeyed)
      (h : Entries.Shuffled (Reordered alike) es fs) (hk : ∀ e ∈ es, e.2.isKeyed) : ∀ f ∈ fs, f.2.isKeyed := by
    intro f hf
    obtain ⟨v, hv, hr⟩ := h.exists_left (k := f.1) (b := f.2) hf
    exact ih _ hv _ hr (hk _ hv)
  induction v using Value.induction generalizing w with
  | bool | int | str | var => cases h; rfl
  | float x =>
    cases h with
    | float h => rfl
  | list vs ih =>
    cases h with
    | list h => exact hitems (fun v hv w => ih v hv) h hv
  | tuple vs ih =>
    cases h with
    | tuple h => exact hitems (fun v hv w => ih v hv) h hv
  | dict es ih =>
    obtain ⟨hd, hes⟩ := isKeyed_dict.1 hv
    cases h with
    | dict hk h =>
      have h : Entries.Shuffled (Reordered alike) es _ := ⟨hk, h⟩
      exact isKeyed_dict.2 ⟨h.nodup hd, hentries (fun e he w => ih e he) h hes⟩
  | block b ih =>
    obtain ⟨hd, hes⟩ := Block.isKeyed_iff.1 hv
    cases h with
    | block hk h =>
      have h : Entries.Shuffled (Reordered alike) b _ := ⟨hk, h⟩
      exact Block.isKeyed_iff.2 ⟨h.nodup hd, hentries (fun e he w => ih e he) h hes⟩
  | neg v ih =>
    cases h with
    | @neg _ w h => exact (ih h hv : w.isKeyed)
  | binary op l r ihl ihr =>
    obtain ⟨hl, hr⟩ := Bool.and_eq_true_iff.1 hv
    cases h with
    | binary hl' hr' => exact Bool.and_eq_true_iff.2 ⟨ihl hl' hl, ihr hr' hr⟩

end Value.Reordered

namespace Block.Reordered

variable {b c d : Block}

theorem symm (halike : ∀ x y, alike x y → alike y x) (h : b.Reordered alike c) : c.Reordered alike b :=
  Entries.Shuffled.symm h fun _ _ _ => Value.Reordered.symm halike

theorem isKeyed (h : b.Reordered alike c) (hb : b.isKeyed) : c.isKeyed :=
  Value.Reordered.isKeyed (Value.Reordered.block_iff.2 h) hb

/-- Any order of the entries is a reordering. -/
theorem of_perm (halike : ∀ x, alike x x) (hb : b.isKeyed) (h : b.Perm c) : b.Reordered alike c :=
  Entries.Shuffled.of_perm h (isKeyed_iff.1 hb).1 fun e he => .refl halike ((isKeyed_iff.1 hb).2 e he)

theorem lookup (h : b.Reordered alike c) (hb : b.isKeyed) {name : String} {v : Value} (hl : b.lookup name = some v) :
    v.isKeyed ∧ ∃ w, c.lookup name = some w ∧ v.Reordered alike w := by
  obtain ⟨hd, hkeyed⟩ := isKeyed_iff.1 hb
  exact ⟨hkeyed _ (Entries.mem_of_lookup hl), Entries.Shuffled.lookup h hd hl⟩

theorem lookup_eq_none (h : b.Reordered alike c) (hb : b.isKeyed) {name : String} (hn : b.lookup name = none) :
    c.lookup name = none :=
  Entries.Shuffled.lookup_eq_none h (isKeyed_iff.1 hb).1 hn

/-- The nested blocks of a reordered block are reordered ones. -/
theorem nested (h : b.Reordered alike c) (hb : b.isKeyed) {names : List String} (hn : b.nested? names = some d) :
    ∃ d', c.nested? names = some d' ∧ d.Reordered alike d' := by
  induction names generalizing b c with
  | nil =>
    obtain rfl : b = d := Option.some.inj hn
    exact ⟨c, rfl, h⟩
  | cons name names ih =>
    obtain ⟨d₁, hl, hn⟩ := nested?_cons_eq_some.1 hn
    obtain ⟨hkeyed, w, hw, hr⟩ := h.lookup hb hl
    cases hr with
    | @block _ d₂ hk hv =>
      obtain ⟨d', hd', hr'⟩ := ih ⟨hk, hv⟩ hkeyed hn
      exact ⟨d', nested?_cons_eq_some.2 ⟨d₂, hw, hd'⟩, hr'⟩

end Block.Reordered

end CaseSetup
