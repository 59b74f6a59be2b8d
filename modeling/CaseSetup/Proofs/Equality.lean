import CaseSetup.Proofs.Reordered
import CaseSetup.Proofs.Writing.Obstacles
import CaseSetup.Value.Equality

/-! # Equality up to the order of entries

The comparison of two maps looks every entry of one up in the other. As keys are distinct and the
lengths agree, nothing is left over on the other side, so it finds exactly the reorderings. Floats
compare as numbers: it is symmetric and transitive, but a NaN is not equal to itself. -/

namespace CaseSetup

/-! ## Keys -/

/-- The keys are of one kind and hold the same, floats bit for bit. -/
inductive Key.Alike : Key → Key → Prop
  | str (s : String) : Alike (.str s) (.str s)
  | int (n : Int64) : Alike (.int n) (.int n)
  | float {x y : FloatBits} : x.bits = y.bits → Alike (.float x) (.float y)
  | bool (b : Bool) : Alike (.bool b) (.bool b)

theorem Key.eq_iff_alike {k k' : Key} : k = k' ↔ k.Alike k' := by
  constructor
  · rintro rfl
    cases k with
    | str s => exact .str s
    | int n => exact .int n
    | float x => exact .float rfl
    | bool b => exact .bool b
  · intro h
    cases h with
    | float h => exact congrArg (fun b => Key.float ⟨b⟩) h
    | _ => rfl

/-! ## Floats as numbers -/

namespace FloatParts

open Float.Model

/-- The two zeros are one number. -/
def unsignedZero : UnpackedFloat → UnpackedFloat
  | .zero _ => .zero .positive
  | u => u

theorem compare_sign_eq_iff {s t : UnpackedFloat.Sign} : compare s t = .eq ↔ s = t := by
  cases s <;> cases t
  · exact iff_of_true rfl rfl
  · exact iff_of_false nofun nofun
  · exact iff_of_false nofun nofun
  · exact iff_of_true rfl rfl

theorem beq_unpacked_iff {u w : UnpackedFloat} :
    u.beq w = true ↔ u.isNaN = false ∧ unsignedZero u = unsignedZero w := by
  have hfinite (m n : Nat) (d e : Int) : (compare d e).then (compare m n) = .eq ↔ m = n ∧ d = e := by
    simp [Ordering.then_eq_eq, and_comm]
  simp only [UnpackedFloat.beq, beq_iff_eq]
  cases u with
  | notANumber => simp [UnpackedFloat.compare, UnpackedFloat.isNaN]
  | infinity s =>
    cases w with
    | infinity t => simp [UnpackedFloat.compare, UnpackedFloat.isNaN, unsignedZero, compare_sign_eq_iff]
    | _ => cases s <;> simp [UnpackedFloat.compare, UnpackedFloat.isNaN, unsignedZero]
  | zero s =>
    cases w with
    | infinity t | finite t => cases t <;> simp [UnpackedFloat.compare, UnpackedFloat.isNaN, unsignedZero]
    | _ => simp [UnpackedFloat.compare, UnpackedFloat.isNaN, unsignedZero]
  | finite s m e =>
    cases w with
    | finite t n d =>
      cases s <;> cases t <;> simp [UnpackedFloat.compare, UnpackedFloat.isNaN, unsignedZero, hfinite]
    | infinity t => cases t <;> simp [UnpackedFloat.compare, UnpackedFloat.isNaN, unsignedZero]
    | _ => cases s <;> simp [UnpackedFloat.compare, UnpackedFloat.isNaN, unsignedZero]

theorem isNaN_congr {u w : UnpackedFloat} (h : unsignedZero u = unsignedZero w) : u.isNaN = w.isNaN := by
  cases u <;> cases w <;> first | rfl | cases h

variable {x y z : Float}

theorem beq_iff : (x == y) = true ↔
    x.isNaN = false ∧ unsignedZero x.toModel.unpack = unsignedZero y.toModel.unpack :=
  beq_unpacked_iff (u := x.toModel.unpack) (w := y.toModel.unpack)

theorem beq_symm (h : (x == y) = true) : (y == x) = true := by
  obtain ⟨hx, hxy⟩ := beq_iff.1 h
  exact beq_iff.2 ⟨(isNaN_congr hxy).symm.trans hx, hxy.symm⟩

theorem beq_trans (h : (x == y) = true) (h' : (y == z) = true) : (x == z) = true := by
  obtain ⟨hx, hxy⟩ := beq_iff.1 h
  exact beq_iff.2 ⟨hx, hxy.trans (beq_iff.1 h').2⟩

theorem beq_self_iff : (x == x) = true ↔ x.isNaN = false :=
  beq_iff.trans (and_iff_left rfl)

end FloatParts

namespace Value

open Value.Reordered

variable {alike : Float → Float → Prop} {u v w : Value}

theorem mem_itemFloats {x : Float} {vs : List Value} : x ∈ itemFloats vs ↔ ∃ v ∈ vs, x ∈ v.floats := by
  induction vs with
  | nil => simp [itemFloats]
  | cons v vs ih => simp [itemFloats, ih]

theorem mem_entryFloats {x : Float} {es : Dict} : x ∈ entryFloats es ↔ ∃ e ∈ es, x ∈ e.2.floats := by
  induction es with
  | nil => simp [entryFloats]
  | cons e es ih => simp [entryFloats, ih]

theorem mem_blockFloats {x : Float} {b : Block} : x ∈ blockFloats b ↔ ∃ e ∈ b, x ∈ e.2.floats := by
  induction b with
  | nil => simp [blockFloats]
  | cons e es ih => simp [blockFloats, ih]

/-- A value that binds no name and no key twice is a reordering of itself if its floats are alike themselves. -/
theorem Reordered.self_iff (hv : v.isKeyed) : v.Reordered alike v ↔ ∀ x ∈ v.floats, alike x x := by
  have hitems {vs : List Value} (hvs : itemsKeyed vs)
      (ih : ∀ v ∈ vs, v.isKeyed → (v.Reordered alike v ↔ ∀ x ∈ v.floats, alike x x)) :
      List.Forall₂ (Reordered alike) vs vs ↔ ∀ x ∈ itemFloats vs, alike x x := by
    simp only [List.forall₂_same, mem_itemFloats]
    constructor
    · rintro h x ⟨v, hv, hx⟩
      exact (ih v hv (itemsKeyed_iff.1 hvs v hv)).1 (h v hv) x hx
    · exact fun h v hv => (ih v hv (itemsKeyed_iff.1 hvs v hv)).2 fun x hx => h x ⟨v, hv, hx⟩
  have hentries {κ : Type} [DecidableEq κ] {es : List (κ × Value)} (hd : (Entries.keys es).Nodup)
      (hes : ∀ e ∈ es, e.2.isKeyed)
      (ih : ∀ e ∈ es, e.2.isKeyed → (e.2.Reordered alike e.2 ↔ ∀ x ∈ e.2.floats, alike x x)) :
      Entries.Shuffled (Reordered alike) es es ↔ ∀ x, (∃ e ∈ es, x ∈ e.2.floats) → alike x x := by
    constructor
    · rintro h x ⟨e, he, hx⟩
      exact (ih e he (hes e he)).1 (h.values e.1 e.2 e.2 he he) x hx
    · exact fun h => .of_perm (.refl _) hd fun e he => (ih e he (hes e he)).2 fun x hx => h x ⟨e, he, hx⟩
  induction v using Value.induction with
  | bool b => exact iff_of_true (.bool b) nofun
  | int n => exact iff_of_true (.int n) nofun
  | str s => exact iff_of_true (.str s) nofun
  | var name => exact iff_of_true (.var name) nofun
  | float x =>
    refine ⟨fun h => ?_, fun h => .float (h x List.mem_cons_self)⟩
    cases h with
    | float h => exact List.forall_mem_singleton.2 h
  | list vs ih =>
    refine Iff.trans ⟨fun h => ?_, .list⟩ (hitems hv ih)
    cases h with
    | list h => exact h
  | tuple vs ih =>
    refine Iff.trans ⟨fun h => ?_, .tuple⟩ (hitems hv ih)
    cases h with
    | tuple h => exact h
  | dict es ih =>
    obtain ⟨hd, hes⟩ := isKeyed_dict.1 hv
    rw [dict_iff, hentries hd hes ih, floats]
    simp only [mem_entryFloats]
  | block b ih =>
    obtain ⟨hd, hb⟩ := Block.isKeyed_iff.1 hv
    rw [block_iff, Block.Reordered, hentries hd hb ih, floats]
    simp only [mem_blockFloats]
  | neg v ih =>
    refine Iff.trans ⟨fun h => ?_, .neg⟩ (ih hv)
    cases h with
    | neg h => exact h
  | binary op l r ihl ihr =>
    obtain ⟨hl, hr⟩ := Bool.and_eq_true_iff.1 hv
    rw [floats, List.forall_mem_append]
    refine Iff.trans ⟨fun h => ?_, fun h => .binary h.1 h.2⟩ (and_congr (ihl hl) (ihr hr))
    cases h with
    | binary h h' => exact ⟨h, h'⟩

/-! ## The comparison finds the reorderings -/

theorem allSame_iff {vs ws : List Value} (hws : ∀ w ∈ ws, w.isKeyed)
    (h : ∀ v ∈ vs, ∀ w, w.isKeyed → (v.same w = true ↔ v.Reordered alike w)) :
    allSame vs ws = true ↔ List.Forall₂ (Reordered alike) vs ws := by
  induction vs generalizing ws with
  | nil => cases ws <;> simp [allSame]
  | cons v vs ih =>
    obtain ⟨hv, hvs⟩ := List.forall_mem_cons.1 h
    cases ws with
    | nil => simp [allSame]
    | cons w ws =>
      obtain ⟨hw, hws⟩ := List.forall_mem_cons.1 hws
      rw [allSame, Bool.and_eq_true, hv w hw, ih hws hvs, List.forall₂_cons]

theorem dictWithin_iff {es fs : Dict} :
    dictWithin es fs = true ↔ ∀ e ∈ es, ∃ w, fs.lookup e.1 = some w ∧ e.2.same w = true := by
  induction es with
  | nil => simp [dictWithin]
  | cons e es ih =>
    rw [dictWithin, Bool.and_eq_true, ih, List.forall_mem_cons]
    cases fs.lookup e.1 <;> simp

theorem blockWithin_iff {b c : Block} :
    blockWithin b c = true ↔ ∀ e ∈ b, ∃ w, c.lookup e.1 = some w ∧ e.2.same w = true := by
  induction b with
  | nil => simp [blockWithin]
  | cons e b ih =>
    rw [blockWithin, Bool.and_eq_true, ih, List.forall_mem_cons]
    cases c.lookup e.1 <;> simp

theorem same_iff_reordered (hv : v.isKeyed) (hw : w.isKeyed) :
    v.same w = true ↔ v.Reordered (fun x y => x == y) w := by
  induction v using Value.induction generalizing w with
  | bool b =>
    cases w with
    | bool c => exact decide_eq_true_iff.trans ⟨fun h => h ▸ .bool b, fun h => by cases h; rfl⟩
    | _ => exact iff_of_false nofun nofun
  | int n =>
    cases w with
    | int m => exact decide_eq_true_iff.trans ⟨fun h => h ▸ .int n, fun h => by cases h; rfl⟩
    | _ => exact iff_of_false nofun nofun
  | float x =>
    cases w with
    | float y =>
      refine ⟨fun h => .float h, fun h => ?_⟩
      cases h with
      | float h => exact h
    | _ => exact iff_of_false nofun nofun
  | str s =>
    cases w with
    | str t => exact decide_eq_true_iff.trans ⟨fun h => h ▸ .str s, fun h => by cases h; rfl⟩
    | _ => exact iff_of_false nofun nofun
  | list vs ih =>
    cases w with
    | list ws =>
      refine (allSame_iff (itemsKeyed_iff.1 hw) fun v h w hw => ih v h (itemsKeyed_iff.1 hv v h) hw).trans
        ⟨.list, fun h => ?_⟩
      cases h with
      | list h => exact h
    | _ => exact iff_of_false nofun nofun
  | tuple vs ih =>
    cases w with
    | tuple ws =>
      refine (allSame_iff (itemsKeyed_iff.1 hw) fun v h w hw => ih v h (itemsKeyed_iff.1 hv v h) hw).trans
        ⟨.tuple, fun h => ?_⟩
      cases h with
      | tuple h => exact h
    | _ => exact iff_of_false nofun nofun
  | dict es ih =>
    cases w with
    | dict fs =>
      obtain ⟨hd, hes⟩ := isKeyed_dict.1 hv
      obtain ⟨hd', hfs⟩ := isKeyed_dict.1 hw
      rw [dict_iff, Entries.Shuffled.iff_lookup hd hd', same, Bool.and_eq_true, decide_eq_true_iff, dictWithin_iff]
      refine and_congr_right fun _ => forall₂_congr fun e he => exists_congr fun w => and_congr_right fun hl => ?_
      exact ih e he (hes e he) (hfs _ (Entries.mem_of_lookup hl))
    | _ => exact iff_of_false nofun nofun
  | block b ih =>
    cases w with
    | block c =>
      obtain ⟨hd, hb⟩ := Block.isKeyed_iff.1 hv
      obtain ⟨hd', hc⟩ := Block.isKeyed_iff.1 hw
      rw [block_iff, Block.Reordered, Entries.Shuffled.iff_lookup hd hd', same, Bool.and_eq_true, decide_eq_true_iff,
        blockWithin_iff]
      refine and_congr_right fun _ => forall₂_congr fun e he => exists_congr fun w => and_congr_right fun hl => ?_
      exact ih e he (hb e he) (hc _ (Entries.mem_of_lookup hl))
    | _ => exact iff_of_false nofun nofun
  | neg v ih =>
    cases w with
    | neg w =>
      refine (ih hv hw : v.same w = true ↔ _).trans ⟨.neg, fun h => ?_⟩
      cases h with
      | neg h => exact h
    | _ => exact iff_of_false nofun nofun
  | binary op l r ihl ihr =>
    cases w with
    | binary op' l' r' =>
      obtain ⟨hl, hr⟩ := Bool.and_eq_true_iff.1 hv
      obtain ⟨hl', hr'⟩ := Bool.and_eq_true_iff.1 hw
      rw [same, Bool.and_eq_true, Bool.and_eq_true, decide_eq_true_iff, ihl hl hl', ihr hr hr']
      constructor
      · rintro ⟨⟨rfl, hl⟩, hr⟩
        exact .binary hl hr
      · intro h
        cases h with
        | binary hl hr => exact ⟨⟨rfl, hl⟩, hr⟩
    | _ => exact iff_of_false nofun nofun
  | var s =>
    cases w with
    | var t => exact decide_eq_true_iff.trans ⟨fun h => h ▸ .var s, fun h => by cases h; rfl⟩
    | _ => exact iff_of_false nofun nofun

theorem same_comm (hv : v.isKeyed) (hw : w.isKeyed) : v.same w = w.same v := by
  rw [Bool.eq_iff_iff, same_iff_reordered hv hw, same_iff_reordered hw hv]
  exact ⟨.symm fun _ _ => FloatParts.beq_symm, .symm fun _ _ => FloatParts.beq_symm⟩

theorem same_trans (hu : u.isKeyed) (hv : v.isKeyed) (hw : w.isKeyed) (h : u.same v = true)
    (h' : v.same w = true) : u.same w = true := by
  rw [same_iff_reordered hu hv] at h
  rw [same_iff_reordered hv hw] at h'
  rw [same_iff_reordered hu hw]
  refine Reordered.trans ?_ h h'
  exact fun _ _ _ => FloatParts.beq_trans

theorem same_self_iff (hv : v.isKeyed) : v.same v = true ↔ ∀ x ∈ v.floats, x.isNaN = false := by
  rw [same_iff_reordered hv hv, Reordered.self_iff hv]
  exact forall₂_congr fun x _ => FloatParts.beq_self_iff

/-- Equality is agreement up to the order of entries. It is symmetric and transitive, and only a NaN,
anywhere but in a key, keeps a value or a block from being equal to itself. -/
theorem same_upToOrder (hu : u.isKeyed) (hv : v.isKeyed) (hw : w.isKeyed) :
    ((v.same w = true ↔ v.Reordered (fun x y => x == y) w) ∧ v.same w = w.same v ∧
      (u.same v = true → v.same w = true → u.same w = true) ∧
      (v.same v = true ↔ ∀ x ∈ v.floats, x.isNaN = false)) ∧
      (∀ a b c : Block, a.isKeyed → b.isKeyed → c.isKeyed →
        (b.same c = true ↔ b.Reordered (fun x y => x == y) c) ∧ b.same c = c.same b ∧
          (a.same b = true → b.same c = true → a.same c = true) ∧
          (b.same b = true ↔ ∀ x ∈ b.floats, x.isNaN = false)) ∧
      ∀ k k' : Key, k = k' ↔ k.Alike k' := by
  refine ⟨⟨same_iff_reordered hv hw, same_comm hv hw, same_trans hu hv hw, same_self_iff hv⟩, ?_, ?_⟩
  · intro a b c ha hb hc
    exact ⟨(same_iff_reordered hb hc).trans block_iff, same_comm hb hc, same_trans ha hb hc, same_self_iff hb⟩
  · exact fun _ _ => Key.eq_iff_alike

/-- The entries are in another order and the zeros have other signs. The keys are two NaNs and two zeros. -/
theorem same_upToOrder_zeros :
    let v := Value.block [("x", .float 0.0), ("y", .dict [(.float ⟨0x7FF8000000000000⟩, .int 1),
      (.float ⟨0xFFF8000000000000⟩, .int 2), (.float ⟨0⟩, .int 3), (.float ⟨0x8000000000000000⟩, .int 4)])]
    let w := Value.block [("y", .dict [(.float ⟨0x8000000000000000⟩, .int 4), (.float ⟨0xFFF8000000000000⟩, .int 2),
      (.float ⟨0x7FF8000000000000⟩, .int 1), (.float ⟨0⟩, .int 3)]), ("x", .float (-0.0))]
    v.isKeyed ∧ w.isKeyed ∧ v.Reordered (fun x y => x == y) w ∧ w.same v = true ∧ ∀ x ∈ v.floats, x.isNaN = false := by
  intro v w
  have hv : v.isKeyed := by decide +kernel
  have hw : w.isKeyed := by decide +kernel
  have hvw : v.same w = true := by decide +kernel
  obtain ⟨⟨hiff, hcomm, -⟩, -⟩ := same_upToOrder hv hv hw
  have hwv : w.same v = true := hcomm ▸ hvw
  obtain ⟨⟨-, -, htrans, -⟩, -⟩ := same_upToOrder hv hw hv
  obtain ⟨⟨-, -, -, hself⟩, -⟩ := same_upToOrder hv hv hv
  exact ⟨hv, hw, hiff.1 hvw, hwv, hself.1 (htrans hvw hwv)⟩

end Value

end CaseSetup
