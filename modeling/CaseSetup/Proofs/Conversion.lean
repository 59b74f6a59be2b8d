import CaseSetup.Conversion
import CaseSetup.Proofs.Evaluation.Keyed
import CaseSetup.Proofs.Outcome
import CaseSetup.Proofs.Related
import Mathlib.Data.List.Nodup

/-! # What a value converts to

What a value represents as an element of a target is said with no reference to a conversion: lists and
tuples stand for their items, blocks and dictionaries for their entries, an integer for itself if it is
in range. A value converts to exactly what it represents. One that represents nothing has a first part
that misfits, and the conversion fails with the fault of that part. -/

namespace CaseSetup

/-! ## Lists converted element by element -/

namespace Outcome

variable {ε α β γ : Type} {f : α → Except ε β} {as : List α}

theorem mapM_eq_ok {bs : List β} :
    as.mapM f = .ok bs ↔ List.Forall₂ (fun a b => f a = .ok b) as bs := by
  induction as generalizing bs with
  | nil => simp [pure, Except.pure, eq_comm]
  | cons a as ih =>
    simp only [List.mapM_cons, bind_eq_ok, List.forall₂_cons_left_iff, ih]
    constructor
    · rintro ⟨b, hb, bs, hbs, h⟩
      exact ⟨b, bs, hb, hbs, (pure_eq_ok.1 h).symm⟩
    · rintro ⟨b, bs, hb, hbs, rfl⟩
      exact ⟨b, hb, bs, hbs, rfl⟩

/-- The first element that fails is the one whose fault is seen. -/
theorem mapM_eq_error {err : ε} : as.mapM f = .error err ↔
    ∃ pre a post, as = pre ++ a :: post ∧ (∀ a ∈ pre, ∃ b, f a = .ok b) ∧ f a = .error err := by
  induction as with
  | nil => simp [pure, Except.pure]
  | cons a as ih =>
    rw [List.mapM_cons, bind_eq_error]
    constructor
    · rintro (h | ⟨b, hb, h⟩)
      · exact ⟨[], a, as, rfl, by simp, h⟩
      · obtain ⟨pre, a', post, rfl, hpre, ha'⟩ := ih.1 (map_eq_error.1 h)
        exact ⟨a :: pre, a', post, rfl, List.forall_mem_cons.2 ⟨⟨b, hb⟩, hpre⟩, ha'⟩
    · rintro ⟨pre, a', post, heq, hpre, ha'⟩
      rcases pre with _ | ⟨p, pre⟩
      · obtain ⟨rfl, rfl⟩ := List.cons.inj heq
        exact .inl ha'
      · obtain ⟨rfl, rfl⟩ := List.cons.inj heq
        obtain ⟨⟨b, hb⟩, hpre⟩ := List.forall_mem_cons.1 hpre
        exact .inr ⟨b, hb, map_eq_error.2 (ih.2 ⟨pre, a', post, rfl, hpre, ha'⟩)⟩

variable {R : β → γ → Prop} {S : α → γ → Prop}

/-- The list is converted to related elements if each element is. -/
theorem exists_mapM_iff {cs : List γ} (h : ∀ a ∈ as, ∀ c, (∃ b, f a = .ok b ∧ R b c) ↔ S a c) :
    (∃ bs, as.mapM f = .ok bs ∧ List.Forall₂ R bs cs) ↔ List.Forall₂ S as cs := by
  simp only [mapM_eq_ok]
  induction as generalizing cs with
  | nil => simp
  | cons a as ih =>
    obtain ⟨ha, has⟩ := List.forall_mem_cons.1 h
    simp only [List.forall₂_cons_left_iff, ← ih has, ← ha]
    constructor
    · rintro ⟨_, ⟨b, bs, hb, hbs, rfl⟩, hR⟩
      obtain ⟨c, cs, hc, hcs, rfl⟩ := List.forall₂_cons_left_iff.1 hR
      exact ⟨c, cs, ⟨b, hb, hc⟩, ⟨bs, hbs, hcs⟩, rfl⟩
    · rintro ⟨c, cs, ⟨b, hb, hc⟩, ⟨bs, hbs, hcs⟩, rfl⟩
      exact ⟨_, ⟨b, bs, hb, hbs, rfl⟩, .cons hc hcs⟩

variable {κ : Type} {es : List (κ × α)}

theorem mapM_entries_eq_ok {fs : List (κ × β)} :
    es.mapM (fun e => (e.1, ·) <$> f e.2) = .ok fs ↔ Entries.Related (fun _ a b => f a = .ok b) es fs := by
  have hentry (e : κ × α) (p : κ × β) : (e.1, ·) <$> f e.2 = .ok p ↔ e.1 = p.1 ∧ f e.2 = .ok p.2 := by
    rw [map_eq_ok]
    constructor
    · rintro ⟨b, hb, rfl⟩
      exact ⟨rfl, hb⟩
    · exact fun ⟨hk, hb⟩ => ⟨p.2, hb, Prod.ext hk rfl⟩
  simp only [mapM_eq_ok, hentry]
  rfl

/-- Entries are converted to related ones, in any order, if the value of each is. -/
theorem exists_mapM_entries_iff [DecidableEq κ] {cs : List (κ × γ)} (hd : (Entries.keys es).Nodup)
    (h : ∀ e ∈ es, ∀ c, (∃ b, f e.2 = .ok b ∧ R b c) ↔ S e.2 c) :
    (∃ bs, es.mapM (fun e => (e.1, ·) <$> f e.2) = .ok bs ∧ Entries.Shuffled R bs cs) ↔
      Entries.Shuffled S es cs := by
  simp only [mapM_entries_eq_ok]
  constructor
  · rintro ⟨bs, hbs, hR⟩
    refine ⟨hbs.keys_eq ▸ hR.keys, fun k a c ha hc => ?_⟩
    obtain ⟨b, hb, hab⟩ := hbs.exists_right ha
    exact (h _ ha c).1 ⟨b, hab, hR.values k b c hb hc⟩
  · intro hS
    -- a key has one value on either side, so what its entry is converted to is related to that one
    have hex : ∀ e ∈ es, ∃ b, f e.2 = .ok b ∧ ∀ c, (e.1, c) ∈ cs → R b c := by
      rintro ⟨k, a⟩ ha
      obtain ⟨c, hc, hac⟩ := hS.exists_right ha
      obtain ⟨b, hb, hR⟩ := (h _ ha c).2 hac
      exact ⟨b, hb, fun c' hc' => Entries.eq_of_mem (hS.nodup hd) hc hc' ▸ hR⟩
    obtain ⟨bs, hbs⟩ := Entries.exists_related (R := fun k a b => f a = .ok b ∧ ∀ c, (k, c) ∈ cs → R b c) hex
    refine ⟨bs, hbs.imp fun _ _ _ _ hb => hb.1, hbs.keys_eq ▸ hS.keys, fun k b c hb hc => ?_⟩
    obtain ⟨a, -, hab⟩ := hbs.exists_left hb
    exact hab.2 c hc

end Outcome

open Outcome

/-! ## What a value represents -/

/-- The same element of the target. The entries of a map are in no order. -/
def Target.Equal : (t : Target) → t.Carrier → t.Carrier → Prop
  | .list t, xs, ys => List.Forall₂ t.Equal xs ys
  | .pair s t, x, y => s.Equal x.1 y.1 ∧ t.Equal x.2 y.2
  | .map t, xs, ys => Entries.Shuffled t.Equal xs ys
  | .str, x, y | .bool, x, y | .float, x, y | .float32, x, y | .int _, x, y | .block, x, y => x = y

namespace Value

/-- The value is a list or a tuple of the items. -/
def HasItems (v : Value) (vs : List Value) : Prop := v = .list vs ∨ v = .tuple vs

/-- A binding as an entry of a dictionary. -/
def quotedKey (e : String × Value) : Key × Value := (.str e.1, e.2)

/-- The value is a dictionary with the entries, or a block with them as its bindings. -/
def HasEntries (v : Value) (es : Dict) : Prop := v = .dict es ∨ ∃ b : Block, v = .block b ∧ es = b.map quotedKey

/-- The value is a number, and `x` the float that it is or is nearest to. -/
def Approximates (v : Value) (x : Float) : Prop := v = .float x ∨ ∃ n : Int64, v = .int n ∧ x = .ofInt n.toInt

/-- The value stands for the element of the target. -/
def Represents : (t : Target) → Value → t.Carrier → Prop
  | .str, v, s => v = .str s
  | .bool, v, b => v = .bool b
  | .float, v, x => v.Approximates x
  | .float32, v, x => ∃ y, v.Approximates y ∧ y.toFloat32 = x
  | .int _, v, i => ∃ n, v = .int n ∧ n.toInt = i.val
  | .block, v, b => v = .block b
  | .list t, v, xs => ∃ vs, v.HasItems vs ∧ List.Forall₂ (Represents t) vs xs
  | .pair s t, v, x => ∃ a b, v.HasItems [a, b] ∧ Represents s a x.1 ∧ Represents t b x.2
  | .map t, v, xs => ∃ b : Block, v.HasEntries (b.map quotedKey) ∧ Entries.Shuffled (Represents t) b xs

/-- The value stands for some element of the target. -/
def Fits (t : Target) (v : Value) : Prop := ∃ x, v.Represents t x

end Value

namespace Target

/-- The value is of the kind that the target is made from, whatever its parts are. -/
def Takes : Target → Value → Prop
  | str, v => ∃ s, v = .str s
  | bool, v => ∃ b, v = .bool b
  | float, v | float32, v => ∃ x, v.Approximates x
  | int _, v => ∃ n, v = .int n
  | block, v => ∃ b, v = .block b
  | list _, v => ∃ vs, v.HasItems vs
  | pair .., v => ∃ a b, v.HasItems [a, b]
  | map _, v => ∃ es, v.HasEntries es

/-- The fault of a value of another kind. -/
def mismatch : Target → Value → Fault
  | str => .notAString
  | bool => .notABoolean
  | float | float32 => .notANumber
  | int _ => .notAnInteger
  | block => .notABlockValue
  | list _ => .notAList
  | pair .. => .notAPair
  | map _ => .notADictionary

end Target

namespace Value

/-- The first part of the value that stands for no element of its target, in stored order, has the fault. -/
inductive Misfits : Target → Value → Fault → Prop
  | kind {t : Target} {v : Value} : ¬ t.Takes v → Misfits t v (t.mismatch v)
  | range {k : IntKind} {n : Int64} : ¬ (k.least ≤ n.toInt ∧ n.toInt ≤ k.greatest) →
    Misfits (.int k) (.int n) (.outOfRange n k)
  | item {t : Target} {v w : Value} {pre post : List Value} {f : Fault} : v.HasItems (pre ++ w :: post) →
    (∀ u ∈ pre, u.Fits t) → Misfits t w f → Misfits (.list t) v f
  | first {s t : Target} {v a b : Value} {f : Fault} : v.HasItems [a, b] → Misfits s a f → Misfits (.pair s t) v f
  | second {s t : Target} {v a b : Value} {f : Fault} : v.HasItems [a, b] → a.Fits s → Misfits t b f →
    Misfits (.pair s t) v f
  | key {t : Target} {v w : Value} {pre : Block} {k : Key} {post : Dict} :
    v.HasEntries (pre.map quotedKey ++ (k, w) :: post) → (∀ e ∈ pre, e.2.Fits t) → (∀ name, k ≠ .str name) →
    Misfits (.map t) v (.notAStringKey k)
  | value {t : Target} {v w : Value} {pre : Block} {name : String} {post : Dict} {f : Fault} :
    v.HasEntries (pre.map quotedKey ++ (.str name, w) :: post) → (∀ e ∈ pre, e.2.Fits t) → Misfits t w f →
    Misfits (.map t) v f

variable {s t : Target} {v a b : Value}

/-! ## Items and entries -/

theorem HasItems.isKeyed {vs : List Value} (h : v.HasItems vs) (hv : v.isKeyed) : ∀ w ∈ vs, w.isKeyed := by
  rcases h with rfl | rfl
  · exact itemsKeyed_iff.1 hv
  · exact itemsKeyed_iff.1 hv

theorem keys_map_quotedKey (b : Block) : Entries.keys (b.map quotedKey) = (Entries.keys b).map Key.str := by
  simp [Entries.keys, Function.comp_def, quotedKey]

theorem HasEntries.isKeyed {es : Dict} (h : v.HasEntries es) (hv : v.isKeyed) :
    (Entries.keys es).Nodup ∧ ∀ e ∈ es, e.2.isKeyed := by
  rcases h with rfl | ⟨b, rfl, rfl⟩
  · exact isKeyed_dict.1 hv
  · obtain ⟨hd, hb⟩ := Block.isKeyed_iff.1 hv
    have hstr : Function.Injective Key.str := fun _ _ h => Key.str.inj h
    exact ⟨keys_map_quotedKey b ▸ hd.map hstr, List.forall_mem_map.2 hb⟩

theorem HasEntries.isKeyed_names {b : Block} (h : v.HasEntries (b.map quotedKey)) (hv : v.isKeyed) : b.isKeyed := by
  obtain ⟨hd, hb⟩ := h.isKeyed hv
  exact Block.isKeyed_iff.2 ⟨.of_map Key.str (keys_map_quotedKey b ▸ hd), List.forall_mem_map.1 hb⟩

theorem exists_map_quotedKey {es : Dict} (h : ∀ e ∈ es, ∃ name, e.1 = .str name) :
    ∃ b : Block, es = b.map quotedKey := by
  induction es with
  | nil => exact ⟨[], rfl⟩
  | cons e es ih =>
    obtain ⟨⟨name, hname⟩, hes⟩ := List.forall_mem_cons.1 h
    obtain ⟨b, rfl⟩ := ih hes
    exact ⟨(name, e.2) :: b, by rw [List.map_cons, quotedKey, ← hname]⟩

/-! ## One step of a conversion -/

theorem toStr_eq_ok {s : String} : v.toStr = .ok s ↔ v = .str s := by
  cases v <;> simp [toStr]

theorem toBool_eq_ok {b : Bool} : v.toBool = .ok b ↔ v = .bool b := by
  cases v <;> simp [toBool]

theorem toNumber_eq_ok {x : Float} : v.toNumber = .ok x ↔ v.Approximates x := by
  cases v <;> simp [toNumber, Approximates, eq_comm]

theorem toInt_eq_ok {k : IntKind} {i : k.Range} : v.toInt k = .ok i ↔ ∃ n, v = .int n ∧ n.toInt = i.val := by
  cases v with
  | int n =>
    simp only [toInt, int.injEq, exists_eq_left']
    split
    · exact ⟨fun h => congrArg Subtype.val (Except.ok.inj h), fun h => congrArg Except.ok (Subtype.ext h)⟩
    · rename_i h
      simp only [reduceCtorEq, false_iff]
      exact fun heq => h (heq ▸ i.property)
  | _ => simp [toInt]

theorem toBlock_eq_ok {b : Block} : v.toBlock = .ok b ↔ v = .block b := by
  cases v <;> simp [toBlock]

theorem convert_list {vs : List Value} (h : v.HasItems vs) : v.convert (.list t) = vs.mapM (convert t) := by
  rcases h with rfl | rfl <;> rfl

theorem convert_pair (h : v.HasItems [a, b]) :
    v.convert (.pair s t) = do return (← a.convert s, ← b.convert t) := by
  rcases h with rfl | rfl <;> rfl

theorem convert_pair_eq_ok {y : s.Carrier × t.Carrier} (h : v.HasItems [a, b]) :
    v.convert (.pair s t) = .ok y ↔ a.convert s = .ok y.1 ∧ b.convert t = .ok y.2 := by
  rw [convert_pair h]
  constructor
  · intro hy
    obtain ⟨x, hx, hy⟩ := bind_eq_ok.1 hy
    obtain ⟨z, hz, hy⟩ := bind_eq_ok.1 hy
    cases hy
    exact ⟨hx, hz⟩
  · rintro ⟨hx, hy⟩
    rw [hx, hy]
    rfl

/-- The name and the element that an entry gives. -/
def convertEntry (t : Target) (e : Key × Value) : Except Fault (String × t.Carrier) :=
  match e with
  | (.str name, v) => (name, ·) <$> v.convert t
  | (k, _) => .error (.notAStringKey k)

theorem convert_map {es : Dict} (h : v.HasEntries es) : v.convert (.map t) = es.mapM (convertEntry t) := by
  rcases h with rfl | ⟨b, rfl, rfl⟩
  · rfl
  · rw [List.mapM_map]
    rfl

theorem convert_map_quotedKey {b : Block} (h : v.HasEntries (b.map quotedKey)) :
    v.convert (.map t) = b.mapM fun e => (e.1, ·) <$> e.2.convert t := by
  rw [convert_map h, List.mapM_map]
  rfl

theorem convertEntry_of_ne {k : Key} (h : ∀ name, k ≠ .str name) :
    convertEntry t (k, v) = .error (.notAStringKey k) := by
  cases k with
  | str name => exact absurd rfl (h name)
  | _ => rfl

theorem exists_convertEntry {e : Key × Value} (h : ∃ p, convertEntry t e = .ok p) :
    (∃ name, e.1 = .str name) ∧ ∃ y, e.2.convert t = .ok y := by
  obtain ⟨k, v⟩ := e
  obtain ⟨p, hp⟩ := h
  cases k with
  | str name =>
    obtain ⟨y, hy, -⟩ := map_eq_ok.1 hp
    exact ⟨⟨name, rfl⟩, y, hy⟩
  | _ => cases hp

theorem convertEntry_quotedKey {e : String × Value} (h : ∃ y, e.2.convert t = .ok y) :
    ∃ p, convertEntry t (quotedKey e) = .ok p := by
  obtain ⟨y, hy⟩ := h
  exact ⟨(e.1, y), map_eq_ok.2 ⟨y, hy, rfl⟩⟩

/-- What converts to a map has a string for each key. -/
theorem hasEntries_of_convert_map {ys : List (String × t.Carrier)} (h : v.convert (.map t) = .ok ys) :
    ∃ b : Block, v.HasEntries (b.map quotedKey) := by
  cases v with
  | block b => exact ⟨b, .inr ⟨b, rfl, rfl⟩⟩
  | dict es =>
    have hall : List.Forall₂ (fun e p => convertEntry t e = .ok p) es ys := mapM_eq_ok.1 h
    have hes : ∀ e ∈ es, ∃ name, e.1 = .str name := by
      intro e he
      obtain ⟨p, -, hp⟩ := exists_of_mem_right hall.flip he
      exact (exists_convertEntry ⟨p, hp⟩).1
    obtain ⟨b, rfl⟩ := exists_map_quotedKey hes
    exact ⟨b, .inl rfl⟩
  | _ => cases h

theorem convert_of_not_takes (h : ¬ t.Takes v) : v.convert t = .error (t.mismatch v) := by
  have hnumber : (¬ ∃ x, v.Approximates x) → v.toNumber = .error (.notANumber v) := by
    intro h
    cases v with
    | float x => exact absurd ⟨x, .inl rfl⟩ h
    | int n => exact absurd ⟨_, .inr ⟨n, rfl, rfl⟩⟩ h
    | _ => rfl
  cases t with
  | str =>
    cases v with
    | str s => exact absurd ⟨s, rfl⟩ h
    | _ => rfl
  | bool =>
    cases v with
    | bool b => exact absurd ⟨b, rfl⟩ h
    | _ => rfl
  | float => exact hnumber h
  | float32 => exact map_eq_error.2 (hnumber h)
  | int k =>
    cases v with
    | int n => exact absurd ⟨n, rfl⟩ h
    | _ => rfl
  | block =>
    cases v with
    | block b => exact absurd ⟨b, rfl⟩ h
    | _ => rfl
  | list t =>
    cases v with
    | list vs => exact absurd ⟨vs, .inl rfl⟩ h
    | tuple vs => exact absurd ⟨vs, .inr rfl⟩ h
    | _ => rfl
  | pair s t =>
    cases v with
    | list vs | tuple vs =>
      rcases vs with _ | ⟨a, _ | ⟨b, _ | _⟩⟩
      · rfl
      · rfl
      · exact absurd ⟨a, b, by simp [HasItems]⟩ h
      · rfl
    | _ => rfl
  | map t =>
    cases v with
    | dict es => exact absurd ⟨es, .inl rfl⟩ h
    | block b => exact absurd ⟨_, .inr ⟨b, rfl, rfl⟩⟩ h
    | _ => rfl

theorem takes_of_convert {y : t.Carrier} (h : v.convert t = .ok y) : t.Takes v := by
  by_contra hnot
  rw [convert_of_not_takes hnot] at h
  cases h

/-! ## A value converts to what it represents -/

theorem exists_convert_iff {x : t.Carrier} (hv : v.isKeyed) :
    (∃ y, v.convert t = .ok y ∧ t.Equal y x) ↔ v.Represents t x := by
  induction t generalizing v with
  | str => exact exists_eq_right.trans toStr_eq_ok
  | bool => exact exists_eq_right.trans toBool_eq_ok
  | float => exact exists_eq_right.trans toNumber_eq_ok
  | float32 =>
    refine exists_eq_right.trans (map_eq_ok.trans ?_)
    simp only [toNumber_eq_ok]
    rfl
  | int k => exact exists_eq_right.trans toInt_eq_ok
  | block => exact exists_eq_right.trans toBlock_eq_ok
  | list t ih =>
    have hitems (vs : List Value) (hvs : v.HasItems vs) :
        (∃ y, v.convert (.list t) = .ok y ∧ (Target.list t).Equal y x) ↔ List.Forall₂ (Represents t) vs x := by
      rw [convert_list hvs]
      exact exists_mapM_iff fun w hw c => ih (v := w) (x := c) (hvs.isKeyed hv w hw)
    constructor
    · rintro ⟨y, hy, hyx⟩
      obtain ⟨vs, hvs⟩ := takes_of_convert hy
      exact ⟨vs, hvs, (hitems vs hvs).1 ⟨y, hy, hyx⟩⟩
    · rintro ⟨vs, hvs, hvx⟩
      exact (hitems vs hvs).2 hvx
  | pair s t ihs iht =>
    constructor
    · rintro ⟨y, hy, hxa, hxb⟩
      obtain ⟨a, b, hab⟩ := takes_of_convert hy
      obtain ⟨hya, hyb⟩ := (convert_pair_eq_ok hab).1 hy
      have hkeyed := hab.isKeyed hv
      exact ⟨a, b, hab, (ihs (hkeyed a (by simp))).1 ⟨y.1, hya, hxa⟩, (iht (hkeyed b (by simp))).1 ⟨y.2, hyb, hxb⟩⟩
    · rintro ⟨a, b, hab, hxa, hxb⟩
      have hkeyed := hab.isKeyed hv
      obtain ⟨y, hy, hyx⟩ := (ihs (hkeyed a (by simp))).2 hxa
      obtain ⟨z, hz, hzx⟩ := (iht (hkeyed b (by simp))).2 hxb
      exact ⟨(y, z), (convert_pair_eq_ok hab).2 ⟨hy, hz⟩, hyx, hzx⟩
  | map t ih =>
    have hentries (b : Block) (hb : v.HasEntries (b.map quotedKey)) :
        (∃ y, v.convert (.map t) = .ok y ∧ (Target.map t).Equal y x) ↔ Entries.Shuffled (Represents t) b x := by
      obtain ⟨hd, hkeyed⟩ := Block.isKeyed_iff.1 (hb.isKeyed_names hv)
      rw [convert_map_quotedKey hb]
      exact exists_mapM_entries_iff hd fun e he c => ih (v := e.2) (x := c) (hkeyed e he)
    constructor
    · rintro ⟨y, hy, hyx⟩
      obtain ⟨b, hb⟩ := hasEntries_of_convert_map hy
      exact ⟨b, hb, (hentries b hb).1 ⟨y, hy, hyx⟩⟩
    · rintro ⟨b, hb, hbx⟩
      exact (hentries b hb).2 hbx

/-- What a conversion gives is an element of the target: its maps have no name twice. -/
theorem equal_of_convert {y : t.Carrier} (hv : v.isKeyed) (h : v.convert t = .ok y) : t.Equal y y := by
  induction t generalizing v with
  | str | bool | float | float32 | int | block => exact (rfl : y = y)
  | list t ih =>
    obtain ⟨vs, hvs⟩ := takes_of_convert h
    rw [convert_list hvs] at h
    refine List.forall₂_same.2 fun z hz => ?_
    obtain ⟨w, hw, hwz⟩ := exists_of_mem_right (mapM_eq_ok.1 h) hz
    exact ih (hvs.isKeyed hv w hw) hwz
  | pair s t ihs iht =>
    obtain ⟨a, b, hab⟩ := takes_of_convert h
    obtain ⟨ha, hb⟩ := (convert_pair_eq_ok hab).1 h
    have hkeyed := hab.isKeyed hv
    exact ⟨ihs (hkeyed a (by simp)) ha, iht (hkeyed b (by simp)) hb⟩
  | map t ih =>
    obtain ⟨b, hb⟩ := hasEntries_of_convert_map h
    obtain ⟨hd, hkeyed⟩ := Block.isKeyed_iff.1 (hb.isKeyed_names hv)
    rw [convert_map_quotedKey hb] at h
    have hrel := mapM_entries_eq_ok.1 h
    refine Entries.Shuffled.of_perm (.refl _) (hrel.keys_eq ▸ hd) fun e he => ?_
    obtain ⟨w, hw, hwe⟩ := hrel.exists_left (k := e.1) (b := e.2) he
    exact ih (hkeyed _ hw) hwe

theorem exists_convert_iff_fits (hv : v.isKeyed) : (∃ y, v.convert t = .ok y) ↔ v.Fits t := by
  constructor
  · rintro ⟨y, hy⟩
    exact ⟨y, (exists_convert_iff hv).1 ⟨y, hy, equal_of_convert hv hy⟩⟩
  · rintro ⟨x, hx⟩
    obtain ⟨y, hy, -⟩ := (exists_convert_iff hv).2 hx
    exact ⟨y, hy⟩

/-! ## A conversion fails at the first part that misfits -/

theorem forall_convertEntry {pre : Block} {post : Dict} (hkeyed : ∀ e ∈ pre.map quotedKey ++ post, e.2.isKeyed)
    (hpre : ∀ e ∈ pre, e.2.Fits t) : ∀ e ∈ pre.map quotedKey, ∃ p, convertEntry t e = .ok p := by
  refine List.forall_mem_map.2 fun e he => convertEntry_quotedKey ((exists_convert_iff_fits ?_).2 (hpre e he))
  exact hkeyed (quotedKey e) (List.mem_append_left _ (List.mem_map_of_mem he))

theorem Misfits.convert_eq {f : Fault} (h : v.Misfits t f) (hv : v.isKeyed) : v.convert t = .error f := by
  induction h with
  | kind hnot => exact convert_of_not_takes hnot
  | range hn => exact dif_neg hn
  | @item t v w pre post f hvs hpre _ ih =>
    have hkeyed := hvs.isKeyed hv
    rw [convert_list hvs]
    refine mapM_eq_error.2 ⟨pre, w, post, rfl, fun u hu => ?_, ih (hkeyed w (by simp))⟩
    exact (exists_convert_iff_fits (hkeyed u (by simp [hu]))).2 (hpre u hu)
  | @first s t v a b f hab _ ih =>
    rw [convert_pair hab]
    exact bind_eq_error.2 (.inl (ih (hab.isKeyed hv a (by simp))))
  | @second s t v a b f hab ha _ ih =>
    have hkeyed := hab.isKeyed hv
    obtain ⟨y, hy⟩ := (exists_convert_iff_fits (hkeyed a (by simp))).2 ha
    rw [convert_pair hab]
    exact bind_eq_error.2 (.inr ⟨y, hy, map_eq_error.2 (ih (hkeyed b (by simp)))⟩)
  | @key t v w pre k post hes hpre hk =>
    obtain ⟨-, hkeyed⟩ := hes.isKeyed hv
    rw [convert_map hes]
    exact mapM_eq_error.2 ⟨_, _, post, rfl, forall_convertEntry hkeyed hpre, convertEntry_of_ne hk⟩
  | @value t v w pre name post f hes hpre _ ih =>
    obtain ⟨-, hkeyed⟩ := hes.isKeyed hv
    rw [convert_map hes]
    have hw : convertEntry t (.str name, w) = .error f := map_eq_error.2 (ih (hkeyed (.str name, w) (by simp)))
    exact mapM_eq_error.2 ⟨_, _, post, rfl, forall_convertEntry hkeyed hpre, hw⟩

/-- A value of another kind misfits as a whole. -/
theorem misfits_of_takes {f : Fault} (h : v.convert t = .error f) (htakes : t.Takes v → v.Misfits t f) :
    v.Misfits t f := by
  by_cases hv : t.Takes v
  · exact htakes hv
  · rw [convert_of_not_takes hv] at h
    exact Except.error.inj h ▸ .kind hv

theorem misfits_of_convert {f : Fault} (hv : v.isKeyed) (h : v.convert t = .error f) : v.Misfits t f := by
  induction t generalizing v with
  | str | bool | block =>
    refine misfits_of_takes h fun ⟨x, hx⟩ => ?_
    subst hx
    cases h
  | float =>
    refine misfits_of_takes h fun ⟨x, hx⟩ => ?_
    cases (toNumber_eq_ok.2 hx).symm.trans h
  | float32 =>
    refine misfits_of_takes h fun ⟨x, hx⟩ => ?_
    cases (toNumber_eq_ok.2 hx).symm.trans (map_eq_error.1 h)
  | int k =>
    refine misfits_of_takes h fun ⟨n, hn⟩ => ?_
    subst hn
    by_cases hrange : k.least ≤ n.toInt ∧ n.toInt ≤ k.greatest
    · cases (dif_pos hrange).symm.trans h
    · exact Except.error.inj ((dif_neg hrange).symm.trans h) ▸ .range hrange
  | list t ih =>
    refine misfits_of_takes h fun ⟨vs, hvs⟩ => ?_
    have hkeyed := hvs.isKeyed hv
    rw [convert_list hvs] at h
    obtain ⟨pre, w, post, rfl, hpre, hw⟩ := mapM_eq_error.1 h
    refine .item hvs (fun u hu => ?_) (ih (hkeyed w (by simp)) hw)
    exact (exists_convert_iff_fits (hkeyed u (by simp [hu]))).1 (hpre u hu)
  | pair s t ihs iht =>
    refine misfits_of_takes h fun ⟨a, b, hab⟩ => ?_
    have hkeyed := hab.isKeyed hv
    rw [convert_pair hab] at h
    rcases bind_eq_error.1 h with h | ⟨y, hy, h⟩
    · exact .first hab (ihs (hkeyed a (by simp)) h)
    · exact .second hab ((exists_convert_iff_fits (hkeyed a (by simp))).1 ⟨y, hy⟩)
        (iht (hkeyed b (by simp)) (map_eq_error.1 h))
  | map t ih =>
    refine misfits_of_takes h fun ⟨es, hes⟩ => ?_
    obtain ⟨-, hkeyed⟩ := hes.isKeyed hv
    rw [convert_map hes] at h
    obtain ⟨pre, ⟨k, w⟩, post, rfl, hpre, hw⟩ := mapM_eq_error.1 h
    -- the entries before the first that fails were converted, so their keys are strings
    obtain ⟨pre, rfl⟩ := exists_map_quotedKey fun e he => (exists_convertEntry (hpre e he)).1
    have hfits : ∀ e ∈ pre, e.2.Fits t := by
      intro e he
      have he := List.mem_map_of_mem (f := quotedKey) he
      exact (exists_convert_iff_fits (hkeyed _ (List.mem_append_left _ he))).1 (exists_convertEntry (hpre _ he)).2
    cases k with
    | str name => exact .value hes hfits (ih (hkeyed (.str name, w) (by simp)) (map_eq_error.1 hw))
    | _ => exact Except.error.inj hw ▸ .key hes hfits nofun

theorem Misfits.kind_eq {f : Fault} (h : v.Misfits t f) : f.cause.kind = .wrongType := by
  induction h with
  | @kind t => cases t <;> rfl
  | range | key => rfl
  | item _ _ _ ih | first _ _ ih | second _ _ _ ih | value _ _ _ ih => exact ih

/-- The conversion gives the element that the value represents. If it represents none, the conversion
fails with the fault of the first part that misfits. -/
theorem convert_represents (hv : v.isKeyed) :
    (∀ x, (∃ y, v.convert t = .ok y ∧ t.Equal y x) ↔ v.Represents t x) ∧
      (¬ v.Fits t → ∃ f, v.convert t = .error f ∧ f.cause.kind = .wrongType) ∧
      ∀ f, v.convert t = .error f ↔ v.Misfits t f := by
  refine ⟨fun x => exists_convert_iff hv, fun hnot => ?_, fun f => ⟨misfits_of_convert hv, fun h => h.convert_eq hv⟩⟩
  cases hc : v.convert t with
  | ok y => exact absurd ((exists_convert_iff_fits hv).1 ⟨y, hc⟩) hnot
  | error f => exact ⟨f, rfl, (misfits_of_convert hv hc).kind_eq⟩

/-- A block of lists of pairs as a map, and a list of bytes with an item that is none. -/
theorem convert_represents_nested :
    let v := Value.block
      [("odd", .list [.tuple [.str "one", .int 1], .list [.str "nine", .int 9]]), ("even", .tuple [])]
    let w := Value.list [.int 255, .int 256, .bool true]
    (v.isKeyed ∧ v.Represents (.map (.list (.pair .str (.int .uint8))))
      [("odd", [("one", ⟨1, by decide⟩), ("nine", ⟨9, by decide⟩)]), ("even", [])]) ∧
      w.isKeyed ∧ w.Misfits (.list (.int .uint8)) (.outOfRange 256 .uint8) := by
  intro v w
  have hv : v.isKeyed := by decide
  have hw : w.isKeyed := by decide
  refine ⟨⟨hv, (convert_represents hv).1 _ |>.1 ⟨_, rfl, equal_of_convert hv rfl⟩⟩, hw, ?_⟩
  exact ((convert_represents hw).2.2 _).1 rfl

end Value

end CaseSetup
