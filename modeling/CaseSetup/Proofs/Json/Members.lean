import CaseSetup.Proofs.Json.Export
import CaseSetup.Proofs.Writing.Hindrances

/-! # Members of exported objects

A dictionary may hold keys of all kinds, but the members of an object have strings for names. Keys of one
kind, and keys that are no strings, never share a name, but for NaNs. So an object repeats a name exactly
if its dictionary has a string for a key that spells out another of its keys, or two keys that are NaNs. -/

namespace CaseSetup

open Float.Model

namespace Literal

/-- Infinities and NaN, but not two NaNs, are told apart by what is written for them. -/
theorem float_inj_of_not_finite {x y : Float} (hx : x.isFinite = false) (hy : y.isFinite = false)
    (h : float x = float y) : x = y := by
  have hunpacked {s : NumberStyle} {r r' : Decimal → Bool} {u u' : UnpackedFloat} (hu : u.isFinite = false)
      (hu' : u'.isFinite = false) (h : s.unpacked r u = s.unpacked r' u') : u = u' := by
    cases u with
    | zero | finite => cases hu
    | notANumber =>
      cases u' with
      | zero | finite => cases hu'
      | notANumber => rfl
      | infinity s' => cases s' <;> simp [NumberStyle.unpacked] at h
    | infinity s =>
      cases u' with
      | zero | finite => cases hu'
      | notANumber => cases s <;> simp [NumberStyle.unpacked] at h
      | infinity s' => cases s <;> cases s' <;> simp [NumberStyle.unpacked] at h ⊢
  have hunpack : x.toModel.unpack = y.toModel.unpack := hunpacked hx hy (String.ofList_injective h)
  rw [← FloatParts.ofUnpacked_unpack x, hunpack, FloatParts.ofUnpacked_unpack y]

end Literal

namespace Key

/-- Is the key a string? -/
def isStr : Key → Bool
  | str _ => true
  | _ => false

/-- Is the key a float that is no number? -/
def isNaN : Key → Bool
  | float x => x.toFloat.isNaN
  | _ => false

theorem exists_str {k : Key} (h : k.isStr = true) : ∃ s, k = str s := by
  cases k with
  | str s => exact ⟨s, rfl⟩
  | _ => cases h

/-- The name of a finite number or of a boolean is read as this key, and that of no other number as any. -/
theorem words_member {k : Key} (hk : k.isStr = false) :
    (∃ w, (Scan.ofText k.member).words = [w] ∧ w.token.key? = some k) ∨
      ∃ x : FloatBits, k = .float x ∧ x.toFloat.isFinite = false ∧
        ∀ w ∈ (Scan.ofText k.member).words, w.token.key? = none := by
  have hend : Breaks [] := nofun
  cases k with
  | str s => cases hk
  | int n => exact .inl ⟨_, ((Lexes.int n).scan hend).1, rfl⟩
  | float x =>
    cases hx : x.toFloat.isFinite with
    | true => exact .inl ⟨_, ((Lexes.float hx).scan hend).1, Token.key?_of_isFinite hx⟩
    | false =>
      obtain ⟨ws, hws, -, hnone⟩ := Lexes.not_finite hx
      refine .inr ⟨x, rfl, hx, ?_⟩
      rwa [show (Scan.ofText (float x).member).words = ws from (hws.scan hend).1]
  | bool b =>
    -- a boolean is a word in any letter case, so its JSON form is read as its literal is
    cases b
    · have h : Lexes Breaks ['f', 'a', 'l', 's', 'e'] [⟨.bool false, none⟩] :=
        Lexes.word (by decide) (List.all_iff_forall_prop.1 (by decide))
      have h : Lexes Breaks "false".toList _ := h
      exact .inl ⟨_, (h.scan hend).1, rfl⟩
    · have h : Lexes Breaks ['t', 'r', 'u', 'e'] [⟨.bool true, none⟩] :=
        Lexes.word (by decide) (List.all_iff_forall_prop.1 (by decide))
      have h : Lexes Breaks "true".toList _ := h
      exact .inl ⟨_, (h.scan hend).1, rfl⟩

/-- Two strings have different names, and so have two keys that are none, but for NaNs. -/
theorem eq_of_member_eq {k k' : Key} (hs : k.isStr = k'.isStr) (h : k.member = k'.member) :
    k = k' ∨ k.isNaN ∧ k'.isNaN := by
  cases hk : k.isStr with
  | true =>
    obtain ⟨s, rfl⟩ := exists_str hk
    obtain ⟨s', rfl⟩ := exists_str (hs.symm.trans hk)
    exact .inl (congrArg str h)
  | false =>
    have hk' : k'.isStr = false := hs.symm.trans hk
    have hwords := words_member hk
    rw [h] at hwords
    rcases words_member hk' with ⟨w', hw', hkey'⟩ | ⟨y, rfl, hy, hnone'⟩
    · rcases hwords with ⟨w, hw, hkey⟩ | ⟨x, -, -, hnone⟩
      · obtain rfl : w = w' := List.singleton_inj.1 (hw.symm.trans hw')
        exact .inl (Option.some.inj (hkey.symm.trans hkey'))
      · cases hkey'.symm.trans (hnone w' (hw' ▸ List.mem_singleton_self w'))
    · rcases hwords with ⟨w, hw, hkey⟩ | ⟨x, rfl, hx, -⟩
      · cases hkey.symm.trans (hnone' w (hw ▸ List.mem_singleton_self w))
      · exact (FloatBits.eq_or_isNaN_of_toFloat_eq (Literal.float_inj_of_not_finite hx hy h)).imp_left (congrArg float)

/-- All NaNs have one name. -/
theorem member_of_isNaN {k : Key} (h : k.isNaN) : k.member = "NaN" := by
  cases k with
  | float x =>
    have hu : x.toFloat.toModel.unpack = .notANumber := by
      have h : x.toFloat.toModel.unpack.isNaN = true := h
      cases hu : x.toFloat.toModel.unpack with
      | notANumber => rfl
      | _ => simp [hu, UnpackedFloat.isNaN] at h
    simp [member, text, Literal.float, NumberStyle.float, hu, NumberStyle.unpacked]
  | _ => cases h

/-- Of two keys with one name, one is a string that spells out the other, or both are NaNs. -/
theorem eq_str_of_member_eq {k k' : Key} (hne : k ≠ k') (h : k.member = k'.member) :
    (k.isStr = false ∧ k' = str k.member) ∨ (k'.isStr = false ∧ k = str k'.member) ∨ k.isNaN ∧ k'.isNaN := by
  cases hk : k.isStr with
  | false =>
    cases hk' : k'.isStr with
    | false => exact .inr (.inr ((eq_of_member_eq (hk.trans hk'.symm) h).resolve_left hne))
    | true =>
      obtain ⟨s, rfl⟩ := exists_str hk'
      exact .inl ⟨rfl, congrArg str h.symm⟩
  | true =>
    obtain ⟨s, rfl⟩ := exists_str hk
    cases hk' : k'.isStr with
    | false => exact .inr (.inl ⟨rfl, congrArg str h⟩)
    | true => exact .inr (.inr ((eq_of_member_eq (hk.trans hk'.symm) h).resolve_left hne))

end Key

/-- A string key of the dictionary spells out another of its keys, or NaNs with different bits are among them. -/
def Dict.Clashes (es : Dict) : Prop :=
  (∃ k ∈ Entries.keys es, k.isStr = false ∧ .str k.member ∈ Entries.keys es) ∨
    ∃ k ∈ Entries.keys es, ∃ k' ∈ Entries.keys es, k ≠ k' ∧ k.isNaN ∧ k'.isNaN

instance (es : Dict) : Decidable (Dict.Clashes es) := inferInstanceAs (Decidable (_ ∨ _))

namespace Json

/-- The tree itself, or one inside it at any depth. -/
inductive Within : Json → Json → Prop
  | self (j : Json) : Within j j
  | item {i j : Json} {js : List Json} : j ∈ js → Within i j → Within i (.arr js)
  | member {i : Json} {m : String × Json} {ms : List (String × Json)} : m ∈ ms → Within i m.2 → Within i (.obj ms)

end Json

namespace Value

variable {u v w : Value} {i j : Json}

/-- Every tree inside the one of a value shows a part of the value. -/
theorem ShownAs.exists_part (h : v.ShownAs j) (hi : i.Within j) : ∃ u, Part u v ∧ u.ShownAs i := by
  induction hi generalizing v with
  | self => exact ⟨v, .self v, h⟩
  | item hj _ ih =>
    cases h with
    | list h | tuple h =>
      obtain ⟨w, hw, hs⟩ := exists_of_mem_right h hj
      obtain ⟨u, hu, hs⟩ := ih hs
      exact ⟨u, .inside hw hu, hs⟩
  | member hm _ ih =>
    cases h with
    | dict _ h | block _ h =>
      obtain ⟨w, hw, hs⟩ := exists_of_mem_right h (List.mem_map_of_mem hm)
      obtain ⟨u, hu, hs⟩ := ih hs
      exact ⟨u, .inside hw hu, hs⟩

theorem Part.isKeyed (h : Part u v) (hv : v.isKeyed) : u.isKeyed := by
  induction h with
  | self => exact hv
  | @inside v w hw _ ih =>
    refine ih ?_
    cases v with
    | bool | int | float | str | var => cases hw
    | list vs | tuple vs => exact itemsKeyed_iff.1 hv w hw
    | dict es =>
      obtain ⟨e, he, rfl⟩ := List.mem_map.1 hw
      exact (isKeyed_dict.1 hv).2 e he
    | block b =>
      obtain ⟨e, he, rfl⟩ := List.mem_map.1 hw
      exact (Block.isKeyed_iff.1 hv).2 e he
    | neg v =>
      obtain rfl := List.mem_singleton.1 hw
      exact hv
    | binary op l r =>
      obtain ⟨hl, hr⟩ := Bool.and_eq_true_iff.1 hv
      rcases List.mem_cons.1 hw with rfl | hw
      · exact hl
      · obtain rfl := List.mem_singleton.1 hw
        exact hr

/-- The object of a block has no name twice. -/
theorem ShownAs.nodup_block {b : Block} {ms : List (String × Json)} (hb : b.isKeyed)
    (h : (Value.block b).ShownAs (.obj ms)) : (ms.map (·.1)).Nodup := by
  cases h with
  | block hkeys => exact hkeys ▸ (Block.isKeyed_iff.1 hb).1

/-- The object of a dictionary has a name twice exactly if a string key spells out another key, or two keys
are NaNs. -/
theorem ShownAs.not_nodup_dict_iff {es : Dict} {ms : List (String × Json)} (hes : (Value.dict es).isKeyed)
    (h : (Value.dict es).ShownAs (.obj ms)) : ¬ (ms.map (·.1)).Nodup ↔ Dict.Clashes es := by
  obtain ⟨hd, -⟩ := isKeyed_dict.1 hes
  cases h with
  | dict hkeys =>
    rw [hkeys, List.nodup_map_iff_inj_on hd]
    constructor
    · intro hnot
      by_contra hno
      refine hnot fun k hk k' hk' heq => by_contra fun hne => hno ?_
      rcases Key.eq_str_of_member_eq hne heq with ⟨hs, rfl⟩ | ⟨hs, rfl⟩ | ⟨hnan, hnan'⟩
      · exact .inl ⟨k, hk, hs, hk'⟩
      · exact .inl ⟨k', hk', hs, hk⟩
      · exact .inr ⟨k, hk, k', hk', hne, hnan, hnan'⟩
    · rintro (⟨k, hk, hs, hk'⟩ | ⟨k, hk, k', hk', hne, hnan, hnan'⟩) hinj
      · cases (congrArg Key.isStr (hinj k hk (.str k.member) hk' rfl)).symm.trans hs
      · exact hne (hinj k hk k' hk' ((Key.member_of_isNaN hnan).trans (Key.member_of_isNaN hnan').symm))

end Value

namespace Block

variable {b : Block} {text : String}

/-- The text of an exported document stands for one tree. An object in it has a name twice exactly if it
is made of a dictionary with a string key that spells out a number or a boolean among its keys, or with
NaNs for keys that differ in their bits. The names of a block are distinct, and so are the names of other
distinct keys. -/
theorem exportJson_members (hb : b.isKeyed) (h : b.exportJson = .ok text) :
    ∃ e j, b.evaluated = .ok e ∧ (∀ j', Json.TextOf text j' ↔ j' = j) ∧
      (∀ ms, (Json.obj ms).Within j → (¬ (ms.map (·.1)).Nodup ↔
        ∃ es, Value.Part (.dict es) (.block e) ∧ (Value.dict es).ShownAs (.obj ms) ∧ Dict.Clashes es)) ∧
      (∀ c ms, Value.Part (.block c) (.block e) → (Value.block c).ShownAs (.obj ms) → (ms.map (·.1)).Nodup) ∧
      ∀ k k' : Key, k ≠ k' → k.member = k'.member → k.isStr ≠ k'.isStr ∨ k.isNaN ∧ k'.isNaN := by
  cases he : b.evaluated with
  | error f => cases (exportJson_of_error he).symm.trans h
  | ok e =>
    have hm : Means b b (.block b) (.block e) := .block ((b.scope.evaluatedBlock_eq_ok_iff hb).1 he)
    have hkeyed : (Value.block e).isKeyed := hm.isKeyed hb hb hb
    obtain ⟨j, hj, hs⟩ := exportJson_of_ok he hm.isLiteral
    obtain rfl := Except.ok.inj (h.symm.trans hj)
    refine ⟨e, j, rfl, fun j' => hs.proper.textOf_pretty 0, fun ms hms => ⟨fun hnot => ?_, ?_⟩, ?_, ?_⟩
    · obtain ⟨u, hu, hshown⟩ := hs.exists_part hms
      cases u with
      | dict es => exact ⟨es, hu, hshown, (hshown.not_nodup_dict_iff (hu.isKeyed hkeyed)).1 hnot⟩
      | block c => exact absurd (hshown.nodup_block (hu.isKeyed hkeyed)) hnot
      | _ => cases hshown
    · rintro ⟨es, hes, hshown, hclash⟩
      exact (hshown.not_nodup_dict_iff (hes.isKeyed hkeyed)).2 hclash
    · exact fun c ms hc hshown => hshown.nodup_block (hc.isKeyed hkeyed)
    · intro k k' hne heq
      by_cases hstr : k.isStr = k'.isStr
      · exact .inr ((Key.eq_of_member_eq hstr heq).resolve_left hne)
      · exact .inl hstr

/-- Keys of all kinds and a NaN, none of which is a string that spells out another. -/
theorem exportJson_members_mixed :
    let b : Block :=
      [("d", .dict [(.int 1, .int 1), (.float (1.0 : Float), .int 2), (.bool true, .int 3), (.str "TRUE", .int 4),
        (.float ⟨0x7FF8000000000000⟩, .int 5)])]
    b.isKeyed ∧ ∃ text j, b.exportJson = .ok text ∧ Json.TextOf text j ∧
      ∀ ms, (Json.obj ms).Within j → (ms.map (·.1)).Nodup := by
  intro b
  have hb : b.isKeyed := by decide +kernel
  have he : b.evaluated = .ok b := by with_unfolding_all rfl
  obtain ⟨_, hexport, -⟩ := exportJson_of_ok he (by decide)
  obtain ⟨e, j, he', htext, hobjects, -⟩ := exportJson_members hb hexport
  obtain rfl := Except.ok.inj (he.symm.trans he')
  refine ⟨hb, _, j, hexport, (htext j).2 rfl, fun ms hms => by_contra fun hnot => ?_⟩
  obtain ⟨es, hes, -, hclash⟩ := (hobjects ms hms).1 hnot
  have hscalar {n : Int64} (h : Value.Part (.dict es) (.int n)) : False := by
    cases h with
    | inside hw => cases hw
  cases hes with
  | inside hw hes =>
    obtain rfl := List.mem_singleton.1 hw
    cases hes with
    | self => exact absurd hclash (by decide +kernel)
    | inside hw hes =>
      obtain ⟨n, -, rfl⟩ : ∃ n ∈ [(1 : Int64), 2, 3, 4, 5], _ = Value.int n := by simpa [Value.parts] using hw
      exact hscalar hes

/-- A number and its text as the keys of a dictionary. -/
theorem exportJson_repeats_member :
    let b : Block := [("x", .dict [(.int 1, .int 1), (.str "1", .int 2)])]
    Block.parse "x = \x7b1: 1, \"1\": 2\x7d\n" = .ok b ∧ ∃ text ms, b.exportJson = .ok text ∧
      Json.TextOf text (.obj [("x", .obj ms)]) ∧ ¬ (ms.map (·.1)).Nodup := by
  intro b
  have hwords : (Scan.ofText "x = \x7b1: 1, \"1\": 2\x7d\n").words =
      [⟨.name "x", none⟩, ⟨.equals, none⟩, ⟨.openBrace, none⟩, ⟨.int 1, none⟩, ⟨.colon, none⟩, ⟨.int 1, none⟩,
        ⟨.comma, none⟩, ⟨.str "1", none⟩, ⟨.colon, none⟩, ⟨.int 2, none⟩, ⟨.closeBrace, none⟩] := by decide +kernel
  have hend : (Scan.ofText "x = \x7b1: 1, \"1\": 2\x7d\n").ending = .clean ⟨2, 0⟩ := by decide +kernel
  have hitem (n : Int64) : Grammar.Item [⟨.int n, none⟩] (.int n) := .expression (.operand (.int n none))
  have hentries : Grammar.DictEntries [⟨.int 1, none⟩, ⟨.colon, none⟩, ⟨.int 1, none⟩, ⟨.comma, none⟩, ⟨.str "1", none⟩,
      ⟨.colon, none⟩, ⟨.int 2, none⟩] [(.int 1, .int 1), (.str "1", .int 2)] :=
    .more rfl (hitem 1) (.last rfl (hitem 2))
  have hparse : Block.parse "x = \x7b1: 1, \"1\": 2\x7d\n" = .ok b :=
    parse_assignment hwords hend (.item (.dict hentries))
  have he : b.evaluated = .ok b := by with_unfolding_all rfl
  have hj : (Value.block b).toJson = .ok (.obj [("x", .obj [("1", .int 1), ("1", .int 2)])]) := by
    with_unfolding_all rfl
  obtain ⟨j, hexport, hs⟩ := exportJson_of_ok he (by decide)
  obtain ⟨j', hj', hs'⟩ := Value.toJson_of_isLiteral (v := .block b) (by decide)
  obtain rfl := Except.ok.inj (hj.symm.trans hj')
  obtain rfl := hs.unique hs'
  exact ⟨hparse, _, _, hexport, (hs.proper.textOf_pretty 0).2 rfl, by decide⟩

end Block

end CaseSetup
