import CaseSetup.Json.Export
import CaseSetup.Proofs.Evaluation.Faults
import CaseSetup.Proofs.Evaluation.Finished
import CaseSetup.Proofs.Json.Pretty

/-! # Exported documents

The export of a document fails only where its evaluation does. Its text is JSON that stands for the
evaluated document: every value is found in it, in the same place. -/

namespace CaseSetup

/-- The tree has what the value has. There is no number in JSON for infinities and for NaN. -/
inductive Value.ShownAs : Value → Json → Prop
  | bool (b : Bool) : ShownAs (.bool b) (.bool b)
  | int (n : Int64) : ShownAs (.int n) (.int n.toInt)
  | finite {x : Float} : x.isFinite → ShownAs (.float x) (.float x)
  | infinite {x : Float} : x.isFinite = false → ShownAs (.float x) .null
  | str (s : String) : ShownAs (.str s) (.str s)
  | list {vs : List Value} {js : List Json} : List.Forall₂ ShownAs vs js → ShownAs (.list vs) (.arr js)
  | tuple {vs : List Value} {js : List Json} : List.Forall₂ ShownAs vs js → ShownAs (.tuple vs) (.arr js)
  | dict {es : Dict} {ms : List (String × Json)} : ms.map (·.1) = (Entries.keys es).map Key.member →
    List.Forall₂ ShownAs (es.map (·.2)) (ms.map (·.2)) → ShownAs (.dict es) (.obj ms)
  | block {b : Block} {ms : List (String × Json)} : ms.map (·.1) = Entries.keys b →
    List.Forall₂ ShownAs (b.map (·.2)) (ms.map (·.2)) → ShownAs (.block b) (.obj ms)

theorem jsonItems_eq (vs : List Value) : jsonItems vs = vs.mapM Value.toJson := by
  induction vs with
  | nil => rfl
  | cons v vs ih => simp [jsonItems, ih]

theorem jsonEntries_eq (es : Dict) : jsonEntries es = es.mapM fun e => (e.1.member, ·) <$> e.2.toJson := by
  induction es with
  | nil => rfl
  | cons e es ih => simp [jsonEntries, ih]

theorem jsonBindings_eq (b : Block) : jsonBindings b = b.mapM fun e => (e.1, ·) <$> e.2.toJson := by
  induction b with
  | nil => rfl
  | cons e b ih => simp [jsonBindings, ih]

namespace Value

theorem exists_items {vs : List Value} (h : ∀ v ∈ vs, ∃ j, v.toJson = .ok j ∧ v.ShownAs j) :
    ∃ js, vs.mapM toJson = .ok js ∧ List.Forall₂ ShownAs vs js := by
  induction vs with
  | nil => exact ⟨[], rfl, .nil⟩
  | cons v vs ih =>
    obtain ⟨⟨j, hj, hs⟩, hvs⟩ := List.forall_mem_cons.1 h
    obtain ⟨js, hjs, hss⟩ := ih hvs
    exact ⟨j :: js, by simp [hj, hjs], .cons hs hss⟩

theorem exists_members {κ : Type} (name : κ → String) {es : List (κ × Value)}
    (h : ∀ e ∈ es, ∃ j, e.2.toJson = .ok j ∧ e.2.ShownAs j) :
    ∃ ms, (es.mapM fun e => (name e.1, ·) <$> e.2.toJson) = .ok ms ∧
      ms.map (·.1) = (Entries.keys es).map name ∧ List.Forall₂ ShownAs (es.map (·.2)) (ms.map (·.2)) := by
  induction es with
  | nil => exact ⟨[], rfl, rfl, .nil⟩
  | cons e es ih =>
    obtain ⟨⟨j, hj, hs⟩, hes⟩ := List.forall_mem_cons.1 h
    obtain ⟨ms, hms, hkeys, hss⟩ := ih hes
    exact ⟨(name e.1, j) :: ms, by simp [hj, hms], by simpa [Entries.keys] using hkeys, .cons hs hss⟩

/-- A literal value has a tree, and it shows the value. -/
theorem toJson_of_isLiteral {v : Value} (h : v.isLiteral) : ∃ j, v.toJson = .ok j ∧ v.ShownAs j := by
  induction v using Value.induction with
  | bool b => exact ⟨_, rfl, .bool b⟩
  | int n => exact ⟨_, rfl, .int n⟩
  | float x =>
    cases hx : x.isFinite with
    | true => exact ⟨.float x, by simp [toJson, Json.ofFloat, hx], .finite hx⟩
    | false => exact ⟨.null, by simp [toJson, Json.ofFloat, hx], .infinite hx⟩
  | str s => exact ⟨_, rfl, .str s⟩
  | list vs ih =>
    obtain ⟨js, hjs, hs⟩ := exists_items fun v hv => ih v hv (areLiteral_iff.1 h v hv)
    exact ⟨.arr js, by simp [toJson, jsonItems_eq, hjs], .list hs⟩
  | tuple vs ih =>
    obtain ⟨js, hjs, hs⟩ := exists_items fun v hv => ih v hv (areLiteral_iff.1 h v hv)
    exact ⟨.arr js, by simp [toJson, jsonItems_eq, hjs], .tuple hs⟩
  | dict es ih =>
    obtain ⟨ms, hms, hkeys, hs⟩ := exists_members Key.member fun e he => ih e he (dictIsLiteral_iff.1 h e he)
    exact ⟨.obj ms, by simp [toJson, jsonEntries_eq, hms], .dict hkeys hs⟩
  | block b ih =>
    obtain ⟨ms, hms, hkeys, hs⟩ := exists_members id fun e he => ih e he (blockIsLiteral_iff.1 h e he)
    exact ⟨.obj ms, by simpa [toJson, jsonBindings_eq] using hms, .block (by simpa using hkeys) hs⟩
  | neg | binary | var => simp [isLiteral] at h

/-- A tree that shows a value has finite numbers only. -/
theorem ShownAs.proper {v : Value} {j : Json} (h : v.ShownAs j) : j.Proper := by
  have hitems {vs : List Value} {js : List Json} (ih : ∀ v ∈ vs, ∀ {j}, v.ShownAs j → j.Proper)
      (h : List.Forall₂ ShownAs vs js) : ∀ j ∈ js, j.Proper := by
    intro j hj
    obtain ⟨v, hv, hs⟩ := exists_of_mem_right h hj
    exact ih v hv hs
  have hmembers {κ : Type} {es : List (κ × Value)} {ms : List (String × Json)}
      (ih : ∀ e ∈ es, ∀ {j}, e.2.ShownAs j → j.Proper)
      (h : List.Forall₂ ShownAs (es.map (·.2)) (ms.map (·.2))) : ∀ m ∈ ms, m.2.Proper :=
    fun m hm => hitems (List.forall_mem_map.2 ih) h m.2 (List.mem_map_of_mem hm)
  induction v using Value.induction generalizing j with
  | bool b =>
    cases h
    exact .bool b
  | int n =>
    cases h
    exact .int _
  | float x =>
    cases h with
    | finite hx => exact .float hx
    | infinite => exact .null
  | str s =>
    cases h
    exact .str s
  | list vs ih =>
    cases h with
    | list h => exact .arr (hitems ih h)
  | tuple vs ih =>
    cases h with
    | tuple h => exact .arr (hitems ih h)
  | dict es ih =>
    cases h with
    | dict _ h => exact .obj (hmembers ih h)
  | block b ih =>
    cases h with
    | block _ h => exact .obj (hmembers ih h)
  | neg | binary | var => cases h

/-- No two trees show one value. -/
theorem ShownAs.unique {v : Value} {j j' : Json} (h : v.ShownAs j) (h' : v.ShownAs j') : j = j' := by
  have hmembers {κ : Type} {es : List (κ × Value)} {ms ms' : List (String × Json)}
      (ih : ∀ e ∈ es, ∀ {j j'}, e.2.ShownAs j → e.2.ShownAs j' → j = j') (hkeys : ms.map (·.1) = ms'.map (·.1))
      (h : List.Forall₂ ShownAs (es.map (·.2)) (ms.map (·.2)))
      (h' : List.Forall₂ ShownAs (es.map (·.2)) (ms'.map (·.2))) : ms = ms' := by
    have hvalues : ms.map (·.2) = ms'.map (·.2) := forall₂_unique (List.forall_mem_map.2 ih) h h'
    exact (List.zip_of_prod hkeys hvalues).trans (List.zip_of_prod rfl rfl).symm
  induction v using Value.induction generalizing j j' with
  | bool b | int n | str s =>
    cases h
    cases h'
    rfl
  | float x =>
    cases h with
    | finite hx =>
      cases h' with
      | finite => rfl
      | infinite hx' => cases hx.symm.trans hx'
    | infinite hx =>
      cases h' with
      | finite hx' => cases hx.symm.trans hx'
      | infinite => rfl
  | list vs ih =>
    cases h with
    | list h =>
      cases h' with
      | list h' => rw [forall₂_unique ih h h']
  | tuple vs ih =>
    cases h with
    | tuple h =>
      cases h' with
      | tuple h' => rw [forall₂_unique ih h h']
  | dict es ih =>
    cases h with
    | dict hk h =>
      cases h' with
      | dict hk' h' => rw [hmembers ih (hk.trans hk'.symm) h h']
  | block b ih =>
    cases h with
    | block hk h =>
      cases h' with
      | block hk' h' => rw [hmembers ih (hk.trans hk'.symm) h h']
  | neg | binary | var => cases h

end Value

namespace Block

variable {b e : Block}

theorem exportJson_of_error {f : Fault} (h : b.evaluated = .error f) : b.exportJson = .error f := by
  rw [exportJson, h]
  rfl

/-- What is exported of an evaluated document is the text of its tree. -/
theorem exportJson_of_ok (h : b.evaluated = .ok e) (hl : (Value.block e).isLiteral) :
    ∃ j, b.exportJson = .ok (j.pretty 0) ∧ (Value.block e).ShownAs j := by
  obtain ⟨j, hj, hs⟩ := Value.toJson_of_isLiteral hl
  refine ⟨j, ?_, hs⟩
  simp [exportJson, h, hj]

/-- A document is exported exactly when it can be evaluated, and fails with the same fault, never one
of the export. The text stands for one tree, the one that shows the evaluated document. -/
theorem exportJson_evaluated (hb : b.isKeyed) :
    (∀ f, b.exportJson = .error f ↔ b.evaluated = .error f) ∧
    (∀ f, b.exportJson = .error f → f.code ≠ some 405) ∧
    ∀ e, b.evaluated = .ok e → ∃ text j, b.exportJson = .ok text ∧ (Value.block e).ShownAs j ∧
      ∀ j', Json.TextOf text j' ↔ j' = j := by
  have hok : ∀ e, b.evaluated = .ok e → ∃ j, b.exportJson = .ok (j.pretty 0) ∧ (Value.block e).ShownAs j := by
    intro e he
    have hm : Means b b (.block b) (.block e) := .block ((b.scope.evaluatedBlock_eq_ok_iff hb).1 he)
    exact exportJson_of_ok he hm.isLiteral
  have herror : ∀ f, b.exportJson = .error f ↔ b.evaluated = .error f := by
    refine fun f => ⟨fun h => ?_, exportJson_of_error⟩
    cases he : b.evaluated with
    | ok e =>
      obtain ⟨j, hj, -⟩ := hok e he
      rw [hj] at h
      cases h
    | error f' =>
      rw [exportJson_of_error he] at h
      cases h
      rfl
  refine ⟨herror, fun f hf hcode => ?_, fun e he => ?_⟩
  · have hmem := ((fails_evaluated b).of_error ((herror f).1 hf)).code_mem
    simp [hcode] at hmem
  · obtain ⟨j, hj, hs⟩ := hok e he
    exact ⟨_, j, hj, hs, fun _ => hs.proper.textOf_pretty 0⟩

/-- Empty containers, a key that is no string, a control character and a quote, an infinity, and the
reference to a binding further out. -/
theorem exportJson_evaluated_nested :
    let b : Block := [("n", .int (-3)), ("m", .block [("l", .list [.var "n", .float 0.5, .str "a\"\x01"]),
        ("e", .list []), ("d", .dict [(.int 7, .tuple [.bool true, .dict []])])]), ("x", .float (1.0 / 0.0))]
    let j : Json := .obj [("n", .int (-3)), ("m", .obj [("l", .arr [.int (-3), .float 0.5, .str "a\"\x01"]),
        ("e", .arr []), ("d", .obj [("7", .arr [.bool true, .obj []])])]), ("x", .null)]
    b.isKeyed ∧ ∃ text, b.exportJson = .ok text ∧ ∀ j', Json.TextOf text j' ↔ j' = j := by
  intro b j
  have hb : b.isKeyed := by decide
  let e : Block := [("n", .int (-3)), ("m", .block [("l", .list [.int (-3), .float 0.5, .str "a\"\x01"]),
    ("e", .list []), ("d", .dict [(.int 7, .tuple [.bool true, .dict []])])]), ("x", .float (1.0 / 0.0))]
  have he : b.evaluated = .ok e := by with_unfolding_all rfl
  obtain ⟨-, -, hexport⟩ := exportJson_evaluated hb
  obtain ⟨text, j', htext, hshown, hunique⟩ := hexport e he
  obtain ⟨k, hk, hshown'⟩ := Value.toJson_of_isLiteral (v := .block e) (by decide)
  have hj : (Value.block e).toJson = .ok j := by with_unfolding_all rfl
  obtain rfl : j = k := Except.ok.inj (hj.symm.trans hk)
  obtain rfl : j' = j := hshown.unique hshown'
  exact ⟨hb, text, htext, hunique⟩

end Block

end CaseSetup
