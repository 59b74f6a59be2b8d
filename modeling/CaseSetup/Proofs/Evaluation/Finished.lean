import CaseSetup.Proofs.Evaluation.Derivation
import CaseSetup.Proofs.Evaluation.Faults
import CaseSetup.Proofs.Evaluation.Literal
import CaseSetup.Proofs.Evaluation.Rebuilt

/-! # Finished documents

The evaluated form of a document is the document with a value in place of each expression: names and
keys, lists and tuples stay as they are and where they are. No expression is left in it, so it is its
own evaluated form. -/

namespace CaseSetup

/-- The second value is the first with some value in place of each expression. -/
inductive Value.FilledBy : Value → Value → Prop
  | bool (b : Bool) : FilledBy (.bool b) (.bool b)
  | int (n : Int64) : FilledBy (.int n) (.int n)
  | float (x : Float) : FilledBy (.float x) (.float x)
  | str (s : String) : FilledBy (.str s) (.str s)
  | list {vs ws : List Value} : List.Forall₂ FilledBy vs ws → FilledBy (.list vs) (.list ws)
  | tuple {vs ws : List Value} : List.Forall₂ FilledBy vs ws → FilledBy (.tuple vs) (.tuple ws)
  | dict {es fs : Dict} : Entries.keys fs = Entries.keys es →
    List.Forall₂ FilledBy (es.map (·.2)) (fs.map (·.2)) → FilledBy (.dict es) (.dict fs)
  | block {b c : Block} : Entries.keys c = Entries.keys b →
    List.Forall₂ FilledBy (b.map (·.2)) (c.map (·.2)) → FilledBy (.block b) (.block c)
  | neg {v w : Value} : w.IsNumber → FilledBy (.neg v) w
  | binary {op : Op} {l r w : Value} : w.IsNumber → FilledBy (.binary op l r) w
  | var {name : String} {w : Value} : FilledBy (.var name) w

theorem Entries.Related.values {κ α β : Type} {R : κ → α → β → Prop} {es : List (κ × α)} {fs : List (κ × β)}
    (h : Related R es fs) {S : α → β → Prop} (hRS : ∀ k a b, R k a b → S a b) :
    List.Forall₂ S (es.map (·.2)) (fs.map (·.2)) := by
  rw [List.forall₂_map_left_iff, List.forall₂_map_right_iff]
  exact List.Forall₂.imp (fun _ _ hef => hRS _ _ _ hef.2) h

section

variable {root here : Block} {v w : Value}

theorem Means.filledBy (h : Means root here v w) : v.FilledBy w := by
  induction h using Means.induction with
  | bool here b => exact .bool b
  | int here n => exact .int n
  | float here x => exact .float x
  | str here s => exact .str s
  | list here vs ws _ ih => exact .list (ih.imp fun _ _ ⟨_, ih⟩ => ih)
  | tuple here vs ws _ ih => exact .tuple (ih.imp fun _ _ ⟨_, ih⟩ => ih)
  | dict here es fs _ ih => exact .dict ih.keys_eq (ih.values fun _ _ _ ⟨_, ih⟩ => ih)
  | block here b c _ ih => exact .block ih.keys_eq (ih.values fun _ _ _ ⟨_, ih⟩ => ih)
  | neg here v a w _ hw => exact .neg (Arithmetic.isNumber_of_negate hw).2
  | binary here op l r a b w _ _ hw => exact .binary (Arithmetic.isNumber_of_apply hw).2.2
  | near here name v w | far here name v w => exact .var

theorem Value.IsNumber.isLiteral (h : v.IsNumber) : v.isLiteral := by
  obtain ⟨n, rfl⟩ | ⟨x, rfl⟩ := h <;> rfl

theorem Value.IsNumber.isKeyed (h : v.IsNumber) : v.isKeyed := by
  obtain ⟨n, rfl⟩ | ⟨x, rfl⟩ := h <;> rfl

/-- A result is literal wherever its parts come from: a reference gives what another derivation
gives. -/
theorem Means.isLiteral (h : Means root here v w) : w.isLiteral := by
  induction h using Means.induction with
  | bool | int | float | str => rfl
  | list here vs ws _ ih | tuple here vs ws _ ih =>
    refine Value.areLiteral_iff.2 fun w hw => ?_
    obtain ⟨v, -, _, ih⟩ := exists_of_mem_right ih hw
    exact ih
  | dict here es fs _ ih =>
    refine Value.dictIsLiteral_iff.2 fun f hf => ?_
    obtain ⟨v, -, _, ih⟩ := ih.exists_left (k := f.1) (b := f.2) hf
    exact ih
  | block here b c _ ih =>
    refine Value.blockIsLiteral_iff.2 fun f hf => ?_
    obtain ⟨v, -, _, ih⟩ := ih.exists_left (k := f.1) (b := f.2) hf
    exact ih
  | neg here v a w _ hw => exact (Arithmetic.isNumber_of_negate hw).2.isLiteral
  | binary here op l r a b w _ _ hw => exact (Arithmetic.isNumber_of_apply hw).2.2.isLiteral
  | near here name v w _ _ ih | far here name v w _ _ _ ih => exact ih

theorem Means.isKeyed (h : Means root here v w) (hroot : root.isKeyed) (hhere : here.isKeyed) (hv : v.isKeyed) :
    w.isKeyed := by
  have hlookup {b : Block} (hb : b.isKeyed) {name : String} {v : Value} (hl : b.lookup name = some v) : v.isKeyed :=
    (Block.isKeyed_iff.1 hb).2 _ (Entries.mem_of_lookup hl)
  induction h using Means.induction with
  | bool | int | float | str => rfl
  | list here vs ws _ ih | tuple here vs ws _ ih =>
    refine itemsKeyed_iff.2 fun w hw => ?_
    obtain ⟨v, hm, _, ih⟩ := exists_of_mem_right ih hw
    exact ih hhere (itemsKeyed_iff.1 hv v hm)
  | dict here es fs _ ih =>
    obtain ⟨hd, hes⟩ := Value.isKeyed_dict.1 hv
    refine Value.isKeyed_dict.2 ⟨ih.keys_eq ▸ hd, fun f hf => ?_⟩
    obtain ⟨v, he, _, ih⟩ := ih.exists_left (k := f.1) (b := f.2) hf
    exact ih hhere (hes _ he)
  | block here b c _ ih =>
    obtain ⟨hd, hb⟩ := Block.isKeyed_iff.1 hv
    refine Block.isKeyed_iff.2 ⟨ih.keys_eq ▸ hd, fun f hf => ?_⟩
    obtain ⟨v, he, _, ih⟩ := ih.exists_left (k := f.1) (b := f.2) hf
    exact ih hv (hb _ he)
  | neg here v a w _ hw => exact (Arithmetic.isNumber_of_negate hw).2.isKeyed
  | binary here op l r a b w _ _ hw => exact (Arithmetic.isNumber_of_apply hw).2.2.isKeyed
  | near here name v w hl _ ih => exact ih hhere (hlookup hhere hl)
  | far here name v w _ hl _ ih => exact ih hroot (hlookup hroot hl)

end

/-- A literal value is its own value in every scope. -/
theorem Scope.evaluate_of_isLiteral {s : Scope} {v : Value} (hr : s.root.isKeyed) (hv : v.isKeyed)
    (hl : v.isLiteral) : s.evaluate v = .ok v :=
  (evaluate_eq_ok_iff hr hv).2 (.of_isLiteral hl)

theorem Scope.rebuild_eq {s : Scope} {v : Value} (hr : s.root.isKeyed) (hv : v.isKeyed) :
    s.rebuild v = s.evaluate v :=
  Value.rebuildWith_eq (fun _ name hs => rebuildBinding_eq hr [] _ hs name) hr (isKeyed_block hr) hv [.loose]

namespace Block

variable {b e : Block}

theorem rebuilt_eq (hb : b.isKeyed) : b.rebuilt = b.evaluated := by
  have hd : (Entries.keys ([] ++ b)).Nodup := (isKeyed_iff.1 hb).1
  have hvalue (name : String) :
      rebuildBinding (.root b) [] b.refs (.root b) name = b.scope.value name :=
    rebuildBinding_eq hb [] b.refs hb name
  calc b.rebuilt = ([] ++ ·) <$> b.mapM fun e => (e.1, ·) <$> b.scope.value e.1 := by
        unfold rebuilt
        rw [foldlM_add hd, funext hvalue]
    _ = b.evaluated := by simp [evaluated, Scope.evaluatedBlock, scope]

/-- Building the evaluated form of a document entry by entry gives just that form, and never meets a
name twice. The form is literal, it is the document with a value for each expression, and it is its
own evaluated form. Any literal value is its own value in any scope. -/
theorem evaluated_finished (hb : b.isKeyed) :
    (b.rebuilt = b.evaluated ∧ ∀ f, b.evaluated = .error f → f.cause.kind ≠ .duplicateName) ∧
    (∀ e, b.evaluated = .ok e →
      (Value.block e).isLiteral ∧ (Value.block b).FilledBy (.block e) ∧ e.evaluated = .ok e) ∧
    ∀ (s : Scope) (v : Value), s.root.isKeyed → v.isKeyed → v.isLiteral →
      s.evaluate v = .ok v ∧ s.rebuild v = .ok v := by
  refine ⟨⟨rebuilt_eq hb, fun f hf hk => ?_⟩, fun e he => ?_, fun s v hr hv hl => ?_⟩
  · have hkind := (fails_evaluated b).of_error hf
    simp [Fault.OfEvaluation, hk] at hkind
  · have hm : Means b b (.block b) (.block e) := .block ((b.scope.evaluatedBlock_eq_ok_iff hb).1 he)
    exact ⟨hm.isLiteral, hm.filledBy, evaluated_of_isLiteral hm.isLiteral (hm.isKeyed hb hb hb)⟩
  · have heval := Scope.evaluate_of_isLiteral hr hv hl
    exact ⟨heval, (Scope.rebuild_eq hr hv).trans heval⟩

/-- A list that refers to a number, and in a dictionary to a block which is evaluated in its own scope;
and a NaN, which stays the NaN it is. -/
theorem evaluated_finished_references :
    let b : Block := [("nan", .float (0.0 / 0.0)), ("n", .int 2),
      ("l", .list [.var "n", .dict [(.str "k", .var "m")]]),
      ("m", .block [("n", .int 5), ("x", .binary .mul (.var "n") (.int 3))])]
    let e : Block := [("nan", .float (0.0 / 0.0)), ("n", .int 2),
      ("l", .list [.int 2, .dict [(.str "k", .block [("n", .int 5), ("x", .int 15)])]]),
      ("m", .block [("n", .int 5), ("x", .int 15)])]
    b.isKeyed ∧ b.rebuilt = .ok e ∧ (Value.block b).FilledBy (.block e) ∧ e.evaluated = .ok e ∧
      b.scope.evaluate (.block e) = .ok (.block e) := by
  intro b e
  have hb : b.isKeyed := by decide
  have he : b.evaluated = .ok e := by with_unfolding_all rfl
  obtain ⟨⟨hrebuilt, -⟩, hfinished, hliteral⟩ := evaluated_finished hb
  obtain ⟨hl, hfilled, hself⟩ := hfinished e he
  exact ⟨hb, hrebuilt.trans he, hfilled, hself, (hliteral b.scope (.block e) hb (by decide) hl).1⟩

end Block

end CaseSetup
