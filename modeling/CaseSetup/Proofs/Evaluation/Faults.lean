import CaseSetup.Proofs.Evaluation.Within
import CaseSetup.Proofs.Induction
import CaseSetup.Proofs.Outcome

/-! # How evaluation fails

A name may be missing, a value of the wrong type or of no use, or a binding read while it is being
read. Evaluation reports nothing else. -/

namespace CaseSetup

open Outcome

namespace Fault

/-- The kinds and codes of the faults that evaluation reports. -/
def OfEvaluation (f : Fault) : Prop :=
  (f.cause.kind, f.code) ∈
    [(.missingName, some 302), (.wrongType, some 401), (.badValue, some 402), (.badValue, some 403)]

theorem OfEvaluation.code_mem {f : Fault} (h : f.OfEvaluation) :
    f.code ∈ [some 302, some 401, some 402, some 403] :=
  List.mem_map_of_mem (f := Prod.snd) h

theorem ofEvaluation_missingName (name : String) : (missingName name).OfEvaluation := by
  simp [OfEvaluation, missingName, Cause.kind]

theorem ofEvaluation_circular (active : List String) (name : String) : (circular active name).OfEvaluation := by
  simp [OfEvaluation, circular, Cause.kind]

/-- The kinds and codes of the faults that operators report. -/
def OfOperator (f : Fault) : Prop := (f.cause.kind, f.code) ∈ [(.wrongType, some 401), (.badValue, some 402)]

theorem OfOperator.ofEvaluation {f : Fault} (h : f.OfOperator) : f.OfEvaluation :=
  List.mem_cons_of_mem _ (List.mem_append_left [_] h)

theorem ofOperator_wrongType (text : String) : (wrongType text).OfOperator := by
  simp [OfOperator, wrongType, Cause.kind]

theorem ofOperator_badValue (text : String) : (badValue text).OfOperator := by
  simp [OfOperator, badValue, Cause.kind]

end Fault

namespace Arithmetic

theorem fails_floatOp (op : Op) (a b : Float) : OnlyFails Fault.OfOperator (floatOp op a b) := by
  cases op with
  | add | sub | mul => exact .ok _
  | div =>
    unfold floatOp
    dsimp only
    split
    · exact .error (Fault.ofOperator_badValue _)
    · exact .ok _
  | pow =>
    unfold floatOp
    dsimp only
    split
    · exact .error (Fault.ofOperator_badValue _)
    split
    · exact .error (Fault.ofOperator_badValue _)
    · exact .ok _

theorem fails_intOp (op : Op) (a b : Int64) : OnlyFails Fault.OfOperator (intOp op a b) := by
  have hfloat : OnlyFails Fault.OfOperator
      (Value.float <$> floatOp op (.ofInt a.toInt) (.ofInt b.toInt) : Except Fault Value) :=
    (fails_floatOp ..).map
  cases op with
  | add | sub | mul =>
    unfold intOp
    dsimp only
    split
    · exact .ok _
    · exact .error (Fault.ofOperator_badValue _)
  | div => exact hfloat
  | pow =>
    unfold intOp
    dsimp only
    split
    · exact hfloat
    split
    · split
      · exact .ok _
      · exact .error (Fault.ofOperator_badValue _)
    · exact .error (Fault.ofOperator_badValue _)

theorem fails_toFloat (op : Op) (v : Value) : OnlyFails Fault.OfOperator (toFloat op v) := by
  unfold toFloat
  split
  · exact .ok _
  · exact .ok _
  · exact .error (Fault.ofOperator_wrongType _)

theorem fails_apply (op : Op) (l r : Value) : OnlyFails Fault.OfOperator (apply op l r) := by
  unfold apply
  split
  · exact fails_intOp ..
  · exact (fails_toFloat ..).bind fun a => (fails_toFloat ..).bind fun b => (fails_floatOp ..).map

theorem fails_negate (v : Value) : OnlyFails Fault.OfOperator (negate v) := by
  unfold negate
  split
  · split
    · exact .ok _
    · exact .error (Fault.ofOperator_badValue _)
  · exact .ok _
  · exact .error (Fault.ofOperator_wrongType _)

end Arithmetic

section

variable {root here : Site} {enter : Site → String → Except Fault Value} {P : Fault → Prop} {p : Place}
  {u v : Value}

/-- What is read to evaluate the value `v` at `p` fails with a `P` if it fails, and a name that is bound
nowhere is a `P`. -/
structure ReadsFail (P : Fault → Prop) (root here : Site) (enter : Site → String → Except Fault Value) (p : Place)
    (v : Value) : Prop where
  entry {q : Place} {b : Block} {name : String} :
    Within p v q (.block b) → b.binds name → OnlyFails P (enter ⟨q, b⟩ name)
  reference {q : Place} {name : String} {t : Site} :
    Within p v q (.var name) → Site.resolve? root here name = some t → OnlyFails P (enter t name)
  missing {q : Place} {name : String} :
    Within p v q (.var name) → Site.resolve? root here name = none → P (.unresolved name)

theorem ReadsFail.of_part {s : Step} (h : ReadsFail P root here enter p v)
    (hpart : ∀ {q w}, Within (s :: p) u q w → Within p v q w) : ReadsFail P root here enter (s :: p) u where
  entry hw := h.entry (hpart hw)
  reference hw := h.reference (hpart hw)
  missing hw := h.missing (hpart hw)

theorem fails_evaluateItems {vs : List Value} {i : Nat}
    (h : ∀ j v, vs[j]? = some v → OnlyFails P (Value.evaluateWith root here enter (.item (i + j) :: p) v)) :
    OnlyFails P (Value.evaluateItems root here enter p i vs) := by
  induction vs generalizing i with
  | nil => exact .ok []
  | cons v vs ih =>
    refine (h 0 v rfl).bind fun a => (ih fun j u hu => ?_).map
    rw [Nat.add_right_comm]
    exact h (j + 1) u hu

theorem fails_evaluateDict {es : Dict}
    (h : ∀ e ∈ es, OnlyFails P (e.2.evaluateWith root here enter (.key e.1 :: p))) :
    OnlyFails P (Value.evaluateDict root here enter p es) := by
  induction es with
  | nil => exact .ok []
  | cons e es ih =>
    obtain ⟨hv, hes⟩ := List.forall_mem_cons.1 h
    exact hv.bind fun a => (ih hes).map

/-- A value fails as its operators do, or as what it reads. -/
theorem Value.fails_evaluateWith (hop : ∀ f : Fault, f.OfOperator → P f) (h : ReadsFail P root here enter p v) :
    OnlyFails P (v.evaluateWith root here enter p) := by
  induction v using Value.induction generalizing p with
  | bool | int | float | str => exact .ok _
  | list vs ih =>
    refine (fails_evaluateItems fun j v hv => ?_).map
    have hj : vs[0 + j]? = some v := by rwa [Nat.zero_add]
    exact ih v (List.mem_of_getElem? hv) (h.of_part (.listItem hj))
  | tuple vs ih =>
    refine (fails_evaluateItems fun j v hv => ?_).map
    have hj : vs[0 + j]? = some v := by rwa [Nat.zero_add]
    exact ih v (List.mem_of_getElem? hv) (h.of_part (.tupleItem hj))
  | dict es ih => exact (fails_evaluateDict fun e he => ih e he (h.of_part (.dictValue he))).map
  | block b =>
    refine (OnlyFails.mapM fun e he => ?_).map
    have hb : Block.binds b e.1 := Entries.binds_iff_mem_keys.2 (List.mem_map_of_mem he)
    exact (h.entry .self hb).map
  | neg v ih =>
    have hv := ih (h.of_part .operand)
    exact hv.bind fun a => (Arithmetic.fails_negate a).weaken hop
  | binary op l r ihl ihr =>
    have hl := ihl (h.of_part .left)
    have hr := ihr (h.of_part .right)
    exact hl.bind fun a => hr.bind fun b => (Arithmetic.fails_apply op a b).weaken hop
  | var name =>
    unfold evaluateWith
    split
    · rename_i hb
      exact h.reference .self (if_pos hb)
    rename_i hhere
    split
    · rename_i hb
      exact h.reference .self ((if_neg hhere).trans (if_pos hb))
    · rename_i hroot
      exact .error (h.missing .self ((if_neg hhere).trans (if_neg hroot)))

end

theorem fails_evaluateBinding (root : Site) (active pending : List Ref) (s : Site) (name : String) :
    OnlyFails Fault.OfEvaluation (evaluateBinding root active pending s name) := by
  induction active, pending, s, name using evaluateBinding.induct with
  | case1 active pending s name hl =>
    rw [evaluateBinding, hl]
    exact .error (Fault.ofEvaluation_missingName name)
  | case2 active pending s name v hl hp ih =>
    rw [evaluateBinding, hl]
    simp only [hp, ↓reduceDIte]
    refine Value.fails_evaluateWith (fun f hf => hf.ofEvaluation) ⟨fun _ _ => ?_, fun _ _ => ?_, fun _ _ => ?_⟩
    · exact ih _ _
    · exact ih _ _
    · exact Fault.ofEvaluation_missingName _
  | case3 active pending s name v hl hp =>
    rw [evaluateBinding, hl]
    simp only [hp, ↓reduceDIte]
    exact .error (Fault.ofEvaluation_circular _ _)

/-- A document that cannot be evaluated has a fault of evaluation. -/
theorem Block.fails_evaluated (b : Block) : OnlyFails Fault.OfEvaluation b.evaluated :=
  OnlyFails.mapM fun _ _ => (fails_evaluateBinding ..).map

end CaseSetup
