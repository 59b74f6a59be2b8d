import CaseSetup.Proofs.Evaluation.Faults
import CaseSetup.Proofs.Evaluation.Literal
import CaseSetup.Proofs.Writing.Obstacles
import CaseSetup.Proofs.Writing.RoundTrip

/-! # What is written

A parsed document is written unless one of its values or operands is an infinity. A document without
expressions is written as it is in either form, and the text stands for it. -/

namespace CaseSetup

open Outcome Grammar

namespace Block

variable {b e : Block} {text t : String} {f : Fault}

theorem serialize_true (b : Block) : b.serialize true = b.evaluated >>= written := rfl

theorem Regular.exists_written_iff (h : b.Regular) : (∃ t, b.written = .ok t) ↔ ∀ x ∈ b.floats, x.isFinite := by
  rw [← fault?_eq_none, h.fault?_written]
  simp

/-- Only an infinity keeps a block that a document can have from being written. -/
theorem Regular.written_eq_error (h : b.Regular) (hf : b.written = .error f) :
    ∃ x ∈ b.floats, x.isFinite = false ∧ f = .nonFinite x := by
  rw [← fault?_eq_some, h.fault?_written, Option.map_eq_some_iff] at hf
  obtain ⟨x, hx, rfl⟩ := hf
  have hfinite := List.find?_some hx
  exact ⟨x, List.mem_of_find?_eq_some hx, by simpa using hfinite, rfl⟩

/-- What a regular document evaluates to is not kept from being written by a string. -/
theorem Regular.code_of_serialize_true (h : b.Regular) (hf : b.serialize true = .error f) : f.code ≠ some 406 := by
  rw [serialize_true] at hf
  rcases bind_eq_error.1 hf with hf | ⟨e, he, hf⟩
  · intro hcode
    have hmem := (b.fails_evaluated.of_error hf).code_mem
    rw [hcode] at hmem
    exact absurd hmem (by decide)
  · have hmeans := (b.scope.evaluatedBlock_eq_ok_iff h.isKeyed).1 he
    have hsettled : (Value.block e).Settled := (Means.block hmeans).settled h h h
    rw [← fault?_eq_some, Block.fault?_written] at hf
    rcases hsettled.bindingObstacles f (List.mem_of_mem_head? hf) with rfl | ⟨x, rfl⟩
    · decide
    · simp [Fault.nonFinite]

/-- A parsed document has all its parts where a document can have them. So it can be written as it was read
unless a float value or operand is not finite, and evaluation puts no string in the way either. -/
theorem serialize_of_parse (h : Block.parse text = .ok b) :
    b.Regular ∧ ((∃ t, b.serialize false = .ok t) ↔ ∀ x ∈ b.floats, x.isFinite) ∧
      (∀ f, b.serialize false = .error f →
        f.code = some 404 ∧ ∃ x ∈ b.floats, x.isFinite = false ∧ f = .nonFinite x) ∧
      ∀ f, b.serialize true = .error f → f.code ≠ some 406 := by
  have hb := regular_of_parse h
  refine ⟨hb, hb.exists_written_iff, fun f hf => ?_, fun f hf => hb.code_of_serialize_true hf⟩
  obtain ⟨x, hx, hfinite, rfl⟩ := hb.written_eq_error hf
  exact ⟨rfl, x, hx, hfinite, rfl⟩

/-- An infinite operand, and an infinite key, which is no obstacle. -/
theorem serialize_of_parse_infinity :
    let b : Block :=
      [("a", .list [.binary .add (.float (-1 / 0)) (.var "n"), .dict [(.float (1 / 0 : Float), .float 0.5)]])]
    Block.parse "a = -1e400 + n, \x7b1e400: .5\x7d" = .ok b ∧
      (-1 / 0 : Float) ∈ b.floats ∧ (-1 / 0 : Float).isFinite = false ∧
      b.serialize false = .error (.nonFinite (-1 / 0)) ∧ (Fault.nonFinite (-1 / 0)).code = some 404 ∧
      b.Regular ∧ ((∃ t, b.serialize false = .ok t) ↔ ∀ x ∈ b.floats, x.isFinite) ∧
      (∀ f, b.serialize false = .error f →
        f.code = some 404 ∧ ∃ x ∈ b.floats, x.isFinite = false ∧ f = .nonFinite x) ∧
      ∀ f, b.serialize true = .error f → f.code ≠ some 406 := by
  intro b
  have hoperand : Expression 1 [⟨.float (-1 / 0), some .minus⟩, ⟨.plus, none⟩, ⟨.name "n", none⟩]
      (.binary .add (.float (-1 / 0)) (.var "n")) :=
    .binary (.symbol rfl) (by decide) (.operand (.float (-1 / 0) _)) (.operand (.name "n" none))
  have hkey : Item [⟨.openBrace, none⟩, ⟨.float (1 / 0), none⟩, ⟨.colon, none⟩, ⟨.float 0.5, none⟩, ⟨.closeBrace, none⟩]
      (.dict [(.float (1 / 0 : Float), .float 0.5)]) :=
    .dict (.last rfl (.expression (.operand (.float 0.5 none))))
  have hb : Block.parse "a = -1e400 + n, \x7b1e400: .5\x7d" = .ok b :=
    parse_assignment (p := ⟨1, 27⟩) (by decide +kernel) (by decide +kernel)
      (.bare (.expression hoperand) (.cons (g := none) hkey .nil) (by simp))
  have hmem : (-1 / 0 : Float) ∈ b.floats := List.mem_cons_self
  have hinfinite : (-1 / 0 : Float).isFinite = false := by decide +kernel
  have hserialize : b.serialize false = .error (.nonFinite (-1 / 0)) := by
    refine fault?_eq_some.1 ((regular_of_parse hb).fault?_written.trans ?_)
    show ([-1 / 0, 0.5].find? fun x => !x.isFinite).map Fault.nonFinite = some (.nonFinite (-1 / 0))
    rw [List.find?_cons_of_pos (by rw [hinfinite]; rfl)]
    rfl
  exact ⟨hb, hmem, hinfinite, hserialize, rfl, serialize_of_parse hb⟩

/-- A literal block with its parts where a document can have them, and with finite numbers only, is written
alike with and without evaluation, and the text is read as that block. -/
theorem parse_serialize_literal (hl : (Value.block e).isLiteral) (hr : e.Regular) (hf : ∀ x ∈ e.floats, x.isFinite)
    (hk : e.FiniteKeys) :
    ∃ t, e.serialize true = .ok t ∧ e.serialize false = .ok t ∧ Block.parse t = .ok e := by
  obtain ⟨t, ht⟩ := hr.exists_written_iff.2 hf
  have heval := evaluated_of_isLiteral hl hr.isKeyed
  have hsettled : (Value.block e).Settled := (Means.of_isLiteral hl).settled hr hr hr
  have hglue : e.glue = e := Value.block.inj hsettled.glue_eq
  refine ⟨t, ?_, ht, ?_⟩
  · rw [serialize_true, heval]
    exact ht
  · rw [parse_written hr hk ht, hglue]

/-- Zero with a sign, negative keys, and a string with a newline and what looks like a comment. -/
theorem parse_serialize_literal_nested :
    let e : Block :=
      [("a", .list [.float (-0.0), .tuple [.int (-3), .str "x\n// y"]]),
        ("b", .block [("c", .list []), ("d", .dict [(.int (-1), .dict []), (.float (-0.5 : Float), .bool true)])])]
    (Value.block e).isLiteral ∧ e.Regular ∧ (∀ x ∈ e.floats, x.isFinite) ∧ e.FiniteKeys ∧
      ∃ t, e.serialize true = .ok t ∧ e.serialize false = .ok t ∧ Block.parse t = .ok e := by
  intro e
  have hl : (Value.block e).isLiteral := rfl
  have ha : IsName "a" := ⟨'a', [], rfl, rfl, List.forall_mem_nil _, rfl⟩
  have hb : IsName "b" := ⟨'b', [], rfl, rfl, List.forall_mem_nil _, rfl⟩
  have hc : IsName "c" := ⟨'c', [], rfl, rfl, List.forall_mem_nil _, rfl⟩
  have hd : IsName "d" := ⟨'d', [], rfl, rfl, List.forall_mem_nil _, rfl⟩
  have hstr : '"' ∉ "x\n// y".toList := by decide
  have hlist : AllInline [.float (-0.0), .tuple [.int (-3), .str "x\n// y"]] :=
    ⟨trivial, ⟨by decide, trivial, hstr, trivial⟩, trivial⟩
  have hdict : (Value.dict [(.int (-1), .dict []), (.float (-0.5 : Float), .bool true)]).Regular :=
    ⟨by decide +kernel, trivial, ⟨List.nodup_nil, trivial⟩, trivial, trivial, trivial⟩
  have hr : e.Regular :=
    ⟨by decide, ha, hlist, hb, ⟨by decide, hc, trivial, hd, hdict, trivial⟩, trivial⟩
  have hf : ∀ x ∈ e.floats, x.isFinite := by decide +kernel
  have hkey : (-0.5 : Float).isFinite := by decide +kernel
  have hk : e.FiniteKeys :=
    ⟨⟨trivial, ⟨trivial, trivial, trivial⟩, trivial⟩,
      ⟨trivial, ⟨trivial, trivial, hkey, trivial, trivial⟩, trivial⟩, trivial⟩
  exact ⟨hl, hr, hf, hk, parse_serialize_literal hl hr hf hk⟩

end Block

end CaseSetup
