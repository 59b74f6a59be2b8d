import CaseSetup.Proofs.Evaluation.Settled
import CaseSetup.Writing

/-! # What stands in the way of writing

The faults of all parts that cannot be written, in the order of the text, are one list; writing fails
with the first of them, and succeeds if there is none. A parsed document has no obstacles but numbers
that are not finite, and what it evaluates to none but these and blocks inside other values. -/

namespace CaseSetup

open Outcome

def Literal.stringObstacles (s : String) : List Fault := if '"' ∈ s.toList then [.quoteInString s] else []

def Key.obstacles : Key → List Fault
  | .str s => Literal.stringObstacles s
  | _ => []

mutual
/-- What cannot be written in a value that stands inside a line. -/
def Value.obstacles : Value → List Fault
  | .bool _ | .int _ | .var _ => []
  | .float x => if x.isFinite then [] else [.nonFinite x]
  | .str s => Literal.stringObstacles s
  | .list items | .tuple items => itemObstacles items
  | .dict entries => entryObstacles entries
  | .block _ => [.misplacedBlock]
  | .neg v => v.obstacles
  | .binary _ l r => l.obstacles ++ r.obstacles
termination_by structural v => v

def itemObstacles : List Value → List Fault
  | [] => []
  | v :: vs => v.obstacles ++ itemObstacles vs
termination_by structural vs => vs

def entryObstacles : List (Key × Value) → List Fault
  | [] => []
  | (k, v) :: es => k.obstacles ++ (v.obstacles ++ entryObstacles es)
termination_by structural es => es
end

mutual
/-- What cannot be written in a value that stands under a name. -/
def Value.bindingObstacles : Value → List Fault
  | .block b => blockObstacles b
  | v => v.obstacles
termination_by structural v => v

def blockObstacles : List (String × Value) → List Fault
  | [] => []
  | (_, v) :: es => v.bindingObstacles ++ blockObstacles es
termination_by structural es => es
end

theorem fault?_quoted (s : String) : fault? (Literal.quoted s) = (Literal.stringObstacles s).head? := by
  unfold Literal.quoted Literal.stringObstacles
  split <;> rfl

theorem fault?_key (k : Key) : fault? (Literal.key k) = k.obstacles.head? := by
  cases k with
  | str s => exact fault?_quoted s
  | _ => rfl

theorem fault?_finiteFloat (x : Float) : fault? (Literal.finiteFloat x) = (Value.float x).obstacles.head? := by
  unfold Literal.finiteFloat Value.obstacles
  split <;> rfl

theorem fault?_writtenItems {vs : List Value} (h : ∀ v ∈ vs, fault? v.written = v.obstacles.head?) :
    fault? (Value.writtenItems vs) = (itemObstacles vs).head? := by
  induction vs with
  | nil => rfl
  | cons v vs ih =>
    obtain ⟨hv, hvs⟩ := List.forall_mem_cons.1 h
    rw [itemObstacles, List.head?_append, ← hv, ← ih hvs]
    exact fault?_bind fun t => fault?_map

theorem fault?_writtenEntries {es : List (Key × Value)} (h : ∀ e ∈ es, fault? e.2.written = e.2.obstacles.head?) :
    fault? (Value.writtenEntries es) = (entryObstacles es).head? := by
  induction es with
  | nil => rfl
  | cons e es ih =>
    obtain ⟨he, hes⟩ := List.forall_mem_cons.1 h
    rw [entryObstacles, List.head?_append, List.head?_append, ← fault?_key, ← he, ← ih hes]
    exact fault?_bind fun a => fault?_bind fun t => fault?_map

/-- Writing inside a line fails with the first obstacle. -/
theorem Value.fault?_written (v : Value) : fault? v.written = v.obstacles.head? := by
  induction v using Value.induction with
  | bool | int | var | block => rfl
  | float x => exact fault?_finiteFloat x
  | str s => exact fault?_quoted s
  | list vs ih | tuple vs ih => exact fault?_map.trans (fault?_writtenItems ih)
  | dict es ih => exact fault?_map.trans (fault?_writtenEntries ih)
  | neg v ih => exact fault?_map.trans ih
  | binary op l r ihl ihr =>
    rw [obstacles, List.head?_append, ← ihl, ← ihr]
    exact fault?_bind fun a => fault?_map

theorem Value.fault?_writtenRight (v : Value) : fault? v.writtenRight = v.obstacles.head? := by
  unfold writtenRight
  split
  · split
    · exact fault?_map.trans (fault?_writtenItems fun v _ => v.fault?_written)
    · exact fault?_written _
  · exact fault?_written _

theorem fault?_writtenBlock {b : Block} {depth : Nat}
    (h : ∀ e ∈ b, fault? (writtenBinding depth e.1 e.2) = e.2.bindingObstacles.head?) :
    fault? (writtenBlock depth b) = (blockObstacles b).head? := by
  induction b with
  | nil => rfl
  | cons e b ih =>
    obtain ⟨he, hb⟩ := List.forall_mem_cons.1 h
    rw [blockObstacles, List.head?_append, ← he, ← ih hb]
    exact fault?_bind fun t => fault?_map

/-- Writing under a name fails with the first obstacle. -/
theorem Value.fault?_writtenBinding (depth : Nat) (name : String) (v : Value) :
    fault? (writtenBinding depth name v) = v.bindingObstacles.head? := by
  induction v using Value.induction generalizing depth name with
  | bool | int | var => rfl
  | block b ih => exact fault?_map.trans (fault?_writtenBlock fun e he => ih e he (depth + 1) e.1)
  | _ => exact fault?_map.trans (fault?_writtenRight _)

theorem Block.fault?_written (b : Block) : fault? b.written = (blockObstacles b).head? :=
  fault?_writtenBlock fun e _ => e.2.fault?_writtenBinding 0 e.1

mutual
/-- The floats of a value that are values or operands, in the order of the text. Keys are none of these. -/
def Value.floats : Value → List Float
  | .bool _ | .int _ | .str _ | .var _ => []
  | .float x => [x]
  | .list items | .tuple items => itemFloats items
  | .dict entries => entryFloats entries
  | .block b => blockFloats b
  | .neg v => v.floats
  | .binary _ l r => l.floats ++ r.floats
termination_by structural v => v

def itemFloats : List Value → List Float
  | [] => []
  | v :: vs => v.floats ++ itemFloats vs
termination_by structural vs => vs

def entryFloats : List (Key × Value) → List Float
  | [] => []
  | (_, v) :: es => v.floats ++ entryFloats es
termination_by structural es => es

def blockFloats : List (String × Value) → List Float
  | [] => []
  | (_, v) :: es => v.floats ++ blockFloats es
termination_by structural es => es
end

def Block.floats (b : Block) : List Float := blockFloats b

/-- The faults of the floats that are not finite. -/
def infinities (xs : List Float) : List Fault := (xs.filter fun x => !x.isFinite).map .nonFinite

@[simp] theorem infinities_append (xs ys : List Float) : infinities (xs ++ ys) = infinities xs ++ infinities ys := by
  simp [infinities]

theorem head?_infinities (xs : List Float) :
    (infinities xs).head? = (xs.find? fun x => !x.isFinite).map .nonFinite := by
  rw [infinities, List.head?_map, List.head?_filter]

theorem obstacles_float (x : Float) : (Value.float x).obstacles = infinities [x] := by
  unfold Value.obstacles infinities
  cases h : x.isFinite <;> simp [h]

theorem stringObstacles_of_proper {s : String} (h : '"' ∉ s.toList) : Literal.stringObstacles s = [] := if_neg h

theorem Key.Proper.obstacles {k : Key} (h : k.Proper) : k.obstacles = [] := by
  cases k with
  | str s => exact stringObstacles_of_proper h
  | _ => rfl

theorem itemObstacles_eq {vs : List Value} (h : ∀ v ∈ vs, v.obstacles = infinities v.floats) :
    itemObstacles vs = infinities (itemFloats vs) := by
  induction vs with
  | nil => rfl
  | cons v vs ih =>
    obtain ⟨hv, hvs⟩ := List.forall_mem_cons.1 h
    rw [itemObstacles, itemFloats, infinities_append, hv, ih hvs]

theorem entryObstacles_eq {es : List (Key × Value)}
    (h : ∀ e ∈ es, e.1.Proper ∧ e.2.obstacles = infinities e.2.floats) :
    entryObstacles es = infinities (entryFloats es) := by
  induction es with
  | nil => rfl
  | cons e es ih =>
    obtain ⟨⟨hk, hv⟩, hes⟩ := List.forall_mem_cons.1 h
    rw [entryObstacles, entryFloats, infinities_append, hk.obstacles, hv, ih hes, List.nil_append]

/-- In a value that a document can have inside a line, only infinities are obstacles. -/
theorem Value.Inline.obstacles {v : Value} (h : v.Inline) : v.obstacles = infinities v.floats := by
  induction v using Value.induction with
  | bool | int | var => rfl
  | float x => exact obstacles_float x
  | str s => exact stringObstacles_of_proper h
  | list | block => exact h.elim
  | tuple vs ih => exact itemObstacles_eq fun v hv => ih v hv (allInline_iff.1 h.2 v hv)
  | dict es ih =>
    refine entryObstacles_eq fun e he => ?_
    obtain ⟨hk, hv⟩ := entriesInline_iff.1 h.2 e he
    exact ⟨hk, ih e he hv⟩
  | neg v ih => exact ih h.2
  | binary op l r ihl ihr => rw [Value.obstacles, floats, infinities_append, ihl h.1.2, ihr h.2.2]

theorem blockObstacles_eq {b : Block} (h : ∀ e ∈ b, e.2.bindingObstacles = infinities e.2.floats) :
    blockObstacles b = infinities b.floats := by
  unfold Block.floats
  induction b with
  | nil => rfl
  | cons e b ih =>
    obtain ⟨he, hb⟩ := List.forall_mem_cons.1 h
    rw [blockObstacles, blockFloats, infinities_append, he, ih hb]

theorem Value.Regular.obstacles {v : Value} (h : v.Regular) : v.bindingObstacles = infinities v.floats := by
  induction v using Value.induction with
  | list vs => exact itemObstacles_eq fun v hv => (allInline_iff.1 h v hv).obstacles
  | block b ih => exact blockObstacles_eq fun e he => ih e he (blockRegular_iff.1 h.2 e he).2
  | _ => exact Value.Inline.obstacles h

/-- A block as a document can have it is written unless a float in it is not finite. -/
theorem Block.Regular.fault?_written {b : Block} (h : b.Regular) :
    fault? b.written = (b.floats.find? fun x => !x.isFinite).map .nonFinite := by
  rw [Block.fault?_written, blockObstacles_eq fun e he => (blockRegular_iff.1 h.2 e he).2.obstacles, head?_infinities]

variable {f : Fault}

theorem mem_itemObstacles {vs : List Value} : f ∈ itemObstacles vs ↔ ∃ v ∈ vs, f ∈ v.obstacles := by
  induction vs with
  | nil => simp [itemObstacles]
  | cons v vs ih => simp [itemObstacles, ih]

theorem mem_entryObstacles {es : List (Key × Value)} :
    f ∈ entryObstacles es ↔ ∃ e ∈ es, f ∈ e.1.obstacles ∨ f ∈ e.2.obstacles := by
  induction es with
  | nil => simp [entryObstacles]
  | cons e es ih => simp [entryObstacles, ih, or_assoc]

theorem mem_blockObstacles {b : Block} : f ∈ blockObstacles b ↔ ∃ e ∈ b, f ∈ e.2.bindingObstacles := by
  induction b with
  | nil => simp [blockObstacles]
  | cons e b ih => simp [blockObstacles, ih]

/-- In a result only infinities are obstacles, and blocks inside other values. -/
theorem Value.Settled.obstacles {v : Value} (h : v.Settled) :
    ∀ f ∈ v.obstacles, f = .misplacedBlock ∨ ∃ x, f = .nonFinite x := by
  induction h with
  | bool | int => exact fun f hf => nomatch hf
  | float x =>
    intro f hf
    rw [obstacles_float] at hf
    obtain ⟨x, -, rfl⟩ := List.mem_map.1 hf
    exact .inr ⟨x, rfl⟩
  | str hs =>
    intro f hf
    rw [Value.obstacles, stringObstacles_of_proper hs] at hf
    cases hf
  | list _ ih | tuple _ _ ih =>
    intro f hf
    obtain ⟨v, hv, hf⟩ := mem_itemObstacles.1 hf
    exact ih v hv f hf
  | dict _ hk _ ih =>
    intro f hf
    obtain ⟨e, he, hf | hf⟩ := mem_entryObstacles.1 hf
    · rw [(hk e he).obstacles] at hf
      cases hf
    · exact ih e he f hf
  | block =>
    intro f hf
    exact .inl (List.mem_singleton.1 hf)

theorem Value.Settled.bindingObstacles {v : Value} (h : v.Settled) :
    ∀ f ∈ v.bindingObstacles, f = .misplacedBlock ∨ ∃ x, f = .nonFinite x := by
  induction h with
  | block _ _ _ ih =>
    intro f hf
    obtain ⟨e, he, hf⟩ := mem_blockObstacles.1 hf
    exact ih e he f hf
  | bool | int => exact fun f hf => nomatch hf
  | float x => exact (Value.Settled.float x).obstacles
  | str hs => exact (Value.Settled.str hs).obstacles
  | list hvs => exact (Value.Settled.list hvs).obstacles
  | tuple hlen hvs => exact (Value.Settled.tuple hlen hvs).obstacles
  | dict hd hk hes => exact (Value.Settled.dict hd hk hes).obstacles

end CaseSetup
