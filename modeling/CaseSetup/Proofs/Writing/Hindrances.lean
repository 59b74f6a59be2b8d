import CaseSetup.Proofs.Writing.Nested
import CaseSetup.Proofs.Writing.Obstacles

/-! # What hinders writing

Whether a block is written is decided at its parts one by one, at any depth. Floats that are not finite
hinder it as values and operands, quotes in strings, which may be keys, and blocks with no name in front. -/

namespace CaseSetup

namespace Value

/-- The values right inside a value. -/
def parts : Value → List Value
  | list items | tuple items => items
  | dict entries => entries.map (·.2)
  | block entries => entries.map (·.2)
  | neg v => [v]
  | binary _ l r => [l, r]
  | _ => []

/-- The value itself, or one inside it at any depth. -/
inductive Part : Value → Value → Prop
  | self (v : Value) : Part v v
  | inside {u v w : Value} : w ∈ v.parts → Part u w → Part u v

/-- The value itself cannot be written, with this fault. Keys other than strings hinder nothing. -/
inductive Hinders : Value → Fault → Prop
  | float {x : Float} : x.isFinite = false → Hinders (.float x) (.nonFinite x)
  | str {s : String} : '"' ∈ s.toList → Hinders (.str s) (.quoteInString s)
  | key {entries : Dict} {s : String} {v : Value} : (.str s, v) ∈ entries → '"' ∈ s.toList →
      Hinders (.dict entries) (.quoteInString s)
  | block {v w : Value} : v.isBlock = false → w ∈ v.parts → w.isBlock → Hinders v .misplacedBlock

/-- A value may be assumed of all values right inside one when it is proved of that one. -/
theorem parts_induction {P : Value → Prop} (h : ∀ v, (∀ w ∈ v.parts, P w) → P v) (v : Value) : P v := by
  induction v using Value.induction with
  | bool | int | float | str | var => exact h _ fun _ hw => nomatch hw
  | list vs ih | tuple vs ih => exact h _ ih
  | dict es ih | block es ih => exact h _ (List.forall_mem_map.2 ih)
  | neg v ih => exact h _ (List.forall_mem_singleton.2 ih)
  | binary op l r ihl ihr => exact h _ (List.forall_mem_cons.2 ⟨ihl, List.forall_mem_singleton.2 ihr⟩)

variable {u v w : Value} {f : Fault}

theorem obstacles_of_isBlock (h : v.isBlock) : v.obstacles = [.misplacedBlock] := by
  cases v with
  | block => rfl
  | _ => cases h

theorem bindingObstacles_of_not_isBlock (h : v.isBlock = false) : v.bindingObstacles = v.obstacles := by
  cases v with
  | block => cases h
  | _ => rfl

/-- What cannot be written inside a value cannot be written with it. -/
theorem mem_obstacles_of_mem_parts (hv : v.isBlock = false) (hw : w ∈ v.parts) (hf : f ∈ w.obstacles) :
    f ∈ v.obstacles := by
  cases v with
  | bool | int | float | str | var => cases hw
  | list vs | tuple vs => exact mem_itemObstacles.2 ⟨w, hw, hf⟩
  | dict es =>
    obtain ⟨e, he, rfl⟩ := List.mem_map.1 hw
    exact mem_entryObstacles.2 ⟨e, he, .inr hf⟩
  | block => cases hv
  | neg v =>
    obtain rfl := List.mem_singleton.1 hw
    exact hf
  | binary op l r =>
    rcases List.mem_cons.1 hw with rfl | hw
    · exact List.mem_append_left _ hf
    · obtain rfl := List.mem_singleton.1 hw
      exact List.mem_append_right _ hf

theorem Hinders.isBlock (h : v.Hinders f) : v.isBlock = false := by
  cases h with
  | float | str | key => rfl
  | block hv => exact hv

theorem Hinders.mem_obstacles (h : v.Hinders f) : f ∈ v.obstacles := by
  cases h with
  | float hx => simp [obstacles, hx]
  | str hs => simp [obstacles, Literal.stringObstacles, hs]
  | key he hs => exact mem_entryObstacles.2 ⟨_, he, .inl (by simp [Key.obstacles, Literal.stringObstacles, hs])⟩
  | block hv hw hb =>
    refine mem_obstacles_of_mem_parts hv hw ?_
    rw [obstacles_of_isBlock hb]
    exact List.mem_singleton_self _

theorem mem_stringObstacles {s : String} (h : f ∈ Literal.stringObstacles s) :
    '"' ∈ s.toList ∧ f = .quoteInString s := by
  unfold Literal.stringObstacles at h
  split at h
  · rename_i hs
    exact ⟨hs, List.mem_singleton.1 h⟩
  · cases h

/-- Conversely, what cannot be written with a value is in the way itself, or cannot be written inside it. -/
theorem hinders_or_mem_parts (hv : v.isBlock = false) (hf : f ∈ v.obstacles) :
    v.Hinders f ∨ ∃ w ∈ v.parts, f ∈ w.obstacles := by
  cases v with
  | bool | int | var => cases hf
  | float x =>
    rw [obstacles_float] at hf
    obtain ⟨y, hy, rfl⟩ := List.mem_map.1 hf
    obtain ⟨hy, hfinite⟩ := List.mem_filter.1 hy
    obtain rfl := List.mem_singleton.1 hy
    exact .inl (.float (by simpa using hfinite))
  | str s =>
    obtain ⟨hs, rfl⟩ := mem_stringObstacles hf
    exact .inl (.str hs)
  | list vs | tuple vs => exact .inr (mem_itemObstacles.1 hf)
  | dict es =>
    obtain ⟨⟨k, v⟩, he, hk | hw⟩ := mem_entryObstacles.1 hf
    · cases k with
      | str s =>
        obtain ⟨hs, rfl⟩ := mem_stringObstacles hk
        exact .inl (.key he hs)
      | _ => cases hk
    · exact .inr ⟨v, List.mem_map_of_mem he, hw⟩
  | block => cases hv
  | neg v => exact .inr ⟨v, List.mem_singleton_self v, hf⟩
  | binary op l r =>
    rcases List.mem_append.1 hf with hl | hr
    · exact .inr ⟨l, by simp [parts], hl⟩
    · exact .inr ⟨r, by simp [parts], hr⟩

/-- An obstacle is the fault of a part. -/
theorem exists_hinders_of_mem_obstacles (hv : v.isBlock = false) (hf : f ∈ v.obstacles) :
    ∃ u, Part u v ∧ u.Hinders f := by
  induction v using parts_induction with
  | h v ih =>
    rcases hinders_or_mem_parts hv hf with h | ⟨w, hw, hf⟩
    · exact ⟨v, .self v, h⟩
    cases hb : w.isBlock with
    | true =>
      rw [obstacles_of_isBlock hb] at hf
      obtain rfl := List.mem_singleton.1 hf
      exact ⟨v, .self v, .block hv hw hb⟩
    | false =>
      obtain ⟨u, hu, h⟩ := ih w hw hb hf
      exact ⟨u, .inside hw hu, h⟩

theorem exists_hinders_of_mem_bindingObstacles (hf : f ∈ v.bindingObstacles) : ∃ u, Part u v ∧ u.Hinders f := by
  induction v using parts_induction with
  | h v ih =>
    cases v with
    | block b =>
      obtain ⟨e, he, hf⟩ := mem_blockObstacles.1 hf
      have hw : e.2 ∈ (Value.block b).parts := List.mem_map_of_mem he
      obtain ⟨u, hu, h⟩ := ih e.2 hw hf
      exact ⟨u, .inside hw hu, h⟩
    | _ => exact exists_hinders_of_mem_obstacles rfl hf

/-- A part that hinders writing leaves an obstacle, if not its own then one that hides it. -/
theorem Part.exists_mem_obstacles (h : Part u v) (hu : u.Hinders f) (hv : v.isBlock = false) :
    ∃ f', f' ∈ v.obstacles := by
  induction h with
  | self => exact ⟨f, hu.mem_obstacles⟩
  | @inside v w hw _ ih =>
    cases hb : w.isBlock with
    | true => exact ⟨_, (Hinders.block hv hw hb).mem_obstacles⟩
    | false =>
      obtain ⟨f', hf'⟩ := ih hb
      exact ⟨f', mem_obstacles_of_mem_parts hv hw hf'⟩

theorem Part.exists_mem_bindingObstacles (h : Part u v) (hu : u.Hinders f) : ∃ f', f' ∈ v.bindingObstacles := by
  induction h with
  | self =>
    rw [bindingObstacles_of_not_isBlock hu.isBlock]
    exact ⟨f, hu.mem_obstacles⟩
  | @inside v w hw h ih =>
    cases v with
    | block b =>
      obtain ⟨e, he, rfl⟩ := List.mem_map.1 hw
      obtain ⟨f', hf'⟩ := ih
      exact ⟨f', mem_blockObstacles.2 ⟨e, he, hf'⟩⟩
    | _ => exact (Part.inside hw h).exists_mem_obstacles hu rfl

end Value

namespace Block

open Outcome Value

/-- The tree that is written: the block, or what it evaluates to. -/
def toWrite (b : Block) (evaluate : Bool) : Except Fault Block := if evaluate then b.evaluated else .ok b

theorem serialize_eq (b : Block) (evaluate : Bool) : b.serialize evaluate = b.toWrite evaluate >>= written := by
  cases evaluate <;> rfl

theorem exists_written_iff (e : Block) : (∃ t, e.written = .ok t) ↔ ∀ v f, Part v (.block e) → ¬ v.Hinders f := by
  rw [← fault?_eq_none, fault?_written, List.head?_eq_none_iff, List.eq_nil_iff_forall_not_mem]
  constructor
  · intro h v f hv hf
    obtain ⟨f', hf'⟩ := hv.exists_mem_bindingObstacles hf
    exact h f' hf'
  · intro h f hf
    obtain ⟨v, hv, hh⟩ := exists_hinders_of_mem_bindingObstacles (v := .block e) hf
    exact h v f hv hh

theorem hinders_of_written_eq_error {e : Block} {f : Fault} (h : e.written = .error f) :
    ∃ v, Part v (.block e) ∧ v.Hinders f := by
  rw [← fault?_eq_some, fault?_written] at h
  exact exists_hinders_of_mem_bindingObstacles (v := .block e) (List.mem_of_mem_head? h)

/-- In either form a block is written exactly if no part of the tree that is written hinders it. So no float
that is not finite is written, neither as a value nor as an operand, at any depth; as a key it is. -/
theorem serialize_unhindered_iff (b : Block) (evaluate : Bool) :
    ((∃ t, b.serialize evaluate = .ok t) ↔
      ∃ e, b.toWrite evaluate = .ok e ∧ ∀ v f, Part v (.block e) → ¬ v.Hinders f) ∧
    ∀ e f, b.toWrite evaluate = .ok e → b.serialize evaluate = .error f →
      ∃ v, Part v (.block e) ∧ v.Hinders f := by
  rw [serialize_eq]
  refine ⟨⟨?_, ?_⟩, ?_⟩
  · rintro ⟨t, h⟩
    obtain ⟨e, he, ht⟩ := bind_eq_ok.1 h
    exact ⟨e, he, (exists_written_iff e).1 ⟨t, ht⟩⟩
  · rintro ⟨e, he, h⟩
    obtain ⟨t, ht⟩ := (exists_written_iff e).2 h
    exact ⟨t, bind_eq_ok.2 ⟨e, he, ht⟩⟩
  · intro e f he h
    rw [he] at h
    exact hinders_of_written_eq_error h

/-- An infinite operand in a dictionary is refused; an infinite key is written as a word. -/
theorem serialize_unhindered_iff_infinity :
    (¬ ∃ t, Block.serialize [("x", .dict [(.int 1, .neg (.float (1 / 0)))])] false = .ok t) ∧
      Block.serialize [("x", .dict [(.float (1 / 0 : Float), .int 1)])] false = .ok "x = \x7binf: 1\x7d\n" := by
  constructor
  · rw [(serialize_unhindered_iff _ false).1]
    rintro ⟨_, ⟨rfl⟩, h⟩
    have hoperand : Part (.float (1 / 0)) (.dict [(.int 1, .neg (.float (1 / 0)))]) :=
      .inside List.mem_cons_self (.inside List.mem_cons_self (.self _))
    have hinfinite : (1 / 0 : Float).isFinite = false := by decide +kernel
    exact h _ _ (.inside List.mem_cons_self hoperand) (.float hinfinite)
  · decide +kernel

end Block

end CaseSetup
