import CaseSetup.Proofs.Writing.Glue
import CaseSetup.Proofs.Writing.Regular

/-! # Dictionary keys that are floats

An infinite key is written as a word, which is no key when it is read. Keys come from float tokens,
so a text in which all of these are finite has finite keys only. -/

namespace CaseSetup

def Key.Finite : Key → Prop
  | float x => x.toFloat.isFinite
  | _ => True

/-- The number of a finite key is read as the key it is. -/
theorem Token.key?_of_isFinite {x : FloatBits} (h : x.toFloat.isFinite) : (float x).key? = some (.float x) := by
  show some (Key.float (.ofFloat x.toFloat)) = _
  rw [FloatBits.ofFloat_toFloat_of_isFinite h]

mutual
/-- Are all float keys in the value finite? -/
def Value.FiniteKeys : Value → Prop
  | .bool _ | .int _ | .float _ | .str _ | .var _ => True
  | .list items | .tuple items => ItemsFiniteKeys items
  | .dict entries => EntriesFiniteKeys entries
  | .block b => BlockFiniteKeys b
  | .neg v => v.FiniteKeys
  | .binary _ l r => l.FiniteKeys ∧ r.FiniteKeys
termination_by structural v => v

def ItemsFiniteKeys : List Value → Prop
  | [] => True
  | v :: vs => v.FiniteKeys ∧ ItemsFiniteKeys vs
termination_by structural vs => vs

def EntriesFiniteKeys : List (Key × Value) → Prop
  | [] => True
  | (k, v) :: es => k.Finite ∧ v.FiniteKeys ∧ EntriesFiniteKeys es
termination_by structural es => es

def BlockFiniteKeys : List (String × Value) → Prop
  | [] => True
  | (_, v) :: b => v.FiniteKeys ∧ BlockFiniteKeys b
termination_by structural b => b
end

def Block.FiniteKeys (b : Block) : Prop := BlockFiniteKeys b

theorem entriesFiniteKeys_iff {es : List (Key × Value)} :
    EntriesFiniteKeys es ↔ ∀ e ∈ es, e.1.Finite ∧ e.2.FiniteKeys := by
  induction es with
  | nil => simp [EntriesFiniteKeys]
  | cons e es ih => simp [EntriesFiniteKeys, ih, and_assoc]

namespace Grammar

/-- All float tokens are finite. -/
def FiniteWords (ws : Words) : Prop := ∀ w ∈ ws, ∀ x, w.token = .float x → x.isFinite

theorem finiteWords_append {ws rs : Words} : FiniteWords (ws ++ rs) ↔ FiniteWords ws ∧ FiniteWords rs := by
  simp [FiniteWords, or_imp, forall_and]

theorem finiteWords_cons {w : Word} {ws : Words} :
    FiniteWords (w :: ws) ↔ (∀ x, w.token = .float x → x.isFinite) ∧ FiniteWords ws := by
  simp [FiniteWords]

theorem finite_key {t : Token} {k : Key} (h : t.key? = some k) (ht : ∀ x, t = .float x → x.isFinite) : k.Finite := by
  unfold Token.key? at h
  split at h <;> cases h
  · trivial
  · trivial
  · rw [Key.Finite, FloatBits.toFloat_ofFloat]
    exact ht _ rfl
  · trivial

mutual
/-- No expression has a dictionary in it. -/
theorem Expression.finiteKeys {p : Nat} {ws : Words} {v : Value} : Expression p ws v → v.FiniteKeys
  | .operand h => h.finiteKeys
  | .binary _ _ hl hr => ⟨hl.finiteKeys, hr.finiteKeys⟩

theorem Operand.finiteKeys {ws : Words} {v : Value} : Operand ws v → v.FiniteKeys
  | .int .. | .float .. | .name .. => trivial
  | .neg h => h.finiteKeys
  | .parens h => h.finiteKeys
end

mutual
theorem Item.finiteKeys {ws : Words} {v : Value} : Item ws v → FiniteWords ws → v.FiniteKeys
  | .str .., _ | .bool .., _ | .emptyDict .., _ => trivial
  | .expression h, _ => h.finiteKeys
  | .tuple hi hm _, hw => by
    obtain ⟨hw, -⟩ := finiteWords_append.1 (finiteWords_cons.1 hw).2
    obtain ⟨hws, hrs⟩ := finiteWords_append.1 hw
    exact ⟨hi.finiteKeys hws, hm.finiteKeys hrs⟩
  | .dict hes, hw => by
    obtain ⟨hw, -⟩ := finiteWords_append.1 (finiteWords_cons.1 hw).2
    have hall := entriesFiniteKeys_iff.1 (hes.finiteKeys hw)
    exact entriesFiniteKeys_iff.2 fun e he => hall e (mem_collect he)

theorem MoreItems.finiteKeys {ws : Words} {vs : List Value} : MoreItems ws vs → FiniteWords ws → ItemsFiniteKeys vs
  | .nil, _ => trivial
  | .cons hi hm, hw => by
    obtain ⟨hws, hrs⟩ := finiteWords_append.1 (finiteWords_cons.1 hw).2
    exact ⟨hi.finiteKeys hws, hm.finiteKeys hrs⟩

theorem DictEntries.finiteKeys {ws : Words} {es : List (Key × Value)} :
    DictEntries ws es → FiniteWords ws → EntriesFiniteKeys es
  | .last hk hi, hw => by
    obtain ⟨hkey, hw⟩ := finiteWords_cons.1 hw
    exact ⟨finite_key hk hkey, hi.finiteKeys (finiteWords_cons.1 hw).2, trivial⟩
  | .more hk hi hes, hw => by
    obtain ⟨hkey, hw⟩ := finiteWords_cons.1 hw
    obtain ⟨hws, hrs⟩ := finiteWords_append.1 (finiteWords_cons.1 hw).2
    exact ⟨finite_key hk hkey, hi.finiteKeys hws, hes.finiteKeys (finiteWords_cons.1 hrs).2⟩
end

theorem RightSide.finiteKeys {ws : Words} {v : Value} (h : RightSide ws v) (hw : FiniteWords ws) : v.FiniteKeys := by
  cases h with
  | item hi => exact hi.finiteKeys hw
  | bare hi hm _ =>
    obtain ⟨hws, hrs⟩ := finiteWords_append.1 hw
    exact ⟨hi.finiteKeys hws, hm.finiteKeys hrs⟩
  | emptyList => trivial
  | list hi hm =>
    obtain ⟨hw, -⟩ := finiteWords_append.1 (finiteWords_cons.1 hw).2
    obtain ⟨hws, hrs⟩ := finiteWords_append.1 hw
    exact ⟨hi.finiteKeys hws, hm.finiteKeys hrs⟩

theorem Statements.finiteKeys {ws : Words} {b : Block} (h : Statements ws b) (hw : FiniteWords ws) :
    b.FiniteKeys := by
  induction h with
  | nil => trivial
  | comment _ ih => exact ih (finiteWords_cons.1 hw).2
  | assign _ hr _ ih =>
    obtain ⟨hws, hrs⟩ := finiteWords_append.1 (finiteWords_cons.1 (finiteWords_cons.1 hw).2).2
    exact ⟨hr.finiteKeys hws, ih hrs⟩
  | nested _ _ _ ihc ih =>
    obtain ⟨hws, hrs⟩ := finiteWords_append.1 (finiteWords_cons.1 (finiteWords_cons.1 hw).2).2
    exact ⟨ihc hws, ih (finiteWords_cons.1 hrs).2⟩

end Grammar

end CaseSetup
