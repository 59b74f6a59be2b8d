import CaseSetup.Proofs.Writing.Glue

/-! # Order of names and keys

`places` lists where the entries of blocks and the keys of dictionaries stand, as they come in the
text. Gluing keeps this list. -/

namespace CaseSetup

mutual
/-- The places of all entries and dictionary keys in a value that stands at `p`, in their order. -/
def Value.places (p : Place) : Value → List Place
  | .bool _ | .int _ | .float _ | .str _ | .var _ => []
  | .list items | .tuple items => itemPlaces p 0 items
  | .dict entries => keyPlaces p entries
  | .block entries => entryPlaces p entries
  | .neg v => v.places (.operand :: p)
  | .binary _ l r => l.places (.left :: p) ++ r.places (.right :: p)
termination_by structural v => v

def itemPlaces (p : Place) (i : Nat) : List Value → List Place
  | [] => []
  | v :: vs => v.places (.item i :: p) ++ itemPlaces p (i + 1) vs
termination_by structural vs => vs

def keyPlaces (p : Place) : List (Key × Value) → List Place
  | [] => []
  | (k, v) :: es => (.key k :: p) :: v.places (.key k :: p) ++ keyPlaces p es
termination_by structural es => es

def entryPlaces (p : Place) : List (String × Value) → List Place
  | [] => []
  | (name, v) :: es => (.entry name :: p) :: v.places (.entry name :: p) ++ entryPlaces p es
termination_by structural es => es
end

def Block.places (b : Block) : List Place := entryPlaces [] b

mutual
theorem Value.places_glue (p : Place) : ∀ v : Value, v.glue.places p = v.places p
  | .bool _ | .int _ | .float _ | .str _ | .var _ => by rw [Value.glue]
  | .list items | .tuple items => by
    rw [Value.glue, Value.places, Value.places]
    exact itemPlaces_glue p 0 items
  | .dict entries => by
    rw [Value.glue, Value.places, Value.places]
    exact keyPlaces_glue p entries
  | .block b => by
    rw [Value.glue, Value.places, Value.places]
    exact entryPlaces_glue p b
  | .binary _ l r => by
    rw [Value.glue, Value.places, Value.places, Value.places_glue _ l, Value.places_glue _ r]
  | .neg v => by
    rcases glue_neg_cases v with ⟨-, h⟩ | ⟨n, rfl, -, h⟩ | ⟨x, rfl, -, h⟩
    · rw [h, Value.places, Value.places, Value.places_glue _ v]
    · rw [h]
      rfl
    · rw [h]
      rfl

theorem itemPlaces_glue (p : Place) : ∀ (i : Nat) (vs : List Value), itemPlaces p i (glueItems vs) = itemPlaces p i vs
  | _, [] => by rw [glueItems]
  | i, v :: vs => by
    rw [glueItems, itemPlaces, itemPlaces, Value.places_glue _ v, itemPlaces_glue p (i + 1) vs]

theorem keyPlaces_glue (p : Place) : ∀ es : List (Key × Value), keyPlaces p (glueEntries es) = keyPlaces p es
  | [] => by rw [glueEntries]
  | (k, v) :: es => by
    rw [glueEntries, keyPlaces, keyPlaces, Value.places_glue _ v, keyPlaces_glue p es]

theorem entryPlaces_glue (p : Place) : ∀ b : List (String × Value), entryPlaces p (glueBlock b) = entryPlaces p b
  | [] => by rw [glueBlock]
  | (s, v) :: b => by
    rw [glueBlock, entryPlaces, entryPlaces, Value.places_glue _ v, entryPlaces_glue p b]
end

theorem Block.places_glue (b : Block) : b.glue.places = b.places := entryPlaces_glue [] b

end CaseSetup
