/-! # Ordered entries

Blocks and dictionaries are lists of key-value pairs in the order their keys were first bound.
Keys are unique in a well-formed one, and every operation here keeps them so. Reading an entry is
`List.lookup`. -/

namespace CaseSetup.Entries

variable {κ α : Type}

def keys (es : List (κ × α)) : List κ := es.map (·.1)

@[simp] theorem keys_nil : keys ([] : List (κ × α)) = [] := rfl

@[simp] theorem keys_cons (e : κ × α) (es : List (κ × α)) : keys (e :: es) = e.1 :: keys es := rfl

@[simp] theorem keys_append (es fs : List (κ × α)) : keys (es ++ fs) = keys es ++ keys fs := by
  simp [keys]

variable [DecidableEq κ]

/-- Is `k` bound? -/
def binds (es : List (κ × α)) (k : κ) : Bool := (es.lookup k).isSome

/-- The entries with the value of `k` replaced where it stands. -/
def replace (k : κ) (v : α) : List (κ × α) → List (κ × α)
  | [] => []
  | (k', v') :: es => if k = k' then (k', v) :: es else (k', v') :: replace k v es

/-- A bound key keeps its place, a new one comes last. -/
def put (k : κ) (v : α) (es : List (κ × α)) : List (κ × α) :=
  if binds es k then replace k v es else es ++ [(k, v)]

/-- The entries without that of `k`; the rest keep their order. -/
def erase (k : κ) : List (κ × α) → List (κ × α)
  | [] => []
  | (k', v') :: es => if k = k' then es else (k', v') :: erase k es

theorem lookup_cons (k k' : κ) (v : α) (es : List (κ × α)) :
    List.lookup k ((k', v) :: es) = if k = k' then some v else es.lookup k := by
  by_cases h : k = k'
  · simp [h]
  · simp [List.lookup_cons, h, beq_false_of_ne h]

theorem binds_iff_mem_keys {es : List (κ × α)} {k : κ} : binds es k ↔ k ∈ keys es := by
  induction es with
  | nil => simp [binds]
  | cons e es ih =>
    obtain ⟨k', v⟩ := e
    by_cases h : k = k' <;> simp_all [binds, lookup_cons]

@[simp] theorem keys_replace (k : κ) (v : α) (es : List (κ × α)) : keys (replace k v es) = keys es := by
  induction es with
  | nil => rfl
  | cons e es ih => by_cases h : k = e.1 <;> simp [replace, h, ih]

theorem lookup_replace {k : κ} {v : α} {es : List (κ × α)} (h : binds es k) (k' : κ) :
    (replace k v es).lookup k' = if k' = k then some v else es.lookup k' := by
  induction es with
  | nil => simp [binds] at h
  | cons e es ih =>
    obtain ⟨k₁, v₁⟩ := e
    by_cases h₁ : k = k₁
    · subst h₁; by_cases h₂ : k' = k <;> simp [replace, lookup_cons, h₂]
    · have hb : binds es k := by simpa [binds, lookup_cons, h₁] using h
      by_cases h₂ : k' = k₁
      · subst h₂; simp [replace, h₁, Ne.symm h₁]
      · simp [replace, lookup_cons, h₁, h₂, ih hb]

end CaseSetup.Entries
