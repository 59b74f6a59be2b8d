import CaseSetup.Block.Change
import CaseSetup.Proofs.Entries
import CaseSetup.Proofs.Outcome

/-! # Changes made in place

A change made in place works on the document itself: what it has done by the time it fails stays
done. Here each change is such a sequence of steps: it looks a name up, writes, and reports a fault
where there is one; a change inside a nested block writes the block back whatever came of it. Main
statement: a change that fails has left the document as it was, and one that succeeds has made of it
what `Change.applyAlong` gives. -/

namespace CaseSetup

/-- Steps on a block that can fail. The block afterwards is there in either case. -/
abbrev InPlace (α : Type) := ExceptT Fault (StateM Block) α

namespace InPlace

variable {α β : Type}

/-- What comes of the steps, and the block afterwards. -/
def on (steps : InPlace α) (b : Block) : Except Fault α × Block := (steps.run.run b).run

/-- Bind a new name, after all others. -/
def add (name : String) (v : Value) : InPlace Unit := do
  if (← get).binds name then throw (.duplicateName name)
  modify (· ++ [(name, v)])

/-- Replace the value of a bound name where it stands. -/
def set (name : String) (v : Value) : InPlace Unit := do
  if (← get).binds name then modify (Entries.replace name v) else throw (.missingName name)

/-- Take the entry of a name out and give back its value. -/
def remove (name : String) : InPlace Value := do
  let v? := (← get).lookup name
  modify (Entries.erase name)
  match v? with
  | some v => return v
  | none => throw (.missingName name)

def clear : InPlace Unit := do modify fun _ => []

/-- Take the steps on the nested block bound to `name`, and write it back. -/
def inChild (name : String) (steps : InPlace α) : InPlace α := do
  match (← get).lookup name with
  | some (.block c) =>
    let (outcome, c') := steps.on c
    modify (Entries.replace name (.block c'))
    ofExcept outcome
  | some v => throw (.notABlock name v)
  | none => throw (.missingName name)

/-- Take the steps on the nested block at the end of the names. -/
def inside (names : List String) (steps : InPlace α) : InPlace α := names.foldr inChild steps

/-- Replace the value at a dotted path. -/
def setPath (path : String) (v : Value) : InPlace Unit := do
  let names ← ofExcept (Path.names path)
  match names.getLast? with
  | some name => inside names.dropLast (set name v)
  | none => throw (.missingName "")

/-- Take the steps on the block that the spots lead to, one after the other. -/
def along (steps : InPlace α) : List Spot → InPlace α
  | [] => steps
  | spot :: spots => do
    let names ← ofExcept spot.names
    inside names (along steps spots)

end InPlace

namespace Change

/-- Make the change in place; its value is the one it takes out. -/
def perform : Change → InPlace (Option Value)
  | add name v => do InPlace.add name v; return none
  | set name v => do InPlace.set name v; return none
  | setPath path v => do InPlace.setPath path v; return none
  | remove name => some <$> InPlace.remove name
  | clear => do InPlace.clear; return none

/-- The block after the change of the block that the spots lead to, and the value it took out. -/
def applyAlong (c : Change) : List Spot → Block → Except Fault (Option Value × Block)
  | [], b => c.apply b
  | spot :: spots, b => do b.modifyAt (c.applyAlong spots) (← spot.names)

end Change

namespace InPlace

variable {α β : Type} {b : Block}

@[simp] theorem on_throw (f : Fault) : (throw f : InPlace α).on b = (.error f, b) := rfl

@[simp] theorem on_ofExcept (x : Except Fault α) : (ofExcept x : InPlace α).on b = (x, b) := by
  cases x <;> rfl

@[simp] theorem on_modify (f : Block → Block) : (modify f : InPlace Unit).on b = (.ok (), f b) := rfl

@[simp] theorem on_get : (get : InPlace Block).on b = (.ok b, b) := rfl

theorem on_bind (steps : InPlace α) (f : α → InPlace β) :
    (steps >>= f).on b = match steps.on b with
      | (.ok a, c) => (f a).on c
      | (.error err, c) => (.error err, c) := by
  unfold on
  rw [ExceptT.run_bind, StateT.run_bind]
  rcases StateT.run (ExceptT.run steps) b with ⟨outcome, c⟩
  cases outcome <;> rfl

theorem on_map (f : α → β) (steps : InPlace α) :
    (f <$> steps).on b = (f <$> (steps.on b).1, (steps.on b).2) := by
  rw [map_eq_pure_bind, on_bind]
  rcases steps.on b with ⟨outcome, c⟩
  cases outcome <;> rfl

/-- What comes of steps that either make a new block or leave the old one. -/
def settle (b : Block) : Except Fault (α × Block) → Except Fault α × Block
  | .ok (a, c) => (.ok a, c)
  | .error err => (.error err, b)

theorem on_add (name : String) (v : Value) : (add name v).on b = settle b (((), ·) <$> b.add name v) := by
  unfold add Block.add
  rw [on_bind, on_get]
  dsimp only
  split
  · rfl
  · rfl

theorem on_set (name : String) (v : Value) : (set name v).on b = settle b (((), ·) <$> b.set name v) := by
  unfold set Block.set
  rw [on_bind, on_get]
  dsimp only
  split
  · rfl
  · rfl

/-- Taking out the entry of a name that is not bound takes nothing out. -/
theorem on_remove (name : String) : (remove name).on b = settle b (b.remove name) := by
  unfold remove Block.remove
  simp only [on_bind, on_get, on_modify]
  cases h : b.lookup name with
  | some v => rfl
  | none => exact Prod.ext rfl (Entries.erase_of_lookup_eq_none h)

/-- A nested block is written back as it was if the steps on it fail. -/
theorem on_inChild {steps : InPlace α} {f : Block → Except Fault (α × Block)} (h : ∀ c, steps.on c = settle c (f c))
    (name : String) : (inChild name steps).on b = settle b (b.modifyAt f [name]) := by
  unfold inChild
  rw [on_bind, on_get]
  dsimp only
  cases hl : b.lookup name with
  | none => simp [Block.modifyAt, Block.child, hl, settle, bind, Except.bind]
  | some v =>
    cases v with
    | block c =>
      simp only [h, on_bind, on_modify, on_ofExcept]
      simp only [Block.modifyAt, Block.child, hl, bind, Except.bind]
      cases f c with
      | ok p => rfl
      | error err => exact Prod.ext rfl (Entries.replace_of_lookup hl)
    | _ => simp [Block.modifyAt, Block.child, hl, settle, bind, Except.bind]

theorem on_inside {steps : InPlace α} {f : Block → Except Fault (α × Block)} (h : ∀ c, steps.on c = settle c (f c))
    (names : List String) : (inside names steps).on b = settle b (b.modifyAt f names) := by
  induction names generalizing b with
  | nil => exact h b
  | cons name names ih => exact on_inChild (f := Block.modifyAt f names) (fun c => ih) name

end InPlace

/-- To replace the value at the end of a chain of names is to change the block before the last. -/
theorem Block.setAt_append_one (v : Value) (names : List String) (name : String) (b : Block) :
    b.setAt v (names ++ [name]) = (·.2) <$> b.modifyAt (fun m => ((), ·) <$> m.set name v) names := by
  induction names generalizing b with
  | nil =>
    rw [List.nil_append, setAt, modifyAt]
    cases b.set name v <;> rfl
  | cons n names ih =>
    have hne : names ++ [name] ≠ [] := by simp
    rw [List.cons_append, setAt, modifyAt]
    · cases b.child n with
      | error err => rfl
      | ok c =>
        simp only [bind, Except.bind, ih]
        cases c.modifyAt (fun m => ((), ·) <$> m.set name v) names <;> rfl
    · exact hne

namespace InPlace

variable {α : Type} {b : Block}

theorem on_setPath (path : String) (v : Value) :
    (setPath path v).on b = settle b (((), ·) <$> b.setPath path v) := by
  unfold setPath Block.setPath
  rw [on_bind, on_ofExcept]
  cases Path.names path with
  | error err => rfl
  | ok names =>
    rcases names.eq_nil_or_concat with rfl | ⟨ms, name, hnames⟩
    · rfl
    · obtain rfl : names = ms ++ [name] := hnames.trans List.concat_eq_append
      have hset := on_inside (b := b) (f := fun m => ((), ·) <$> m.set name v) (fun c => on_set name v) ms
      simp only [List.getLast?_concat, List.dropLast_concat, hset]
      simp only [bind, Except.bind, Block.setAt_append_one]
      cases b.modifyAt (fun m => ((), ·) <$> m.set name v) ms <;> rfl

end InPlace

namespace Change

variable {b : Block}

theorem on_perform (c : Change) : c.perform.on b = InPlace.settle b (c.apply b) := by
  have hnone {steps : InPlace Unit} {x : Except Fault Block} (h : steps.on b = InPlace.settle b (((), ·) <$> x)) :
      (do steps; return none : InPlace (Option Value)).on b = InPlace.settle b ((none, ·) <$> x) := by
    rw [InPlace.on_bind, h]
    cases x <;> rfl
  cases c with
  | add name v => exact hnone (InPlace.on_add name v)
  | set name v => exact hnone (InPlace.on_set name v)
  | setPath path v => exact hnone (InPlace.on_setPath path v)
  | remove name =>
    rw [perform, apply, InPlace.on_map, InPlace.on_remove]
    cases b.remove name <;> rfl
  | clear => rfl

/-- A change that is made in place, wherever it is, leaves the document as it was if it fails. -/
theorem on_along_perform (c : Change) (spots : List Spot) :
    (InPlace.along c.perform spots).on b = InPlace.settle b (c.applyAlong spots b) := by
  induction spots generalizing b with
  | nil => exact c.on_perform
  | cons spot spots ih =>
    rw [InPlace.along, applyAlong, InPlace.on_bind, InPlace.on_ofExcept]
    cases spot.names with
    | error err => rfl
    | ok names => exact InPlace.on_inside (fun c => ih) names

end Change

end CaseSetup
