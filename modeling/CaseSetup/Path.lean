import CaseSetup.Fault
import CaseSetup.Text.Blank

/-! # Dotted paths

A path such as `boundary.internal.write` names a binding by the blocks it stands in. Blanks around
a name do not count; a name may not be blank. -/

namespace CaseSetup

def Fault.badPath (path : String) : Fault :=
  ⟨.unexpected "PATH" path 0 0, some "Use dot-separated names, e.g. boundary.internal.write", some 303⟩

namespace Path

/-- The stretches of text between the points. -/
def split : List Char → List (List Char)
  | [] => [[]]
  | c :: cs =>
    if c = '.' then [] :: split cs
    else match split cs with
      | s :: ss => (c :: s) :: ss
      | [] => [[c]]

/-- The names of a path. -/
def names (path : String) : Except Fault (List String) :=
  let names := (split path.toList).map fun cs => String.ofList (Text.trimBlanks cs)
  if names.any String.isEmpty then .error (.badPath path) else .ok names

/-- A blank path stands for the block it starts from, where that is allowed. -/
def isBlank (path : String) : Bool := (Text.trim path).isEmpty

theorem split_ne_nil (cs : List Char) : split cs ≠ [] := by
  cases cs with
  | nil => simp [split]
  | cons c cs =>
    rw [split]
    split
    · simp
    · split <;> simp

end Path

end CaseSetup
