/-! # Positions in a text

A position is the line, counted from 1, and the number of characters before it on that line. Only
a newline starts a new line. -/

namespace CaseSetup

structure Position where
  line : Nat
  column : Nat
  deriving DecidableEq, Repr

namespace Position

/-- The first position of a text. -/
def start : Position := ⟨1, 0⟩

def next (p : Position) (c : Char) : Position :=
  if c = '\n' then ⟨p.line + 1, 0⟩ else ⟨p.line, p.column + 1⟩

/-- The position after the characters `cs` that stand at `p`. -/
def after (p : Position) (cs : List Char) : Position := cs.foldl next p

@[simp] theorem after_nil (p : Position) : p.after [] = p := rfl

@[simp] theorem after_cons (p : Position) (c : Char) (cs : List Char) :
    p.after (c :: cs) = (p.next c).after cs := rfl

theorem after_append (p : Position) (as bs : List Char) : p.after (as ++ bs) = (p.after as).after bs :=
  List.foldl_append

end Position

end CaseSetup
