import CaseSetup.Token.Lexeme

/-! # The tokens of a text

`Scan.ofText` reads a whole text: its tokens in order, and whether they end with the text or at
something malformed. Spaces, tabs, carriage returns and newlines may stand between tokens. -/

namespace CaseSetup

/-- What follows the last token. -/
inductive Ending
  | clean (pos : Position)
  | malformed (pos : Position) (m : Malformed)
  deriving DecidableEq

/-- Where the scan ends: after the text, or before the malformed part. -/
def Ending.pos : Ending → Position
  | clean p | malformed p _ => p

/-- How faults speak of the end of the text. -/
def endKind : String := "EOF"

def endText : String := "<end of input>"

structure Scan where
  tokens : List Located
  ending : Ending
  deriving DecidableEq

namespace Scan

def isGap (c : Char) : Bool := c = ' ' || c = '\t' || c = '\r' || c = '\n'

/-- The tokens of the text `cs` that stands at `p`. -/
def ofChars (p : Position) (cs : List Char) : Scan :=
  let p := p.after (cs.takeWhile isGap)
  match _hr : cs.dropWhile isGap with
  | [] => ⟨[], .clean p⟩
  | c :: rest =>
    match _hl : Lexeme.scan c rest with
    | .error m => ⟨[], .malformed p m⟩
    | .ok (l, rest') =>
      let q := p.after l.slice
      let s := ofChars q rest'
      ⟨⟨l.token, l.sign, p, q⟩ :: s.tokens, s.ending⟩
termination_by cs.length
decreasing_by
  have h := Lexeme.scan_lt _hl
  have hd := congrArg List.length _hr
  have := (List.dropWhile_sublist isGap (l := cs)).length_le
  omega

def ofText (s : String) : Scan := ofChars .start s.toList

/-- The tokens alone, or the fault of what is malformed. -/
def tokens? (s : Scan) : Except Fault (List Token) :=
  match s.ending with
  | .clean _ => .ok (s.tokens.map (·.token))
  | .malformed p m => .error (m.fault p)

end Scan

end CaseSetup
