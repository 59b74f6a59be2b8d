import CaseSetup.Fault
import CaseSetup.Text.Alphanumeric
import CaseSetup.Text.Blank
import CaseSetup.Token.Numeral

/-! # Lexemes

`Lexeme.scan` reads one token from the front of a text. The slice it took is never empty, and slice
and rest together are the text (`slice_ne_nil`, `scan_append`). -/

namespace CaseSetup

/-- Why no token can be read. -/
inductive Malformed.Reason
  | unclosedString
  /-- Digits with an `e` after them that starts no exponent. -/
  | bareExponent
  | noToken
  /-- A float with digits that are not ASCII. -/
  | floatDigits
  | integerRange
  deriving DecidableEq, Repr

/-- Text that cannot be read as a token, and the part of it to show. -/
structure Malformed where
  reason : Malformed.Reason
  fragment : List Char
  deriving DecidableEq, Repr

namespace Malformed

def Reason.hint : Reason → String
  | unclosedString => "String literal not closed"
  | bareExponent => "Exponent needs digits, as in 1e5 or 1e-5"
  | noToken => "No token starts here"
  | floatDigits => "Invalid float literal"
  | integerRange => "Integer literal out of range"

def Reason.code : Reason → Nat
  | floatDigits | integerRange => 102
  | unclosedString | bareExponent => 103
  | noToken => 104

/-- The fault of malformed text that stands at `p`. -/
def fault (m : Malformed) (p : Position) : Fault :=
  ⟨.lexical (.ofList m.fragment) p.line (p.column + 1), some m.reason.hint, some m.reason.code⟩

/-- What was read before the trouble showed: all of a literal without value, else nothing. -/
def consumed (m : Malformed) : List Char :=
  match m.reason with
  | .floatDigits | .integerRange => m.fragment
  | _ => []

/-- The text up to the next blank is shown. -/
def upToBlank (reason : Reason) (cs : List Char) : Malformed :=
  ⟨reason, cs.takeWhile fun c => !Text.isBlank c⟩

end Malformed

/-- A token, the sign glued to it if it is a number, and the text it was read from. -/
structure Lexeme where
  token : Token
  sign : Option Sign
  slice : List Char
  deriving DecidableEq

namespace Lexeme

def symbol? : Char → Option Token
  | '=' => some .equals
  | '-' => some .minus
  | '+' => some .plus
  | '*' => some .star
  | '/' => some .slash
  | '^' => some .caret
  | ',' => some .comma
  | ':' => some .colon
  | '(' => some .openParen
  | ')' => some .closeParen
  | '[' => some .openBracket
  | ']' => some .closeBracket
  | '{' => some .openBrace
  | '}' => some .closeBrace
  | _ => none

def isWordStart (c : Char) : Bool := c.isAlpha || c = '_'

def isWordChar (c : Char) : Bool := Text.isAlphanumeric c || c = '_'

/-- A word is a name unless it spells `true` or `false` in any letter case. -/
def wordToken (cs : List Char) : Token :=
  match cs.map Char.toLower with
  | ['t', 'r', 'u', 'e'] => .bool true
  | ['f', 'a', 'l', 's', 'e'] => .bool false
  | _ => .name (.ofList cs)

def startsDigits : List Char → Bool
  | '.' :: c :: _ => c.isDigit
  | c :: _ => c.isDigit
  | [] => false

/-- A number starts with an ASCII digit, perhaps after a point, perhaps after a sign. -/
def startsNumber (cs : List Char) : Bool := startsDigits (Numeral.scanSign cs).2

/-- A float is looked for first, then an integer. -/
def scanNumber (cs : List Char) : Except Malformed (Lexeme × List Char) :=
  let sign := (Numeral.scanSign cs).1
  match Numeral.floatPattern.find? cs with
  | some (slice, rest) =>
    match (Numeral.scan slice).1.toFloat? with
    | some x => .ok (⟨.float x, sign, slice⟩, rest)
    | none => .error ⟨.floatDigits, slice⟩
  | none =>
    match Numeral.integerPattern.find? cs with
    | none => .error (.upToBlank .noToken cs)
    | some (slice, rest) =>
      if rest.head? = some 'e' then .error (.upToBlank .bareExponent cs)
      else match (Numeral.scan slice).1.toInt? with
        | some i => .ok (⟨.int i, sign, slice⟩, rest)
        | none => .error ⟨.integerRange, slice⟩

def scanString (cs : List Char) : Except Malformed (Lexeme × List Char) :=
  let body := cs.takeWhile (· ≠ '"')
  match cs.dropWhile (· ≠ '"') with
  | q :: rest => .ok (⟨.str (.ofList body), none, '"' :: body ++ [q]⟩, rest)
  | [] => .error (.upToBlank .unclosedString ('"' :: cs))

/-- The lexeme at the front of `c :: cs` and what follows it. -/
def scan (c : Char) (cs : List Char) : Except Malformed (Lexeme × List Char) :=
  if c = '/' ∧ cs.head? = some '/' then
    let slice := (c :: cs).takeWhile (· ≠ '\n')
    .ok (⟨.comment (.ofList slice), none, slice⟩, (c :: cs).dropWhile (· ≠ '\n'))
  else if c = '"' then scanString cs
  else if isWordStart c then
    let slice := (c :: cs).takeWhile isWordChar
    .ok (⟨wordToken slice, none, slice⟩, (c :: cs).dropWhile isWordChar)
  else if startsNumber (c :: cs) then scanNumber (c :: cs)
  else match symbol? c with
    | some t => .ok (⟨t, none, [c]⟩, cs)
    | none => .error (.upToBlank .noToken (c :: cs))

theorem isWordChar_of_isWordStart {c : Char} (h : isWordStart c) : isWordChar c := by
  simp only [isWordStart, Bool.or_eq_true, decide_eq_true_eq] at h
  simp only [isWordChar, Bool.or_eq_true, decide_eq_true_eq]
  refine h.imp_left fun h => Text.isAlphanumeric_of_isAlphanum ?_ ?_
  · simp [Char.isAlphanum, h]
  · have hc : (decide (c.val ≥ 'A'.val ∧ c.val ≤ 'Z'.val) || (c.val ≥ 'a'.val && c.val ≤ 'z'.val)) = true := h
    simp only [Bool.or_eq_true, Bool.and_eq_true, decide_eq_true_eq, ge_iff_le, UInt32.le_iff_toNat_le] at hc
    simp at hc
    omega

/-- The slice of a number is what one of the two patterns finds. -/
theorem find?_of_scanNumber {cs rest : List Char} {l : Lexeme} (h : scanNumber cs = .ok (l, rest)) :
    Numeral.floatPattern.find? cs = some (l.slice, rest) ∨ Numeral.integerPattern.find? cs = some (l.slice, rest) := by
  unfold scanNumber at h
  split at h
  · rename_i hfind
    split at h <;> cases h
    exact .inl hfind
  · split at h
    · cases h
    · rename_i hfind
      split at h
      · cases h
      · split at h <;> cases h
        exact .inr hfind

theorem scanString_append {cs rest : List Char} {l : Lexeme} (h : scanString cs = .ok (l, rest)) :
    l.slice ++ rest = '"' :: cs := by
  simp only [scanString] at h
  split at h
  · rename_i q rest' hd
    simp only [Except.ok.injEq, Prod.mk.injEq] at h
    obtain ⟨rfl, rfl⟩ := h
    simp [← hd, List.takeWhile_append_dropWhile]
  · simp at h

/-- Slice and rest make up the text. -/
theorem scan_append {c : Char} {cs rest : List Char} {l : Lexeme} (h : scan c cs = .ok (l, rest)) :
    l.slice ++ rest = c :: cs := by
  unfold scan at h
  split at h
  · simp only [Except.ok.injEq, Prod.mk.injEq] at h
    obtain ⟨rfl, rfl⟩ := h; exact List.takeWhile_append_dropWhile
  split at h
  · rename_i hq; subst hq; exact scanString_append h
  split at h
  · simp only [Except.ok.injEq, Prod.mk.injEq] at h
    obtain ⟨rfl, rfl⟩ := h; exact List.takeWhile_append_dropWhile
  split at h
  · exact (find?_of_scanNumber h).elim Pattern.find?_append Pattern.find?_append
  split at h <;> simp only [Except.ok.injEq, Prod.mk.injEq, reduceCtorEq] at h
  obtain ⟨rfl, rfl⟩ := h; rfl

theorem slice_ne_nil {c : Char} {cs rest : List Char} {l : Lexeme} (h : scan c cs = .ok (l, rest)) :
    l.slice ≠ [] := by
  unfold scan at h
  split at h
  · rename_i hc
    simp only [Except.ok.injEq, Prod.mk.injEq] at h
    obtain ⟨rfl, -⟩ := h; simp [hc.1]
  split at h
  · simp only [scanString] at h
    split at h <;> simp only [Except.ok.injEq, Prod.mk.injEq, reduceCtorEq] at h
    obtain ⟨rfl, -⟩ := h; simp
  split at h
  · rename_i hw
    simp only [Except.ok.injEq, Prod.mk.injEq] at h
    obtain ⟨rfl, -⟩ := h; simp [isWordChar_of_isWordStart hw]
  split at h
  · exact (find?_of_scanNumber h).elim (Pattern.find?_ne_nil rfl) (Pattern.find?_ne_nil rfl)
  split at h <;> simp only [Except.ok.injEq, Prod.mk.injEq, reduceCtorEq] at h
  obtain ⟨rfl, -⟩ := h; simp

theorem scan_lt {c : Char} {cs rest : List Char} {l : Lexeme} (h : scan c cs = .ok (l, rest)) :
    rest.length < (c :: cs).length := by
  rw [← scan_append h, List.length_append]
  exact Nat.lt_add_of_pos_left (List.length_pos_iff.2 (slice_ne_nil h))

end Lexeme

end CaseSetup
