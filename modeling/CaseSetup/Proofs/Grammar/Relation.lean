import CaseSetup.Grammar.Item

/-! # The grammar

Which sequences of words are documents, and which block each one stands for. Every operator
associates to the left. No rule makes a list an item, and no rule lets a document end before its
last word. -/

namespace CaseSetup

/-- A token, and the sign glued to it. -/
structure Word where
  token : Token
  sign : Option Sign
  deriving DecidableEq

abbrev Words := List Word

def Located.word (t : Located) : Word := ⟨t.token, t.sign⟩

@[simp] theorem Located.word_mk {k : Token} {g : Option Sign} {p q : Position} :
    (⟨k, g, p, q⟩ : Located).word = ⟨k, g⟩ := rfl

/-- The words of tokens. -/
abbrev wordsOf (ts : List Located) : Words := ts.map Located.word

def Scan.words (s : Scan) : Words := wordsOf s.tokens

theorem Op.one_le_precedence (o : Op) : 1 ≤ o.precedence := by
  cases o <;> decide

theorem Op.precedence_le_three (o : Op) : o.precedence ≤ 3 := by
  cases o <;> decide

namespace Grammar

/-- After an operand, a number with a glued sign is an operator and a number without a sign. The
magnitude of the smallest integer is no integer. -/
inductive Splits : Word → Op → Word → Prop
  | plusInt (n : Int64) : Splits ⟨.int n, some .plus⟩ .add ⟨.int n, none⟩
  | minusInt {n : Int64} : n ≠ Int64.minValue → Splits ⟨.int n, some .minus⟩ .sub ⟨.int (-n), none⟩
  | plusFloat (x : Float) : Splits ⟨.float x, some .plus⟩ .add ⟨.float x.abs, none⟩
  | minusFloat (x : Float) : Splits ⟨.float x, some .minus⟩ .sub ⟨.float x.abs, none⟩

/-- The word after an operand acts as the operator `o`, followed by the words `us`. -/
inductive Joins : Word → Op → Words → Prop
  | symbol {w : Word} {o : Op} : w.token.op? = some o → Joins w o []
  | glued {w u : Word} {o : Op} : Splits w o u → Joins w o [u]

mutual
/-- An expression whose operators outside parentheses bind at least as tightly as `p`. -/
inductive Expression : Nat → Words → Value → Prop
  | operand {p : Nat} {ws : Words} {v : Value} : Operand ws v → Expression p ws v
  | binary {p : Nat} {w : Word} {o : Op} {us ls rs : Words} {l r : Value} :
    Joins w o us → p ≤ o.precedence → Expression o.precedence ls l →
    Expression (o.precedence + 1) (us ++ rs) r → Expression p (ls ++ w :: rs) (.binary o l r)

inductive Operand : Words → Value → Prop
  | int (n : Int64) (g : Option Sign) : Operand [⟨.int n, g⟩] (.int n)
  | float (x : Float) (g : Option Sign) : Operand [⟨.float x, g⟩] (.float x)
  | name (s : String) (g : Option Sign) : Operand [⟨.name s, g⟩] (.var s)
  | neg {g : Option Sign} {ws : Words} {v : Value} : Operand ws v → Operand (⟨.minus, g⟩ :: ws) (.neg v)
  | parens {g g' : Option Sign} {ws : Words} {v : Value} :
    Expression 1 ws v → Operand (⟨.openParen, g⟩ :: (ws ++ [⟨.closeParen, g'⟩])) v
end

/-- The dictionary of entries in the order they are written: a repeated key takes the later value
and keeps its first place. -/
def collect (es : List (Key × Value)) : Dict := es.foldl (fun d e => Entries.put e.1 e.2 d) []

mutual
inductive Item : Words → Value → Prop
  | str (s : String) (g : Option Sign) : Item [⟨.str s, g⟩] (.str s)
  | bool (b : Bool) (g : Option Sign) : Item [⟨.bool b, g⟩] (.bool b)
  | expression {ws : Words} {v : Value} : Expression 1 ws v → Item ws v
  | tuple {g g' : Option Sign} {ws rs : Words} {v : Value} {vs : List Value} :
    Item ws v → MoreItems rs vs → vs ≠ [] →
    Item (⟨.openParen, g⟩ :: (ws ++ rs ++ [⟨.closeParen, g'⟩])) (.tuple (v :: vs))
  | emptyDict (g g' : Option Sign) : Item [⟨.openBrace, g⟩, ⟨.closeBrace, g'⟩] (.dict [])
  | dict {g g' : Option Sign} {ws : Words} {es : List (Key × Value)} :
    DictEntries ws es → Item (⟨.openBrace, g⟩ :: (ws ++ [⟨.closeBrace, g'⟩])) (.dict (collect es))

/-- Items with a comma before each. -/
inductive MoreItems : Words → List Value → Prop
  | nil : MoreItems [] []
  | cons {g : Option Sign} {ws rs : Words} {v : Value} {vs : List Value} :
    Item ws v → MoreItems rs vs → MoreItems (⟨.comma, g⟩ :: (ws ++ rs)) (v :: vs)

/-- One or more entries with literal keys. -/
inductive DictEntries : Words → List (Key × Value) → Prop
  | last {g : Option Sign} {w : Word} {k : Key} {ws : Words} {v : Value} :
    w.token.key? = some k → Item ws v → DictEntries (w :: ⟨.colon, g⟩ :: ws) [(k, v)]
  | more {g g' : Option Sign} {w : Word} {k : Key} {ws rs : Words} {v : Value} {es : List (Key × Value)} :
    w.token.key? = some k → Item ws v → DictEntries rs es →
    DictEntries (w :: ⟨.colon, g⟩ :: (ws ++ ⟨.comma, g'⟩ :: rs)) ((k, v) :: es)
end

/-- What stands after `name =`: one item, a bare list of two or more, or a list in brackets. -/
inductive RightSide : Words → Value → Prop
  | item {ws : Words} {v : Value} : Item ws v → RightSide ws v
  | bare {ws rs : Words} {v : Value} {vs : List Value} :
    Item ws v → MoreItems rs vs → vs ≠ [] → RightSide (ws ++ rs) (.list (v :: vs))
  | emptyList (g g' : Option Sign) : RightSide [⟨.openBracket, g⟩, ⟨.closeBracket, g'⟩] (.list [])
  | list {g g' : Option Sign} {ws rs : Words} {v : Value} {vs : List Value} :
    Item ws v → MoreItems rs vs →
    RightSide (⟨.openBracket, g⟩ :: (ws ++ rs ++ [⟨.closeBracket, g'⟩])) (.list (v :: vs))

/-- The statements of a document or of a nested block. No name is bound twice. -/
inductive Statements : Words → Block → Prop
  | nil : Statements [] []
  | comment {s : String} {g : Option Sign} {ws : Words} {b : Block} :
    Statements ws b → Statements (⟨.comment s, g⟩ :: ws) b
  | assign {s : String} {g g' : Option Sign} {ws rs : Words} {v : Value} {b : Block} :
    s ∉ Entries.keys b → RightSide ws v → Statements rs b →
    Statements (⟨.name s, g⟩ :: ⟨.equals, g'⟩ :: (ws ++ rs)) ((s, v) :: b)
  | nested {s : String} {g g' g'' : Option Sign} {ws rs : Words} {c b : Block} :
    s ∉ Entries.keys b → Statements ws c → Statements rs b →
    Statements (⟨.name s, g⟩ :: ⟨.openBrace, g'⟩ :: (ws ++ ⟨.closeBrace, g''⟩ :: rs)) ((s, .block c) :: b)

/-- What binds a name: `=` and a right-hand side, or a block in braces. -/
inductive Binding : Words → Value → Prop
  | assign {g : Option Sign} {ws : Words} {v : Value} : RightSide ws v → Binding (⟨.equals, g⟩ :: ws) v
  | nested {g g' : Option Sign} {ws : Words} {c : Block} :
    Statements ws c → Binding (⟨.openBrace, g⟩ :: (ws ++ [⟨.closeBrace, g'⟩])) (.block c)

theorem Statements.bind {s : String} {g : Option Sign} {ws rs : Words} {v : Value} {b : Block}
    (hs : s ∉ Entries.keys b) (h : Binding ws v) (hb : Statements rs b) :
    Statements (⟨.name s, g⟩ :: (ws ++ rs)) ((s, v) :: b) := by
  cases h with
  | assign h => exact .assign hs h hb
  | nested h => simpa using Statements.nested hs h hb

/-- A document is all of its statements, up to the end of the text. -/
abbrev Document := Statements

/-! ## What phrases hold -/

variable {p q : Nat} {w : Word} {ws : Words} {v : Value}

theorem Expression.mono (h : Expression q ws v) (hp : p ≤ q) : Expression p ws v := by
  cases h with
  | operand h => exact .operand h
  | binary hj hq hl hr => exact .binary hj (Nat.le_trans hp hq) hl hr

theorem Operand.ne_nil (h : Operand ws v) : ws ≠ [] := by
  cases h <;> simp

theorem Expression.ne_nil (h : Expression p ws v) : ws ≠ [] := by
  cases h with
  | operand h => exact h.ne_nil
  | binary => simp

theorem Operand.starts (h : Operand (w :: ws) v) : w.token ≠ .openBracket ∧ w.token ≠ .closeBracket := by
  cases h <;> simp

theorem Expression.starts {p : Nat} {ws us : Words} {w : Word} {v : Value} : Expression p ws v → ws = w :: us →
    w.token ≠ .openBracket ∧ w.token ≠ .closeBracket
  | .operand h, hws => (hws ▸ h).starts
  | .binary _ _ hl _, hws => by
    obtain ⟨u, ls, rfl⟩ := List.exists_cons_of_ne_nil hl.ne_nil
    obtain rfl : u = w := (List.cons.inj hws).1
    exact hl.starts rfl

theorem Item.ne_nil (h : Item ws v) : ws ≠ [] := by
  cases h with
  | expression h => exact h.ne_nil
  | _ => simp

/-- No item starts with a bracket. -/
theorem Item.starts (h : Item (w :: ws) v) : w.token ≠ .openBracket ∧ w.token ≠ .closeBracket := by
  cases h with
  | expression h => exact h.starts rfl
  | _ => simp

mutual
theorem Expression.isArithmetic {p : Nat} {ws : Words} {v : Value} : Expression p ws v → v.isArithmetic
  | .operand h => h.isArithmetic
  | .binary .. => rfl

theorem Operand.isArithmetic {ws : Words} {v : Value} : Operand ws v → v.isArithmetic
  | .int .. | .float .. | .name .. | .neg _ => rfl
  | .parens h => h.isArithmetic
end

/-- Only expressions are arithmetic, among the items. -/
theorem Item.expression_of_isArithmetic (h : Item ws v) (hv : v.isArithmetic) : Expression 1 ws v := by
  cases h with
  | expression h => exact h
  | str | bool | tuple | emptyDict | dict => simp [Value.isArithmetic] at hv

end Grammar

end CaseSetup
