import CaseSetup.Grammar.Document
import CaseSetup.Proofs.Grammar.Cursor

/-! # The readers of the grammar

Every reader is put together from a few combinators and from calls with one less of depth. The equations
here say how, so that what holds of the combinators can be carried to the readers. -/

namespace CaseSetup

/-- A reader with its depth. -/
abbrev Reader (α : Type) : Type := Ending → Nat → Tokens → Except Stop (α × Tokens)

namespace Reader

variable {α β : Type}

def result (a : α) : Reader α := fun _ _ ts => .ok (a, ts)

/-- Blame what is ahead. -/
def blame (x : Expected) : Reader α := fun e _ ts => .error (e.unexpected ts x)

def fail (f : Fault) : Reader α := fun _ _ _ => .error (.fault f)

def andThen (A : Reader α) (B : α → Reader β) : Reader β := fun e n ts => A e n ts >>= fun r => B r.1 e n r.2

/-- Take the token ahead, then read with `B`. -/
def take (B : Reader β) : Reader β := fun e n ts => e.bump ts >>= B e n

/-- Go on as what is seen demands. -/
def look (f : Sight → Reader β) : Reader β := fun e n ts => f (e.front ts) e n ts

/-- Take the token `t`, then read with `B`. -/
def expecting (t : Token) (x : Expected) (B : Reader β) : Reader β :=
  look fun s => if s.token = some t then take B else blame x

theorem ext {A R : Reader α} (h : ∀ e n ts, R e n ts = A e n ts) : R = A :=
  funext fun e => funext fun n => funext (h e n)

theorem ite_run (p : Prop) [Decidable p] (A B : Reader α) (e : Ending) (n : Nat) (ts : Tokens) :
    (if p then A else B) e n ts = if p then A e n ts else B e n ts := by
  split <;> rfl

/-- What `look` demands is decided by what is seen. -/
theorem look_run (f : Sight → Reader α) (e : Ending) (n : Nat) (ts : Tokens) :
    look f e n ts = f (e.front ts) e n ts := rfl

theorem andThen_of (A : Reader α) {B : α → Reader β} {e : Ending} {n : Nat} {ts : Tokens}
    {f : α × Tokens → Except Stop (β × Tokens)} (h : ∀ a us, f (a, us) = B a e n us) :
    A e n ts >>= f = andThen A B e n ts :=
  bind_congr fun r => h r.1 r.2

theorem expect_bind (t : Token) (x : Expected) (B : Reader β) (e : Ending) (n : Nat) (ts : Tokens) :
    e.expect t x ts >>= B e n = expecting t x B e n ts := by
  unfold Ending.expect expecting Ending.peek
  rw [look_run, ite_run]
  by_cases h : (e.front ts).token = some t
  · rw [if_pos h, if_pos h]
    rfl
  · rw [if_neg h, if_neg h]
    rfl

def ofBinary (p : Nat) : Reader Value := fun e n ts => binary e n p ts

def ofClimb (p : Nat) (lhs : Value) : Reader Value := fun e n ts => climb e n p lhs ts

def ofKey : Reader Key := fun e _ ts => key e ts

def ofEntries (d : Dict) : Reader Value := fun e n ts => entries e n d ts

def ofStatements (nested : Bool) (b : Block) : Reader Block := fun e n ts => statements e nested n b ts

variable (e : Ending) (n : Nat) (ts : Tokens)

theorem primary_eq : primary e (n + 1) ts = (look fun s => match s.token with
      | some (.int i) => take (result (.int i))
      | some (.float x) => take (result (.float x))
      | some (.name s) => take (result (.var s))
      | some .openParen => take (andThen (ofBinary lowest) fun v => expecting .closeParen .closingParen (result v))
      | _ => blame .operand) e n ts := by
  cases ts with
  | nil => rfl
  | cons t ts =>
    obtain ⟨k, g, a, b⟩ := t
    cases k with
    | openParen =>
      exact bind_congr fun us => andThen_of (ofBinary lowest) fun v us => expect_bind _ _ (result v) _ n _
    | _ => rfl

theorem unary_eq : unary e (n + 1) ts = (look fun s =>
      if s.token = some .minus then take (andThen unary fun v => result (.neg v)) else primary) e n ts := by
  rw [look_run, ite_run]
  rfl

theorem binary_eq (p : Nat) : binary e (n + 1) p ts = (andThen unary fun lhs => ofClimb p lhs) e n ts := rfl

/-- The right operand of an operator. -/
def rightOperand : Infix → Reader Value
  | .operator o => ofBinary (o.precedence + 1)
  | .signed o v => ofClimb (o.precedence + 1) v

theorem climb_eq (p : Nat) (lhs : Value) : climb e (n + 1) p lhs ts = (look fun s => match s.infix? with
      | none => result lhs
      | some x =>
        if x.op.precedence < p then result lhs
        else take (andThen (rightOperand x) fun rhs => ofClimb p (.binary x.op lhs rhs))) e n ts := by
  unfold climb
  rw [look_run]
  cases (e.front ts).infix? with
  | none => rfl
  | some x =>
    dsimp only
    rw [ite_run]
    cases x <;> rfl

theorem ofKey_eq : ofKey = look fun s => match s.token.bind Token.key? with
      | some k => take (result k)
      | none => blame .key := by
  refine ext fun e n ts => ?_
  rw [look_run]
  unfold ofKey key Ending.peek
  cases (e.front ts).token.bind Token.key? <;> rfl

theorem item_eq : item e (n + 1) ts = (look fun s => match s.token with
      | some (.str s) => take (result (.str s))
      | some (.bool b) => take (result (.bool b))
      | some .openBrace => dictionary
      | some .openParen => group
      | some .openBracket => blame .item
      | _ => ofBinary lowest) e n ts := by
  rw [look_run]
  unfold item Ending.peek
  cases (e.front ts).token with
  | none => rfl
  | some t => cases t <;> rfl

theorem moreItems_eq : moreItems e (n + 1) ts = (look fun s =>
      if s.token = some .comma then take (andThen item fun v => andThen moreItems fun vs => result (v :: vs))
      else result []) e n ts := by
  rw [look_run, ite_run]
  rfl

/-- What follows the first item of a group. -/
def afterFirst (first : Value) : Reader Value := look fun s =>
  if s.token = some .comma then
    andThen moreItems fun items => expecting .closeParen .tupleEnd (result (.tuple (first :: items)))
  else if first.isArithmetic then expecting .closeParen .closingParen (ofClimb lowest first)
  else blame .secondItem

theorem group_eq : group e (n + 1) ts = take (andThen item afterFirst) e n ts := by
  refine bind_congr fun us => andThen_of item fun first us => ?_
  unfold afterFirst
  simp only [look_run, ite_run, ← expect_bind]
  refine ite_congr rfl (fun _ => ?_) fun _ => rfl
  exact andThen_of moreItems fun items us => expect_bind _ _ (result (Value.tuple (first :: items))) _ n _

theorem dictionary_eq : dictionary e (n + 1) ts = take (look fun s =>
      if s.token = some .closeBrace then take (result (.dict [])) else ofEntries []) e n ts := by
  refine bind_congr fun us => ?_
  rw [look_run, ite_run]
  rfl

theorem entries_eq (d : Dict) : entries e (n + 1) d ts =
    (andThen ofKey fun k => expecting .colon .keyColon <| andThen item fun v => look fun s =>
      if s.token = some .comma then take (ofEntries (Entries.put k v d))
      else expecting .closeBrace .dictEnd (result (.dict (Entries.put k v d)))) e n ts := by
  refine andThen_of ofKey fun k us => ?_
  rw [← expect_bind]
  refine bind_congr fun us => andThen_of item fun v us => ?_
  simp only [look_run, ite_run, ← expect_bind]
  rfl

theorem list_eq : list e (n + 1) ts = take (look fun s =>
      if s.token = some .closeBracket then take (result (.list []))
      else andThen item fun first => andThen moreItems fun items =>
        expecting .closeBracket .listEnd (result (.list (first :: items)))) e n ts := by
  refine bind_congr fun us => ?_
  rw [look_run, ite_run]
  show (if e.peek us = some .closeBracket then _ else _) = _
  refine ite_congr rfl (fun _ => rfl) fun _ => ?_
  exact andThen_of item fun first us => andThen_of moreItems fun items us =>
    expect_bind _ _ (result (Value.list (first :: items))) _ n _

theorem rightSide_eq : rightSide e (n + 1) ts = (look fun s =>
      if s.token = some .openBracket then list
      else andThen item fun first => look fun s =>
        if s.token = some .comma then andThen moreItems fun items => result (.list (first :: items))
        else result first) e n ts := by
  simp only [look_run, ite_run]
  show (if e.peek ts = some .openBracket then _ else _) = _
  refine ite_congr rfl (fun _ => rfl) fun _ => andThen_of item fun first us => ?_
  rw [look_run, ite_run]
  rfl

theorem statements_eq (nested : Bool) (b : Block) :
    statements e nested (n + 1) b ts = (look fun s => match s.token with
      | some (.comment _) => take (ofStatements nested b)
      | some (.name x) => andThen assignment fun v => match b.add x v with
        | .ok b => ofStatements nested b
        | .error f => fail (f.withHint s!"Second assignment of \"{x}\" on line {s.pos.line}")
      | none => if nested then blame .nestedStatement else result b
      | some t =>
        if nested then if t = .closeBrace then result b else blame .nestedStatement
        else blame .statement) e n ts := by
  rw [look_run]
  unfold statements Ending.peek
  cases (e.front ts).token with
  | none =>
    simp only [ite_run]
    rfl
  | some t =>
    cases t with
    | comment => rfl
    | name x =>
      refine andThen_of assignment fun v us => ?_
      dsimp only
      cases b.add x v <;> rfl
    | _ =>
      simp only [ite_run]
      rfl

theorem assignment_eq : assignment e (n + 1) ts = take (look fun s =>
      if s.token = some .equals then take rightSide
      else if s.token = some .openBrace then
        take <| andThen (ofStatements true []) fun b => expecting .closeBrace .blockEnd (result (.block b))
      else blame .assignment) e n ts := by
  refine bind_congr fun us => ?_
  simp only [look_run, ite_run]
  show (if e.peek us = some .equals then _ else if e.peek us = some .openBrace then _ else _) = _
  refine ite_congr rfl (fun _ => rfl) fun _ => ite_congr rfl (fun _ => ?_) fun _ => rfl
  exact bind_congr fun us => andThen_of (ofStatements true []) fun b us =>
    expect_bind _ _ (result (Value.block b)) _ n _

end Reader

end CaseSetup
