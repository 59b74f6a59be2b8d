import CaseSetup.Proofs.Token.Reading
import CaseSetup.Proofs.Token.Tiles

/-! # Tokens on lines of their own

Tokens that are written as a configuration writes them, each on a line of its own, are read one for
one exactly if every one of them holds what the text of such a token can. -/

namespace CaseSetup

namespace Token

/-- The token as a written configuration shows it. -/
def written : Token → String
  | bool b => Literal.bool b
  | str s => "\"" ++ s ++ "\""
  | t => t.text

/-- The tokens, with a newline after each. -/
def lines (ts : List Token) : String := String.join (ts.map fun t => t.written ++ "\n")

/-- Names are words that spell `true` and `false` in no letter case, strings hold no quote, comments
start with two slashes and hold no newline, and floats are finite. -/
def Writable : Token → Prop
  | name s => ∃ c cs, s.toList = c :: cs ∧ Lexeme.isWordStart c ∧ (∀ d ∈ cs, Lexeme.isWordChar d) ∧
      ∀ b : Bool, s.toList.map Char.toLower ≠ (toString b).toList
  | str s => '"' ∉ s.toList
  | comment s => ['/', '/'] <+: s.toList ∧ '\n' ∉ s.toList
  | float x => x.isFinite
  | _ => True

theorem toList_lines_cons (t : Token) (ts : List Token) :
    (lines (t :: ts)).toList = t.written.toList ++ '\n' :: (lines ts).toList := by
  simp [lines]

theorem writable_name_iff {s : String} : (name s).Writable ↔ IsName s := by
  constructor
  · rintro ⟨c, cs, hs, hc, hcs, hne⟩
    refine ⟨c, cs, hs, hc, hcs, ?_⟩
    rcases Lexeme.wordToken_cases (c :: cs) with ⟨b, hb⟩ | h
    · exact absurd (hs ▸ Lexeme.map_toLower_of_wordToken hb) (hne b)
    · rw [h, ← hs, String.ofList_toList]
  · rintro ⟨c, cs, hs, hc, hcs, ht⟩
    refine ⟨c, cs, hs, hc, hcs, fun b hb => ?_⟩
    rw [hs] at hb
    have hbool : Lexeme.wordToken (c :: cs) = .bool b := by
      rw [Lexeme.wordToken, hb]
      cases b <;> rfl
    rw [hbool] at ht
    cases ht

/-- What has a spelling can be written, unless it is a float that is not finite. -/
theorem SpelledBy.writable {t : Token} {g : Option Sign} {cs : List Char} (h : t.SpelledBy g cs)
    (hf : ∀ x, t = .float x → x.isFinite) : t.Writable := by
  cases t with
  | name s => exact writable_name_iff.2 h.2.2
  | str s => exact h.2.2
  | comment s =>
    obtain ⟨-, rfl, hslashes, hline⟩ := h
    exact ⟨hslashes, hline⟩
  | float x => exact hf x rfl
  | _ => trivial

end Token

/-- The end of a line. -/
def EndsLine (cs : List Char) : Prop := ∃ rest, cs = '\n' :: rest

theorem EndsLine.breaks {cs : List Char} (h : EndsLine cs) : Breaks cs := by
  obtain ⟨rest, rfl⟩ := h
  exact breaks_cons (by decide) rest

namespace Lexes

variable {f : List Char → Prop} {cs rest : List Char} {ws : Words} {t : Token} {ts : List Token}

/-- A symbol at the end of a line. -/
theorem symbol_line {c : Char} (h : Lexeme.symbol? c = some t) : Lexes EndsLine [c] [⟨t, none⟩] := by
  unfold Lexeme.symbol? at h
  split at h <;> cases h <;> refine lexeme ?_ <;> rintro _ ⟨rest, rfl⟩ <;> exact ⟨_, _, rfl, rfl, _, rfl⟩

/-- A comment goes up to the end of its line. -/
theorem comment {s : String} (hs : ['/', '/'] <+: s.toList) (hn : '\n' ∉ s.toList) :
    Lexes EndsLine s.toList [⟨.comment s, none⟩] := by
  refine lexeme ?_
  rintro _ ⟨rest, rfl⟩
  obtain ⟨cs, hcs⟩ := hs
  have hline : ∀ c ∈ s.toList, decide (c ≠ '\n') = true := by
    intro c hc
    refine decide_eq_true ?_
    rintro rfl
    exact hn hc
  have hstop : ∀ c ∈ ('\n' :: rest).head?, decide (c ≠ '\n') = false := by
    rintro c hc
    obtain rfl : '\n' = c := Option.some.inj hc
    rfl
  have htext : s.toList ++ '\n' :: rest = '/' :: '/' :: (cs ++ '\n' :: rest) := by
    rw [← hcs]
    rfl
  refine ⟨'/', '/' :: (cs ++ '\n' :: rest), htext, by decide, s.toList, ?_⟩
  rw [Lexeme.scan, if_pos ⟨rfl, rfl⟩, ← htext]
  simp only [takeWhile_append_stop hline hstop, dropWhile_append_stop hline hstop, String.ofList_toList]

/-- A token that can be written, at the end of its line. -/
theorem token (h : t.Writable) : ∃ g, Lexes EndsLine t.written.toList [⟨t, g⟩] := by
  cases t with
  | bool b => exact ⟨none, (bool b).weaken fun _ => EndsLine.breaks⟩
  | name s => exact ⟨none, (name (Token.writable_name_iff.1 h)).weaken fun _ => EndsLine.breaks⟩
  | str s =>
    have htext : (Token.str s).written.toList = '"' :: (s.toList ++ ['"']) := by simp [Token.written]
    rw [htext]
    exact ⟨none, (str h).weaken fun _ _ => trivial⟩
  | int n => exact ⟨_, (int n).weaken fun _ => EndsLine.breaks⟩
  | float x => exact ⟨_, (float h).weaken fun _ => EndsLine.breaks⟩
  | comment s => exact ⟨none, comment h.1 h.2⟩
  | equals => exact ⟨none, symbol_line (c := '=') rfl⟩
  | minus => exact ⟨none, symbol_line (c := '-') rfl⟩
  | plus => exact ⟨none, symbol_line (c := '+') rfl⟩
  | star => exact ⟨none, symbol_line (c := '*') rfl⟩
  | slash => exact ⟨none, symbol_line (c := '/') rfl⟩
  | caret => exact ⟨none, symbol_line (c := '^') rfl⟩
  | comma => exact ⟨none, symbol_line (c := ',') rfl⟩
  | colon => exact ⟨none, symbol_line (c := ':') rfl⟩
  | openParen => exact ⟨none, symbol_line (c := '(') rfl⟩
  | closeParen => exact ⟨none, symbol_line (c := ')') rfl⟩
  | openBracket => exact ⟨none, symbol_line (c := '[') rfl⟩
  | closeBracket => exact ⟨none, symbol_line (c := ']') rfl⟩
  | openBrace => exact ⟨none, symbol_line (c := '\x7b') rfl⟩
  | closeBrace => exact ⟨none, symbol_line (c := '\x7d') rfl⟩

/-- Tokens that can be written are read one for one. -/
theorem lines (h : ∀ t ∈ ts, t.Writable) :
    ∃ ws : Words, ws.map (·.token) = ts ∧ Lexes Anything (Token.lines ts).toList ws := by
  induction ts with
  | nil => exact ⟨[], rfl, nil⟩
  | cons t ts ih =>
    obtain ⟨ht, hts⟩ := List.forall_mem_cons.1 h
    obtain ⟨g, hl⟩ := token ht
    obtain ⟨ws, hws, hls⟩ := ih hts
    have hgap : Lexes Anything ['\n'] [] := gap (by decide)
    refine ⟨⟨t, g⟩ :: ws, by rw [List.map_cons, hws], ?_⟩
    rw [Token.toList_lines_cons]
    exact hl.append (hgap.then_ hls) fun rest _ => ⟨_, rfl⟩

/-- The tokens of a text that starts with a piece are those of the piece, and then others. -/
theorem exists_tokens (h : Lexes f cs ws) (hf : f rest) (p : Position) :
    ∃ q, (Scan.ofChars p (cs ++ rest)).tokens.map (·.token) =
      ws.map (·.token) ++ (Scan.ofChars q rest).tokens.map (·.token) := by
  obtain ⟨us, q, rfl, hscan⟩ := h p rest hf
  exact ⟨q, by simp [hscan, Scan.prepend, Located.word]⟩

end Lexes

namespace Scan

/-- Every token of a text has a spelling. -/
theorem spelled_of_mem {before cs : List Char} {ts : List Located} {e : Ending} (h : Tiles before cs ts e) :
    ∀ t ∈ ts, ∃ slice, t.token.SpelledBy t.sign slice := by
  induction h with
  | finish | malformed => simp
  | token _ _ spelled _ _ _ ih => exact List.forall_mem_cons.2 ⟨⟨_, spelled⟩, ih⟩

/-- Tokens that are read one for one, and that have a spelling, can be written. -/
theorem writable_of_reads {ts : List Token} {p : Position} (hs : ∀ t ∈ ts, ∃ g cs, t.SpelledBy g cs)
    (h : (ofChars p (Token.lines ts).toList).tokens.map (·.token) = ts) : ∀ t ∈ ts, t.Writable := by
  induction ts generalizing p with
  | nil => simp
  | cons t ts ih =>
    obtain ⟨⟨g, cs, hspelled⟩, hs⟩ := List.forall_mem_cons.1 hs
    rw [Token.toList_lines_cons] at h
    have ht : t.Writable := by
      refine hspelled.writable ?_
      rintro x rfl
      by_contra hx
      -- an infinity is written as a word, so a token that is no literal is read in its place
      obtain ⟨ws, hl, hne, hkey⟩ := Lexes.not_finite (Bool.eq_false_iff.2 hx)
      obtain ⟨w, ws, rfl⟩ := List.exists_cons_of_ne_nil hne
      obtain ⟨q, hq⟩ := hl.exists_tokens (EndsLine.breaks ⟨(Token.lines ts).toList, rfl⟩) p
      have hhead : w.token = .float x := (List.cons.inj (hq.symm.trans h)).1
      have hw := hkey w List.mem_cons_self
      rw [hhead] at hw
      cases hw
    obtain ⟨g, hl⟩ := Lexes.token ht
    have hgap : Lexes Anything ['\n'] [] := Lexes.gap (by decide)
    obtain ⟨q, hq⟩ := hl.exists_tokens ⟨(Token.lines ts).toList, rfl⟩ p
    have hanything : Anything (Token.lines ts).toList := trivial
    obtain ⟨r, hr⟩ := hgap.exists_tokens hanything q
    refine List.forall_mem_cons.2 ⟨ht, ih hs (hr.symm.trans ?_)⟩
    exact (List.cons.inj (hq.symm.trans h)).2

theorem tokens?_eq_ok {s : Scan} {ts : List Token} :
    s.tokens? = .ok ts ↔ (∃ p, s.ending = .clean p) ∧ s.tokens.map (·.token) = ts := by
  unfold tokens?
  split <;> simp [*]

/-- Tokens that are written on lines of their own are read one for one exactly if all of them can be written. -/
theorem reads_lines_iff (ts : List Token) : (ofText (Token.lines ts)).tokens? = .ok ts ↔ ∀ t ∈ ts, t.Writable := by
  rw [tokens?_eq_ok]
  constructor
  · rintro ⟨-, h⟩
    refine writable_of_reads (fun t ht => ?_) h
    rw [← h] at ht
    obtain ⟨u, hu, rfl⟩ := List.mem_map.1 ht
    exact ⟨_, spelled_of_mem (tiles _) u hu⟩
  · intro h
    obtain ⟨ws, hws, hl⟩ := Lexes.lines h
    obtain ⟨hwords, hend⟩ := hl.scan trivial
    refine ⟨hend, ?_⟩
    calc (ofText (Token.lines ts)).tokens.map (·.token)
      _ = (ofText (Token.lines ts)).words.map (·.token) := by simp [words, Located.word]
      _ = ts := by rw [hwords, hws]

end Scan

end CaseSetup
