import CaseSetup.Proofs.Writing.Items

/-! # Reading a written configuration

A written configuration is read back as the same tree, except that a minus sign in front of a number
without sign becomes part of the number, and that an infinite dictionary key is not read at all. -/

namespace CaseSetup

open Grammar Value

theorem reads_list {items : List Value} (hin : AllInline items) {t : String}
    (h : (Value.list items).writtenRight = .ok t) :
    ∃ ws, Lexes Breaks t.toList ws ∧ FiniteWords ws ∧
      (ItemsFiniteKeys items → RightSide ws (.list (glueItems items))) := by
  have hv : ∀ v ∈ items, v.ReadsBack := fun v _ => v.readsBack
  rw [writtenRight] at h
  split at h
  · rename_i hbare
    rcases items with _ | ⟨v, _ | ⟨u, vs⟩⟩
    · cases hbare
    · cases hbare
    obtain ⟨ts, hts, rfl⟩ := Outcome.map_eq_ok.1 h
    obtain ⟨ws, rs, hl, hf, hitems⟩ := reads_items hv hin hts
    refine ⟨_, hl, hf, fun hk => ?_⟩
    obtain ⟨hi, hm⟩ := hitems hk
    rw [glueItems]
    exact .bare hi hm (by simp [glueItems])
  · simp only [written, Outcome.bind_eq_ok, Outcome.pure_eq_ok] at h
    obtain ⟨ts, hts, rfl⟩ := h
    have htext : ("[" ++ commas ts ++ "]").toList = '[' :: ((commas ts).toList ++ [']']) := by simp
    rw [htext]
    cases items with
    | nil =>
      obtain rfl : [] = ts := Except.ok.inj hts
      have hl := Lexes.nil.enclosed (a := '[') (b := ']') (by decide) rfl (by decide) rfl (by decide)
      refine ⟨_, hl.anywhere, by simp [FiniteWords], fun _ => ?_⟩
      exact .emptyList none none
    | cons v vs =>
      obtain ⟨ws, rs, hl, hf, hitems⟩ := reads_items hv hin hts
      have hl := hl.enclosed (a := '[') (b := ']') (by decide) rfl (by decide) rfl (by decide)
      refine ⟨_, hl.anywhere, finiteWords_enclosed hf (by simp) (by simp), fun hk => ?_⟩
      obtain ⟨hi, hm⟩ := hitems hk
      rw [glueItems]
      exact .list hi hm

/-- What is written after `name =`. -/
theorem reads_right {v : Value} (hv : v.Regular) (hb : ∀ c, v ≠ .block c) {t : String} (h : v.writtenRight = .ok t) :
    ∃ ws, Lexes Breaks t.toList ws ∧ FiniteWords ws ∧ (v.FiniteKeys → RightSide ws v.glue) := by
  have hother : v.Inline → v.written = .ok t →
      ∃ ws, Lexes Breaks t.toList ws ∧ FiniteWords ws ∧ (v.FiniteKeys → RightSide ws v.glue) := by
    intro hin ht
    obtain ⟨ws, hr⟩ := v.readsBack hin t ht
    exact ⟨ws, hr.lexes, hr.finite, fun hk => .item (hr.item hk)⟩
  cases v with
  | block c => exact absurd rfl (hb c)
  | list items =>
    rw [Value.glue]
    exact reads_list hv h
  | _ => exact hother hv h

/-- A piece of text that binds a name. -/
def Value.Binds (v : Value) : Prop :=
  v.Regular → ∀ depth name t, IsName name → writtenBinding depth name v = .ok t →
    ∃ ws, Lexes Anything t.toList (⟨.name name, none⟩ :: ws) ∧ FiniteWords ws ∧
      (v.FiniteKeys → Grammar.Binding ws v.glue)

theorem toList_tabs (n : Nat) : (tabs n).toList = List.replicate n '\t' := by
  rw [tabs, String.toList_ofList]

theorem lexes_tabs (n : Nat) : Lexes Anything (tabs n).toList [] := by
  rw [toList_tabs]
  refine Lexes.blanks fun c hc => ?_
  rw [List.eq_of_mem_replicate hc]
  decide

/-- The name of a binding, at its depth and with a blank after it. -/
theorem lexes_name {name : String} (h : IsName name) (depth : Nat) :
    Lexes Anything ((tabs depth).toList ++ (name.toList ++ [' '])) [⟨.name name, none⟩] := by
  have hblank : Lexes Anything [' '] [] := Lexes.gap (by decide)
  exact (lexes_tabs depth).then_ ((Lexes.name h).append hblank fun _ _ => breaks_cons (by decide) _)

/-- The line that gives a name its value. -/
theorem lexes_assignment {name t : String} {ws : Words} (hname : IsName name) (depth : Nat)
    (h : Lexes Breaks t.toList ws) : Lexes Anything (tabs depth ++ name ++ " = " ++ t ++ "\n").toList
      (⟨.name name, none⟩ :: ⟨.equals, none⟩ :: ws) := by
  have htext : (tabs depth ++ name ++ " = " ++ t ++ "\n").toList =
      ((tabs depth).toList ++ (name.toList ++ [' '])) ++ (['=', ' '] ++ (t.toList ++ ['\n'])) := by simp
  have hequals : Lexes Anything ['=', ' '] [⟨.equals, none⟩] := Lexes.symbol_gap (by decide) rfl (by decide)
  have hline : Lexes Anything (t.toList ++ ['\n']) (ws ++ []) := by
    have hnewline : Lexes Anything ['\n'] [] := Lexes.gap (by decide)
    exact h.append hnewline fun _ _ => breaks_cons (by decide) _
  rw [List.append_nil] at hline
  rw [htext]
  exact (lexes_name hname depth).then_ (hequals.then_ hline)

/-- The lines of a nested block. -/
theorem lexes_nested {name t : String} {ws : Words} (hname : IsName name) (depth : Nat)
    (h : Lexes Anything t.toList ws) :
    Lexes Anything (tabs depth ++ name ++ " \x7b\n" ++ t ++ tabs depth ++ "\x7d\n").toList
      (⟨.name name, none⟩ :: ⟨.openBrace, none⟩ :: (ws ++ [⟨.closeBrace, none⟩])) := by
  have htext : (tabs depth ++ name ++ " \x7b\n" ++ t ++ tabs depth ++ "\x7d\n").toList =
      ((tabs depth).toList ++ (name.toList ++ [' '])) ++ (['\x7b', '\n'] ++ (t.toList ++
        ((tabs depth).toList ++ ['\x7d', '\n']))) := by simp
  have hopen : Lexes Anything ['\x7b', '\n'] [⟨.openBrace, none⟩] := Lexes.symbol_gap (by decide) rfl (by decide)
  have hclose : Lexes Anything ['\x7d', '\n'] [⟨.closeBrace, none⟩] := Lexes.symbol_gap (by decide) rfl (by decide)
  rw [htext]
  exact (lexes_name hname depth).then_ (hopen.then_ (h.then_ ((lexes_tabs depth).then_ hclose)))

theorem writtenBinding_of_not_block {v : Value} (h : ∀ c, v ≠ .block c) (depth : Nat) (name : String) :
    writtenBinding depth name v = do return tabs depth ++ name ++ " = " ++ (← v.writtenRight) ++ "\n" := by
  cases v with
  | block c => exact absurd rfl (h c)
  | _ => rfl

theorem binds_right {v : Value} (hb : ∀ c, v ≠ .block c) : v.Binds := by
  intro hv depth name t hname h
  rw [writtenBinding_of_not_block hb] at h
  simp only [Outcome.bind_eq_ok, Outcome.pure_eq_ok] at h
  obtain ⟨t, ht, rfl⟩ := h
  obtain ⟨ws, hl, hf, hright⟩ := reads_right hv hb ht
  refine ⟨⟨.equals, none⟩ :: ws, lexes_assignment hname depth hl, ?_, fun hk => .assign (hright hk)⟩
  exact finiteWords_cons.2 ⟨by simp, hf⟩

@[simp] theorem keys_glueBlock (b : List (String × Value)) : Entries.keys (glueBlock b) = Entries.keys b := by
  induction b with
  | nil => rfl
  | cons e b ih => simp [glueBlock, ih]

theorem reads_block {b : List (String × Value)} (hv : ∀ e ∈ b, e.2.Binds) (hb : BlockRegular b)
    (hd : (Entries.keys b).Nodup) (depth : Nat) {t : String} (h : writtenBlock depth b = .ok t) :
    ∃ ws, Lexes Anything t.toList ws ∧ FiniteWords ws ∧ (BlockFiniteKeys b → Statements ws (glueBlock b)) := by
  induction b generalizing t with
  | nil =>
    obtain rfl : "" = t := Except.ok.inj h
    exact ⟨[], Lexes.nil, by simp [FiniteWords], fun _ => .nil⟩
  | cons e b ih =>
    obtain ⟨name, v⟩ := e
    obtain ⟨hname, hr, hb⟩ := hb
    obtain ⟨hnot, hd⟩ := List.nodup_cons.1 hd
    simp only [writtenBlock, Outcome.bind_eq_ok, Outcome.pure_eq_ok] at h
    obtain ⟨t, ht, ts, hts, rfl⟩ := h
    obtain ⟨ws, hl, hf, hbind⟩ := hv _ List.mem_cons_self hr depth name t hname ht
    obtain ⟨rs, hls, hfs, hstatements⟩ := ih (fun f hf => hv f (List.mem_cons_of_mem _ hf)) hb hd hts
    refine ⟨⟨.name name, none⟩ :: ws ++ rs, ?_, ?_, fun hk => ?_⟩
    · rw [String.toList_append]
      exact hl.then_ hls
    · exact finiteWords_append.2 ⟨finiteWords_cons.2 ⟨by simp, hf⟩, hfs⟩
    · have hnot : name ∉ Entries.keys (glueBlock b) := by
        rw [keys_glueBlock]
        exact hnot
      exact (hstatements hk.2).bind hnot (hbind hk.1)

theorem binds_block {b : List (String × Value)} (hv : ∀ e ∈ b, e.2.Binds) : (Value.block b).Binds := by
  rintro ⟨hd, hb⟩ depth name t hname h
  simp only [writtenBinding, Outcome.bind_eq_ok, Outcome.pure_eq_ok] at h
  obtain ⟨t, ht, rfl⟩ := h
  obtain ⟨ws, hl, hf, hstatements⟩ := reads_block hv hb hd (depth + 1) ht
  refine ⟨⟨.openBrace, none⟩ :: (ws ++ [⟨.closeBrace, none⟩]), lexes_nested hname depth hl, ?_, fun hk => ?_⟩
  · exact finiteWords_enclosed hf (by simp) (by simp)
  · rw [Value.glue]
    exact .nested (hstatements hk)

theorem Value.binds (v : Value) : v.Binds := by
  induction v using Value.induction with
  | block b ih => exact binds_block ih
  | _ => exact binds_right (by simp)

namespace Block

variable {b c : Block} {t text : String}

theorem reads_written (hb : b.Regular) (h : b.written = .ok t) :
    (∃ p, (Scan.ofText t).ending = .clean p) ∧ FiniteWords (Scan.ofText t).words ∧
      (b.FiniteKeys → Document (Scan.ofText t).words b.glue) := by
  obtain ⟨ws, hl, hf, hdoc⟩ := reads_block (fun e _ => e.2.binds) hb.2 hb.1 0 h
  obtain ⟨hwords, hend⟩ := hl.scan trivial
  rw [hwords]
  exact ⟨hend, hf, hdoc⟩

/-- A regular block with finite keys is read back with its minus signs glued. -/
theorem parse_written (hb : b.Regular) (hk : b.FiniteKeys) (h : b.written = .ok t) : Block.parse t = .ok b.glue := by
  obtain ⟨⟨p, hp⟩, -, hdoc⟩ := reads_written hb h
  exact parse_of_document hp (hdoc hk)

/-- Keys that are read back are finite. -/
theorem finiteKeys_of_parse_written (hb : b.Regular) (h : b.written = .ok t) (hc : Block.parse t = .ok c) :
    c.FiniteKeys :=
  (document_of_parse hc).2.finiteKeys (reads_written hb h).2.1

/-- A text that is one assignment. -/
theorem parse_assignment {s : String} {ws : Words} {v : Value} {p : Position}
    (hwords : (Scan.ofText text).words = ⟨.name s, none⟩ :: ⟨.equals, none⟩ :: ws)
    (hp : (Scan.ofText text).ending = .clean p) (h : RightSide ws v) : Block.parse text = .ok [(s, v)] := by
  refine parse_of_document hp ?_
  rw [hwords]
  simpa using Statements.assign List.not_mem_nil h .nil

/-- What is written for a parsed block reads back as the same tree exactly if its float keys are
finite and no number without sign is negated in it. -/
theorem parse_serialize_eq_iff (hp : Block.parse text = .ok b) (hs : b.serialize false = .ok t) :
    Block.parse t = .ok b ↔ b.FiniteKeys ∧ ¬ b.Negates Value.isUnsigned := by
  have hb := regular_of_parse hp
  constructor
  · intro h
    have hk := finiteKeys_of_parse_written hb hs h
    have hglue : b.glue = b := Except.ok.inj ((parse_written hb hk hs).symm.trans h)
    exact ⟨hk, (glueBlock_eq_self_iff b).1 hglue⟩
  · rintro ⟨hk, hn⟩
    have hglue : b.glue = b := (glueBlock_eq_self_iff b).2 hn
    rw [parse_written hb hk hs, hglue]

/-- The negation of `1` is read back as the number `-1`, that of a reference as it was. -/
theorem parse_serialize_eq_iff_signs :
    (Block.parse "x = - 1" = .ok [("x", .neg (.int 1))] ∧
      Block.serialize [("x", .neg (.int 1))] false = .ok "x = -1\n" ∧
      Block.parse "x = -1\n" ≠ .ok [("x", .neg (.int 1))]) ∧
    Block.parse "x = - a" = .ok [("x", .neg (.var "a"))] ∧
      Block.serialize [("x", .neg (.var "a"))] false = .ok "x = -a\n" ∧
      Block.parse "x = -a\n" = .ok [("x", .neg (.var "a"))] := by
  have hp : Block.parse "x = - 1" = .ok [("x", .neg (.int 1))] :=
    parse_assignment (p := ⟨1, 7⟩) (by decide +kernel) (by decide +kernel)
      (.item (.expression (.operand (.neg (g := none) (.int 1 none)))))
  have hs : Block.serialize [("x", .neg (.int 1))] false = .ok "x = -1\n" := by cbv
  have hp' : Block.parse "x = - a" = .ok [("x", .neg (.var "a"))] :=
    parse_assignment (p := ⟨1, 7⟩) (by decide +kernel) (by decide +kernel)
      (.item (.expression (.operand (.neg (g := none) (.name "a" none)))))
  have hs' : Block.serialize [("x", .neg (.var "a"))] false = .ok "x = -a\n" := by cbv
  refine ⟨⟨hp, hs, fun h => ?_⟩, hp', hs', (parse_serialize_eq_iff hp' hs').2 ?_⟩
  · refine ((parse_serialize_eq_iff hp hs).1 h).2 ?_
    simp [Block.Negates, BlockNegates, Value.Negates, Value.isUnsigned]
  · simp [Block.FiniteKeys, BlockFiniteKeys, Value.FiniteKeys, Block.Negates, BlockNegates, Value.Negates,
      Value.isUnsigned]

end Block

end CaseSetup
