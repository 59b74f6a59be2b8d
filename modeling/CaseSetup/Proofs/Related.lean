import CaseSetup.Proofs.Entries
import Mathlib.Data.List.Forall2
import Mathlib.Data.List.Perm.Subperm

/-! # Entries with related values

Two lists of entries are related if they have the same keys in the same order and the values of
each key are related; they are shuffled if the order of the keys does not count. Either way, looking
a key up in one finds what is related to its value in the other. -/

namespace CaseSetup

variable {α β : Type} {R S : α → β → Prop} {as : List α} {bs : List β}

theorem forall₂_imp_of_mem (h : List.Forall₂ R as bs) (hRS : ∀ a b, a ∈ as → R a b → S a b) : List.Forall₂ S as bs :=
  ((List.forall₂_and_left as bs).2 ⟨fun _ ha => ha, h⟩).imp fun a b ⟨ha, hR⟩ => hRS a b ha hR

theorem forall₂_unique {cs : List β} (h : ∀ a ∈ as, ∀ {b c}, R a b → R a c → b = c) (hb : List.Forall₂ R as bs)
    (hc : List.Forall₂ R as cs) : bs = cs := by
  induction hb generalizing cs with
  | nil =>
    cases hc
    rfl
  | cons hab _ ih =>
    obtain ⟨ha, has⟩ := List.forall_mem_cons.1 h
    cases hc with
    | cons hac hc => rw [ha hab hac, ih has hc]

theorem forall₂_trans {γ : Type} {S : β → γ → Prop} {T : α → γ → Prop} {cs : List γ} (h : List.Forall₂ R as bs)
    (h' : List.Forall₂ S bs cs) (hT : ∀ a ∈ as, ∀ b c, R a b → S b c → T a c) : List.Forall₂ T as cs := by
  induction h generalizing cs with
  | nil =>
    cases h'
    exact .nil
  | cons hab _ ih =>
    obtain ⟨ha, has⟩ := List.forall_mem_cons.1 hT
    cases h' with
    | cons hbc h' => exact .cons (ha _ _ hab hbc) (ih h' has)

/-- A member of the second list is related to one of the first. -/
theorem exists_of_mem_right (h : List.Forall₂ R as bs) {b : β} (hb : b ∈ bs) : ∃ a ∈ as, R a b := by
  induction h with
  | nil => cases hb
  | @cons a b' as bs hR _ ih =>
    rcases List.mem_cons.1 hb with rfl | hb
    · exact ⟨a, List.mem_cons_self, hR⟩
    · obtain ⟨a', ha, hR⟩ := ih hb
      exact ⟨a', List.mem_cons_of_mem _ ha, hR⟩

end CaseSetup

namespace CaseSetup.Entries

variable {κ α β : Type} {R S : κ → α → β → Prop} {es : List (κ × α)} {fs : List (κ × β)}

/-- The same keys in the same order, with related values. -/
def Related (R : κ → α → β → Prop) (es : List (κ × α)) (fs : List (κ × β)) : Prop :=
  List.Forall₂ (fun e f => e.1 = f.1 ∧ R e.1 e.2 f.2) es fs

namespace Related

theorem nil : Related R [] [] := List.Forall₂.nil

theorem cons {k : κ} {a : α} {b : β} (h : R k a b) (hs : Related R es fs) :
    Related R ((k, a) :: es) ((k, b) :: fs) :=
  List.Forall₂.cons ⟨rfl, h⟩ hs

theorem imp (h : Related R es fs) (hRS : ∀ k a b, (k, a) ∈ es → R k a b → S k a b) : Related S es fs :=
  forall₂_imp_of_mem h fun _ _ he ⟨hk, hR⟩ => ⟨hk, hRS _ _ _ he hR⟩

theorem keys_eq (h : Related R es fs) : keys fs = keys es := by
  induction h with
  | nil => rfl
  | cons hef _ ih => rw [keys_cons, keys_cons, hef.1, ih]

theorem of_keys_eq (hkeys : keys fs = keys es) (h : ∀ k a b, (k, a) ∈ es → (k, b) ∈ fs → R k a b) :
    Related R es fs := by
  induction es generalizing fs with
  | nil =>
    obtain rfl : fs = [] := List.map_eq_nil_iff.1 hkeys
    exact .nil
  | cons e es ih =>
    obtain ⟨⟨k, b⟩, fs, rfl, hk, hes⟩ := List.map_eq_cons_iff.1 hkeys
    obtain rfl : k = e.1 := hk
    refine .cons (h _ _ _ List.mem_cons_self List.mem_cons_self) (ih hes fun k a b ha hb => ?_)
    exact h k a b (List.mem_cons_of_mem _ ha) (List.mem_cons_of_mem _ hb)

theorem exists_right (h : Related R es fs) {k : κ} {a : α} (ha : (k, a) ∈ es) : ∃ b, (k, b) ∈ fs ∧ R k a b := by
  obtain ⟨⟨k', b⟩, hb, hk, hR⟩ := exists_of_mem_right h.flip ha
  obtain rfl : k = k' := hk
  exact ⟨b, hb, hR⟩

theorem exists_left (h : Related R es fs) {k : κ} {b : β} (hb : (k, b) ∈ fs) : ∃ a, (k, a) ∈ es ∧ R k a b := by
  obtain ⟨⟨k', a⟩, ha, hk, hR⟩ := exists_of_mem_right h hb
  obtain rfl : k' = k := hk
  exact ⟨a, ha, hR⟩

theorem lookup [DecidableEq κ] (h : Related R es fs) {k : κ} {a : α} (ha : es.lookup k = some a) :
    ∃ b, fs.lookup k = some b ∧ R k a b := by
  induction h with
  | nil => cases ha
  | @cons e f _ _ hef _ ih =>
    obtain ⟨k', a'⟩ := e
    obtain ⟨k'', b'⟩ := f
    obtain ⟨rfl, hR⟩ := hef
    rw [lookup_cons] at ha ⊢
    split at ha
    · rename_i hk
      obtain rfl : a' = a := Option.some.inj ha
      exact ⟨b', if_pos hk, hk ▸ hR⟩
    · rename_i hk
      rw [if_neg hk]
      exact ih ha

end Related

/-- If every value has a related one, so has the list. -/
theorem exists_related (h : ∀ e ∈ es, ∃ b, R e.1 e.2 b) : ∃ fs, Related R es fs := by
  induction es with
  | nil => exact ⟨[], .nil⟩
  | cons e es ih =>
    obtain ⟨b, hb⟩ := h e List.mem_cons_self
    obtain ⟨fs, hfs⟩ := ih fun e he => h e (List.mem_cons_of_mem _ he)
    exact ⟨(e.1, b) :: fs, .cons hb hfs⟩

theorem mem_keys_iff {k : κ} : k ∈ keys es ↔ ∃ a, (k, a) ∈ es := by
  simp [keys]

/-- A key has one value. -/
theorem eq_of_mem [DecidableEq κ] (hd : (keys es).Nodup) {k : κ} {a a' : α} (ha : (k, a) ∈ es)
    (ha' : (k, a') ∈ es) : a = a' :=
  Option.some.inj ((lookup_of_mem hd ha).symm.trans (lookup_of_mem hd ha'))

/-- The same keys in any order, with related values. -/
structure Shuffled (R : α → β → Prop) (es : List (κ × α)) (fs : List (κ × β)) : Prop where
  keys : (keys es).Perm (keys fs)
  values : ∀ k a b, (k, a) ∈ es → (k, b) ∈ fs → R a b

namespace Shuffled

variable {R : α → β → Prop}

theorem symm {S : β → α → Prop} (h : Shuffled R es fs) (hRS : ∀ e ∈ es, ∀ b, R e.2 b → S b e.2) :
    Shuffled S fs es where
  keys := h.keys.symm
  values k b a hb ha := hRS (k, a) ha b (h.values k a b ha hb)

theorem exists_left (h : Shuffled R es fs) {k : κ} {b : β} (hb : (k, b) ∈ fs) : ∃ a, (k, a) ∈ es ∧ R a b := by
  obtain ⟨a, ha⟩ := mem_keys_iff.1 (h.keys.mem_iff.2 (mem_keys_iff.2 ⟨b, hb⟩))
  exact ⟨a, ha, h.values k a b ha hb⟩

theorem exists_right (h : Shuffled R es fs) {k : κ} {a : α} (ha : (k, a) ∈ es) : ∃ b, (k, b) ∈ fs ∧ R a b := by
  obtain ⟨b, hb⟩ := mem_keys_iff.1 (h.keys.mem_iff.1 (mem_keys_iff.2 ⟨a, ha⟩))
  exact ⟨b, hb, h.values k a b ha hb⟩

theorem nodup (h : Shuffled R es fs) (hd : (Entries.keys es).Nodup) : (Entries.keys fs).Nodup :=
  h.keys.nodup_iff.1 hd

theorem trans {γ : Type} {S : β → γ → Prop} {T : α → γ → Prop} {gs : List (κ × γ)} (h : Shuffled R es fs)
    (h' : Shuffled S fs gs) (hT : ∀ e ∈ es, ∀ b c, R e.2 b → S b c → T e.2 c) : Shuffled T es gs where
  keys := h.keys.trans h'.keys
  values k a c ha hc := by
    obtain ⟨b, hb, hR⟩ := h.exists_right ha
    exact hT (k, a) ha b c hR (h'.values k b c hb hc)

variable [DecidableEq κ]

/-- The same entries in any order. -/
theorem of_perm {R : α → α → Prop} {es fs : List (κ × α)} (h : es.Perm fs) (hd : (Entries.keys es).Nodup)
    (hR : ∀ e ∈ es, R e.2 e.2) : Shuffled R es fs where
  keys := h.map _
  values k a b ha hb := by
    obtain rfl : a = b := eq_of_mem hd ha (h.mem_iff.2 hb)
    exact hR _ ha

theorem lookup (h : Shuffled R es fs) (hd : (Entries.keys es).Nodup) {k : κ} {a : α} (ha : es.lookup k = some a) :
    ∃ b, fs.lookup k = some b ∧ R a b := by
  obtain ⟨b, hb, hR⟩ := h.exists_right (mem_of_lookup ha)
  exact ⟨b, lookup_of_mem (h.nodup hd) hb, hR⟩

theorem lookup_eq_none (h : Shuffled R es fs) (hd : (Entries.keys es).Nodup) {k : κ} (hn : es.lookup k = none) :
    fs.lookup k = none := by
  cases hl : fs.lookup k with
  | none => rfl
  | some b =>
    obtain ⟨a, ha, -⟩ := h.exists_left (mem_of_lookup hl)
    cases hn.symm.trans (lookup_of_mem hd ha)

/-- As many entries, each of which has a related one, are all entries. -/
theorem iff_lookup (hes : (Entries.keys es).Nodup) (hfs : (Entries.keys fs).Nodup) :
    Shuffled R es fs ↔ es.length = fs.length ∧ ∀ e ∈ es, ∃ b, fs.lookup e.1 = some b ∧ R e.2 b := by
  constructor
  · intro h
    refine ⟨by simpa [Entries.keys] using h.keys.length_eq, fun e he => ?_⟩
    obtain ⟨b, hb, hR⟩ := h.exists_right (k := e.1) (a := e.2) he
    exact ⟨b, lookup_of_mem hfs hb, hR⟩
  · rintro ⟨hlen, h⟩
    have hsub : Entries.keys es ⊆ Entries.keys fs := by
      intro k hk
      obtain ⟨a, ha⟩ := mem_keys_iff.1 hk
      obtain ⟨b, hb, -⟩ := h _ ha
      exact mem_keys_iff.2 ⟨b, mem_of_lookup hb⟩
    -- distinct keys found among just as many leave none over
    have hkeys : (Entries.keys fs).length ≤ (Entries.keys es).length := by simp [Entries.keys, hlen]
    refine ⟨(hes.subperm hsub).perm_of_length_le hkeys, fun k a b ha hb => ?_⟩
    obtain ⟨b', hb', hR⟩ := h _ ha
    exact eq_of_mem hfs (mem_of_lookup hb') hb ▸ hR

/-- Related values stay related if the entries on one side are put in another order. -/
theorem exists_related {β γ γ' : Type} {R : α → β → Prop} {S : κ → α → γ → Prop} {T : β → γ' → Prop}
    {U : γ → γ' → Prop} {es : List (κ × α)} {es' : List (κ × β)} {fs : List (κ × γ)} (h : Shuffled R es es')
    (hd : (Entries.keys es).Nodup) (hS : Related S es fs)
    (hRS : ∀ k a b c, (k, a) ∈ es → R a b → S k a c → ∃ d, T b d ∧ U c d) :
    ∃ fs', Related (fun _ => T) es' fs' ∧ Shuffled U fs fs' := by
  have hfs : (Entries.keys fs).Nodup := hS.keys_eq ▸ hd
  have hex : ∀ e ∈ es', ∃ d, T e.2 d ∧ ∀ c, (e.1, c) ∈ fs → U c d := by
    rintro ⟨k, b⟩ hb
    obtain ⟨a, ha, hR⟩ := h.exists_left hb
    obtain ⟨c, hc, hS⟩ := hS.exists_right ha
    obtain ⟨d, hT, hU⟩ := hRS k a b c ha hR hS
    exact ⟨d, hT, fun c' hc' => eq_of_mem hfs hc hc' ▸ hU⟩
  obtain ⟨fs', hfs'⟩ := Entries.exists_related (R := fun k b d => T b d ∧ ∀ c, (k, c) ∈ fs → U c d) hex
  refine ⟨fs', hfs'.imp fun _ _ _ _ hTU => hTU.1, ?_, ?_⟩
  · rw [hS.keys_eq, hfs'.keys_eq]
    exact h.keys
  · intro k c d hc hd
    obtain ⟨b, -, hTU⟩ := hfs'.exists_left hd
    exact hTU.2 c hc

end Shuffled

end CaseSetup.Entries
