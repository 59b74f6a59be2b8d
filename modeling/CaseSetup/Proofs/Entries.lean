import CaseSetup.Block.Basic

/-! # Entries and their keys

Looking a key up finds the first entry with it, the only one when the keys are distinct. -/

namespace CaseSetup.Entries

variable {κ α : Type} [DecidableEq κ] {es : List (κ × α)} {k : κ} {v : α}

theorem mem_of_lookup (h : es.lookup k = some v) : (k, v) ∈ es := by
  induction es with
  | nil => simp at h
  | cons e es ih =>
    obtain ⟨k', v'⟩ := e
    rw [lookup_cons] at h
    split at h
    · rename_i hk
      rw [hk, Option.some.inj h]
      exact List.mem_cons_self
    · exact List.mem_cons_of_mem _ (ih h)

theorem lookup_of_mem (hd : (keys es).Nodup) (h : (k, v) ∈ es) : es.lookup k = some v := by
  induction es with
  | nil => simp at h
  | cons e es ih =>
    obtain ⟨k', v'⟩ := e
    simp only [keys_cons, List.nodup_cons] at hd
    rw [lookup_cons]
    rcases List.mem_cons.1 h with he | he
    · cases he; simp
    · have hk : k ≠ k' := by
        rintro rfl
        exact hd.1 (List.mem_map.2 ⟨(k, v), he, rfl⟩)
      rw [if_neg hk]
      exact ih hd.2 he

theorem mem_replace {e : κ × α} (h : e ∈ replace k v es) : e = (k, v) ∨ e ∈ es := by
  induction es with
  | nil => exact .inr h
  | cons f es ih =>
    unfold replace at h
    split at h
    · rename_i hk
      rcases List.mem_cons.1 h with rfl | h
      · exact .inl (by rw [hk])
      · exact .inr (List.mem_cons_of_mem _ h)
    · rcases List.mem_cons.1 h with rfl | h
      · exact .inr List.mem_cons_self
      · exact (ih h).imp_right (List.mem_cons_of_mem _)

theorem mem_put {e : κ × α} (h : e ∈ put k v es) : e = (k, v) ∨ e ∈ es := by
  unfold put at h
  split at h
  · exact mem_replace h
  · rcases List.mem_append.1 h with h | h
    · exact .inr h
    · exact .inl (List.mem_singleton.1 h)

/-- Putting an entry keeps the keys distinct. -/
theorem nodup_put (h : (keys es).Nodup) : (keys (put k v es)).Nodup := by
  unfold put
  split
  · rwa [keys_replace]
  · rename_i hb
    have hk : k ∉ keys es := fun hk => hb (binds_iff_mem_keys.2 hk)
    rw [keys_append, List.nodup_append]
    refine ⟨h, by simp, ?_⟩
    rintro a ha b hb rfl
    obtain rfl : a = k := List.mem_singleton.1 hb
    exact hk ha

/-- A new key comes last. -/
theorem put_of_not_mem (h : k ∉ keys es) : put k v es = es ++ [(k, v)] := by
  unfold put
  rw [if_neg fun hb => h (binds_iff_mem_keys.1 hb)]

/-! ## Where an entry stands -/

variable {as bs : List (κ × α)} {a : α}

omit [DecidableEq κ] in
/-- Where keys are distinct, a key is not bound before its entry. -/
theorem not_mem_keys_left (h : (keys (as ++ (k, a) :: bs)).Nodup) : k ∉ keys as := by
  rw [keys_append, keys_cons] at h
  exact fun hmem => (List.nodup_append.1 h).2.2 k hmem k List.mem_cons_self rfl

theorem exists_append_of_lookup (h : es.lookup k = some v) : ∃ as bs, es = as ++ (k, v) :: bs ∧ k ∉ keys as := by
  induction es with
  | nil => simp at h
  | cons e es ih =>
    obtain ⟨k', v'⟩ := e
    rw [lookup_cons] at h
    split at h
    · rename_i hk
      obtain rfl : v' = v := Option.some.inj h
      exact ⟨[], es, by rw [hk]; rfl, by simp⟩
    · rename_i hk
      obtain ⟨as, bs, rfl, has⟩ := ih h
      exact ⟨(k', v') :: as, bs, rfl, by simpa using ⟨hk, has⟩⟩

theorem lookup_append (h : k ∉ keys as) : (as ++ (k, a) :: bs).lookup k = some a := by
  induction as with
  | nil => simp
  | cons e as ih =>
    obtain ⟨hk, has⟩ := not_or.1 (mt List.mem_cons.2 h)
    rw [List.cons_append, lookup_cons, if_neg hk, ih has]

theorem replace_append (h : k ∉ keys as) : replace k v (as ++ (k, a) :: bs) = as ++ (k, v) :: bs := by
  induction as with
  | nil => simp [replace]
  | cons e as ih =>
    obtain ⟨hk, has⟩ := not_or.1 (mt List.mem_cons.2 h)
    rw [List.cons_append, replace, if_neg hk, ih has, List.cons_append]

theorem erase_append (h : k ∉ keys as) : erase k (as ++ (k, a) :: bs) = as ++ bs := by
  induction as with
  | nil => simp [erase]
  | cons e as ih =>
    obtain ⟨hk, has⟩ := not_or.1 (mt List.mem_cons.2 h)
    rw [List.cons_append, erase, if_neg hk, ih has, List.cons_append]

/-- Writing a value back where it was read changes nothing. -/
theorem replace_of_lookup (h : es.lookup k = some v) : replace k v es = es := by
  obtain ⟨as, bs, rfl, has⟩ := exists_append_of_lookup h
  exact replace_append has

theorem erase_of_lookup_eq_none (h : es.lookup k = none) : erase k es = es := by
  induction es with
  | nil => rfl
  | cons e es ih =>
    rw [lookup_cons] at h
    split at h
    · cases h
    · rename_i hk
      rw [erase, if_neg hk, ih h]

end CaseSetup.Entries

namespace CaseSetup.Block

variable {b : Block} {name : String}

theorem binds_eq_true_iff : b.binds name = true ↔ ∃ v, b.lookup name = some v := by
  simp [binds, Entries.binds, Option.isSome_iff_exists]

theorem binds_eq_false_iff : b.binds name = false ↔ b.lookup name = none := by
  simp [binds, Entries.binds]

end CaseSetup.Block
