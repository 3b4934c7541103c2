import PlaybookEngine.Fields
import Mathlib.Data.String.Basic

namespace PlaybookEngine.Fields

variable {α : Type}

def Ordered (fs : Fields α) : Prop := fs.Pairwise fun p q => p.1 < q.1

instance (fs : Fields α) : Decidable (Ordered fs) :=
  inferInstanceAs (Decidable (fs.Pairwise fun p q => p.1 < q.1))

theorem ordered_nil : Ordered ([] : Fields α) := List.Pairwise.nil

theorem mem_insert {k : String} {v : α} {fs : Fields α} {p : String × α}
    (h : p ∈ insert k v fs) : p = (k, v) ∨ p ∈ fs := by
  induction fs with
  | nil => exact .inl (by simpa [insert] using h)
  | cons q rest ih =>
    unfold insert at h
    split at h
    · rcases List.mem_cons.mp h with h | h
      · exact .inl h
      · exact .inr (List.mem_cons_of_mem _ h)
    · split at h
      · exact (List.mem_cons.mp h).imp_right id
      · rcases List.mem_cons.mp h with h | h
        · exact .inr (h ▸ List.mem_cons_self)
        · exact (ih h).imp_right (List.mem_cons_of_mem _)

theorem Ordered.insert {fs : Fields α} (h : Ordered fs) (k : String) (v : α) :
    Ordered (Fields.insert k v fs) := by
  induction fs with
  | nil => simp [Ordered, Fields.insert]
  | cons q rest ih =>
    obtain ⟨j, w⟩ := q
    obtain ⟨hj, hrest⟩ := List.pairwise_cons.mp h
    unfold Fields.insert
    split
    · rename_i hk
      subst hk
      exact List.pairwise_cons.mpr ⟨hj, hrest⟩
    · split
      · rename_i hkj
        refine List.pairwise_cons.mpr ⟨fun p hp => ?_, h⟩
        rcases List.mem_cons.mp hp with rfl | hp
        · exact hkj
        · exact hkj.trans (hj p hp)
      · rename_i hne hlt
        have hjk : j < k := lt_of_le_of_ne (not_lt.mp hlt) (Ne.symm hne)
        refine List.pairwise_cons.mpr ⟨fun p hp => ?_, ih hrest⟩
        rcases mem_insert hp with rfl | hp
        · exact hjk
        · exact hj p hp

/-- A key after all others goes to the end. -/
theorem insert_of_lt {fs : Fields α} {k : String} (h : ∀ p ∈ fs, p.1 < k) (v : α) :
    Fields.insert k v fs = fs ++ [(k, v)] := by
  induction fs with
  | nil => rfl
  | cons q rest ih =>
    have hq : q.1 < k := h q List.mem_cons_self
    rw [Fields.insert, if_neg hq.ne', if_neg (not_lt.mpr hq.le), List.cons_append,
      ih fun p hp => h p (List.mem_cons_of_mem _ hp)]

theorem Ordered.filter {fs : Fields α} (h : Ordered fs) (keep : String × α → Bool) :
    Ordered (fs.filter keep) := List.Pairwise.filter keep h

theorem mem_of_get? {k : String} {v : α} {fs : Fields α} (h : get? k fs = some v) :
    (k, v) ∈ fs := by
  induction fs with
  | nil => cases h
  | cons q rest ih =>
    obtain ⟨j, w⟩ := q
    rw [get?_cons] at h
    split at h
    · rename_i hj
      cases h
      rw [hj]
      exact List.mem_cons_self
    · exact List.mem_cons_of_mem _ (ih h)

theorem mem_keys_iff {k : String} {fs : Fields α} : k ∈ keys fs ↔ get? k fs ≠ none := by
  induction fs with
  | nil => exact iff_of_false List.not_mem_nil fun h => h rfl
  | cons q rest ih =>
    rw [keys, List.map_cons, List.mem_cons, get?]
    by_cases hq : q.1 = k
    · rw [if_pos hq]
      exact iff_of_true (.inl hq.symm) (Option.some_ne_none _)
    · rw [if_neg hq, ← ih]
      exact or_iff_right (Ne.symm hq)

theorem get?_eq_none_of_lt {k : String} {fs : Fields α} (h : ∀ p ∈ fs, k < p.1) :
    get? k fs = none := by
  induction fs with
  | nil => rfl
  | cons q rest ih =>
    have hq : q.1 ≠ k := (h q List.mem_cons_self).ne'
    rw [get?, if_neg hq]
    exact ih fun p hp => h p (List.mem_cons_of_mem _ hp)

theorem get?_filter {fs : Fields α} (h : Ordered fs) (keep : String × α → Bool) (k : String) :
    get? k (fs.filter keep) = (get? k fs).filter fun v => keep (k, v) := by
  induction fs with
  | nil => rfl
  | cons q rest ih =>
    obtain ⟨j, w⟩ := q
    obtain ⟨hj, hrest⟩ := List.pairwise_cons.mp h
    by_cases hk : j = k
    · subst hk
      have hnone : get? j (rest.filter keep) = none :=
        get?_eq_none_of_lt fun p hp => hj p (List.mem_of_mem_filter hp)
      cases hw : keep (j, w) <;> simp [hw, get?, Option.filter, hnone]
    · rw [get?_cons, if_neg hk, ← ih hrest]
      cases hw : keep (j, w) <;> simp [hw, get?, hk]

/-- Of a key that is not there, insertion is undone by erasure. -/
theorem erase_insert {k : String} {fs : Fields α} (h : get? k fs = none) (v : α) :
    erase k (insert k v fs) = fs := by
  induction fs with
  | nil => simp [insert, erase]
  | cons q rest ih =>
    obtain ⟨j, w⟩ := q
    rw [get?_cons] at h
    split at h
    · cases h
    · rename_i hjk
      have hrest : erase k rest = rest := by
        rw [← ih h]
        simp [erase, List.filter_filter]
      unfold insert
      split
      · rename_i hkj
        exact absurd hkj.symm hjk
      · split
        · simpa [erase, hjk] using hrest
        · simpa [erase, hjk] using ih h

end PlaybookEngine.Fields
