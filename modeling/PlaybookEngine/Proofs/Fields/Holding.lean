import PlaybookEngine.Proofs.Fields.Ordered
import Mathlib.Data.List.Sort

namespace PlaybookEngine.Fields

variable {α : Type}

/-- A value with the property stands under the key, and in its place. -/
def Holds (k : String) (q : α → Prop) (fs : Fields α) : Prop :=
  ∃ c, get? k fs = some c ∧ insert k c fs = fs ∧ q c

theorem insert_insert_self (k : String) (v w : α) (fs : Fields α) :
    insert k w (insert k v fs) = insert k w fs := by
  induction fs with
  | nil => simp [insert]
  | cons p rest ih =>
    obtain ⟨i, u⟩ := p
    by_cases hki : k = i
    · subst hki
      simp [insert]
    · by_cases hlt : k < i
      · simp [insert, hki, hlt]
      · simp [insert, hki, hlt, ih]

/-- A value in its place stays there when another key's value is put. -/
theorem insert_placed {j k : String} {c : α} {fs : Fields α} (h : insert j c fs = fs) (hjk : j ≠ k)
    (v : α) : insert j c (insert k v fs) = insert k v fs := by
  induction fs with
  | nil => cases h
  | cons p rest ih =>
    obtain ⟨i, w⟩ := p
    by_cases hji : j = i
    · subst hji
      rw [insert, if_pos rfl] at h
      obtain rfl : c = w := by simpa using h
      rw [insert, if_neg hjk.symm]
      split
      · rename_i hkj
        rw [insert, if_neg hjk, if_neg (not_lt.mpr hkj.le), insert, if_pos rfl]
      · rw [insert, if_pos rfl]
    · rw [insert, if_neg hji] at h
      split at h
      · simpa using congrArg List.length h
      · rename_i hlt
        have hrest : insert j c rest = rest := (List.cons.inj h).2
        rw [insert]
        split
        · rename_i hki
          rw [insert, if_neg hjk, if_neg (hki ▸ hlt), hrest]
        · split
          · rename_i hki
            have hjk' : ¬j < k := fun hlt' => hlt (hlt'.trans hki)
            rw [insert, if_neg hjk, if_neg hjk', insert, if_neg hji, if_neg hlt, hrest]
          · rw [insert, if_neg hji, if_neg hlt, ih hrest]

theorem holds_insert (k : String) {q : α → Prop} {c : α} (hc : q c) (fs : Fields α) :
    Holds k q (insert k c fs) :=
  ⟨c, get?_insert_self k c fs, insert_insert_self k c c fs, hc⟩

theorem Holds.insert {k j : String} {q : α → Prop} {fs : Fields α} (h : Holds k q fs) (hne : k ≠ j)
    (v : α) : Holds k q (Fields.insert j v fs) := by
  obtain ⟨c, hc, hplace, hq⟩ := h
  exact ⟨c, by rw [get?_insert_of_ne hne.symm, hc], insert_placed hplace hne v, hq⟩

theorem Holds.imp {k : String} {q q' : α → Prop} {fs : Fields α} (h : Holds k q fs)
    (hq : ∀ c, q c → q' c) : Holds k q' fs := by
  obtain ⟨c, hc, hplace, hqc⟩ := h
  exact ⟨c, hc, hplace, hq c hqc⟩

theorem Ordered.get?_of_mem {fs : Fields α} (h : Ordered fs) {k : String} {v : α}
    (hp : (k, v) ∈ fs) : get? k fs = some v := by
  induction fs with
  | nil => cases hp
  | cons q rest ih =>
    obtain ⟨hq, hrest⟩ := List.pairwise_cons.mp h
    rcases List.mem_cons.mp hp with rfl | hp
    · exact if_pos rfl
    · rw [get?, if_neg (hq _ hp).ne]
      exact ih hrest hp

/-- Ordered maps that agree under every key are the same. -/
theorem Ordered.ext {fs gs : Fields α} (hfs : Ordered fs) (hgs : Ordered gs)
    (h : ∀ k, get? k fs = get? k gs) : fs = gs := by
  have hirrefl : Std.Irrefl fun p q : String × α => p.1 < q.1 := ⟨fun p => lt_irrefl p.1⟩
  have hantisymm : Std.Antisymm fun p q : String × α => p.1 < q.1 :=
    ⟨fun _ _ hpq hqp => absurd hqp hpq.asymm⟩
  refine List.Pairwise.eq_of_mem_iff hfs hgs fun p => ⟨fun hp => ?_, fun hp => ?_⟩
  · exact mem_of_get? ((h p.1).symm.trans (hfs.get?_of_mem hp))
  · exact mem_of_get? ((h p.1).trans (hgs.get?_of_mem hp))

/-- In an ordered map every value is in its place. -/
theorem Ordered.insert_of_mem {fs : Fields α} (h : Ordered fs) {k : String} {v : α}
    (hp : (k, v) ∈ fs) : Fields.insert k v fs = fs := by
  induction fs with
  | nil => cases hp
  | cons q rest ih =>
    obtain ⟨hq, hrest⟩ := List.pairwise_cons.mp h
    rcases List.mem_cons.mp hp with rfl | hp
    · exact if_pos rfl
    · have hlt : q.1 < k := hq _ hp
      rw [Fields.insert, if_neg hlt.ne', if_neg (not_lt.mpr hlt.le), ih hrest hp]

theorem Ordered.holds_of_mem {fs : Fields α} (h : Ordered fs) {k : String} {v : α}
    (hp : (k, v) ∈ fs) {q : α → Prop} (hq : q v) : Holds k q fs :=
  ⟨v, h.get?_of_mem hp, h.insert_of_mem hp, hq⟩

/-- Of an ordered map, the pairs before and after one have other keys. -/
theorem Ordered.ne_of_mem_append {pre post : Fields α} {p : String × α}
    (h : Ordered (pre ++ p :: post)) :
    (∀ q ∈ pre, p.1 ≠ q.1) ∧ ∀ q ∈ post, p.1 ≠ q.1 := by
  obtain ⟨_, hpost, hcross⟩ := List.pairwise_append.mp h
  refine ⟨fun q hq => (hcross q hq p List.mem_cons_self).ne', fun q hq => ?_⟩
  exact ((List.pairwise_cons.mp hpost).1 q hq).ne

end PlaybookEngine.Fields
