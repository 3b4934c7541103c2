import PlaybookEngine.Proofs.Fields.Ordered
import Mathlib.Data.List.Induction

namespace PlaybookEngine.Fields

variable {α : Type}

/-- Of pairs with distinct keys each one is found. -/
theorem get?_ofList_of_mem {pairs : List (String × α)} (hkeys : (pairs.map Prod.fst).Nodup)
    {k : String} {v : α} (h : (k, v) ∈ pairs) : get? k (ofList pairs) = some v := by
  induction pairs using List.reverseRecOn with
  | nil => cases h
  | append_singleton pairs p ih =>
    rw [List.map_append, List.nodup_append] at hkeys
    rw [ofList, List.foldl_append, List.foldl_cons, List.foldl_nil]
    rcases List.mem_append.mp h with h | h
    · have hne : p.1 ≠ k := fun heq =>
        hkeys.2.2 k (List.mem_map_of_mem h) p.1 (List.mem_map_of_mem List.mem_cons_self) heq.symm
      rw [get?_insert_of_ne hne]
      exact ih hkeys.1 h
    · rw [← List.mem_singleton.mp h, get?_insert_self]

theorem get?_ofList_of_not_mem {pairs : List (String × α)} {k : String}
    (h : k ∉ pairs.map Prod.fst) : get? k (ofList pairs) = none := by
  induction pairs using List.reverseRecOn with
  | nil => rfl
  | append_singleton pairs p ih =>
    rw [List.map_append, List.mem_append, not_or] at h
    have hne : p.1 ≠ k := fun heq => h.2 (heq ▸ List.mem_map_of_mem List.mem_cons_self)
    rw [ofList, List.foldl_append, List.foldl_cons, List.foldl_nil, get?_insert_of_ne hne]
    exact ih h.1

theorem ordered_ofList (pairs : List (String × α)) : Ordered (ofList pairs) := by
  induction pairs using List.reverseRecOn with
  | nil => exact ordered_nil
  | append_singleton pairs p ih =>
    rw [ofList, List.foldl_append]
    exact ih.insert p.1 p.2

theorem mem_of_mem_ofList {pairs : List (String × α)} {p : String × α} (h : p ∈ ofList pairs) :
    p ∈ pairs := by
  induction pairs using List.reverseRecOn with
  | nil => cases h
  | append_singleton pairs q ih =>
    rw [ofList, List.foldl_append] at h
    rcases mem_insert h with rfl | h
    · exact List.mem_append_right _ List.mem_cons_self
    · exact List.mem_append_left _ (ih h)

end PlaybookEngine.Fields
