import PlaybookEngine.Proofs.Fields.Ordered

namespace PlaybookEngine.Fields

variable {α β : Type} {f : Fields β → String × α → Fields β} {fs : Fields α}

theorem get?_foldl_of_ne {k : String} (hother : ∀ m p, p.1 ≠ k → get? k (f m p) = get? k m)
    (h : ∀ p ∈ fs, p.1 ≠ k) (m : Fields β) : get? k (fs.foldl f m) = get? k m := by
  induction fs generalizing m with
  | nil => rfl
  | cons p fs ih =>
    rw [List.foldl_cons, ih fun q hq => h q (List.mem_cons_of_mem _ hq)]
    exact hother m p (h p List.mem_cons_self)

/-- What the fold leaves under a key, when each pair makes `g` of what stands under its own. -/
theorem get?_foldl {k : String} {g : α → Option β → Option β} (hfs : Ordered fs)
    (hother : ∀ m p, p.1 ≠ k → get? k (f m p) = get? k m)
    (hown : ∀ m v, get? k (f m (k, v)) = g v (get? k m)) (m : Fields β) :
    get? k (fs.foldl f m) =
      match get? k fs with
      | some v => g v (get? k m)
      | none => get? k m := by
  induction fs generalizing m with
  | nil => rfl
  | cons p fs ih =>
    obtain ⟨j, v⟩ := p
    obtain ⟨hj, hrest⟩ := List.pairwise_cons.mp hfs
    rw [List.foldl_cons, get?_cons]
    by_cases hjk : j = k
    · subst hjk
      rw [if_pos rfl, get?_foldl_of_ne hother fun q hq => (hj q hq).ne']
      exact hown m v
    · rw [if_neg hjk, ih hrest, hother m (j, v) hjk]

theorem ordered_foldl (hf : ∀ m p, Ordered m → Ordered (f m p)) {m : Fields β} (hm : Ordered m) :
    Ordered (fs.foldl f m) :=
  List.foldlRecOn fs f hm fun m hm p _ => hf m p hm

/-- On top of another map, each pair of a map is found. -/
theorem get?_overlay {base upper : Fields α} (hupper : Ordered upper) (k : String) :
    get? k (overlay base upper) = (get? k upper).or (get? k base) := by
  have hfold := get?_foldl (f := fun fs p => insert p.1 p.2 fs) (g := fun v _ => some v) hupper
    (fun m p hne => get?_insert_of_ne hne p.2 m) (fun m v => get?_insert_self k v m) base
  rw [overlay, hfold]
  cases get? k upper <;> rfl

theorem Ordered.overlay {base : Fields α} (hbase : Ordered base) (upper : Fields α) :
    Ordered (Fields.overlay base upper) :=
  ordered_foldl (fun _ p hm => hm.insert p.1 p.2) hbase

theorem Ordered.mapValues (hfs : Ordered fs) (f : α → β) : Ordered (Fields.mapValues f fs) :=
  List.pairwise_map.mpr hfs

end PlaybookEngine.Fields
