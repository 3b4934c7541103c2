import PlaybookEngine.Json.Basic

namespace PlaybookEngine.Json

mutual

theorem beq_symm (v w : Json) (h : beq v w = true) : beq w v = true := by
  cases v with
  | arr as =>
    cases w with
    | arr bs =>
      rw [beq] at h ⊢
      exact beqItems_symm as bs h
    | _ => simp [beq] at h
  | obj as =>
    cases w with
    | obj bs =>
      rw [beq] at h ⊢
      exact beqFields_symm as bs h
    | _ => simp [beq] at h
  | float x =>
    cases w with
    | float y =>
      rw [beq, Binary64.Finite.beq_iff] at h ⊢
      exact h.symm
    | _ => simp [beq] at h
  | _ => cases w <;> simp_all [beq]

theorem beqItems_symm (vs ws : List Json) (h : beqItems vs ws = true) :
    beqItems ws vs = true := by
  cases vs with
  | nil => cases ws <;> simp_all [beqItems]
  | cons v vs =>
    cases ws with
    | nil => simp [beqItems] at h
    | cons w ws =>
      rw [beqItems, Bool.and_eq_true] at h ⊢
      exact ⟨beq_symm v w h.1, beqItems_symm vs ws h.2⟩

theorem beqFields_symm (fs gs : List (String × Json)) (h : beqFields fs gs = true) :
    beqFields gs fs = true := by
  cases fs with
  | nil => cases gs <;> simp_all [beqFields]
  | cons f fs =>
    cases gs with
    | nil => simp [beqFields] at h
    | cons g gs =>
      obtain ⟨k, v⟩ := f
      obtain ⟨j, w⟩ := g
      simp only [beqFields, Bool.and_eq_true, beq_iff_eq] at h ⊢
      exact ⟨⟨h.1.1.symm, beq_symm v w h.1.2⟩, beqFields_symm fs gs h.2⟩

end

mutual

theorem beq_trans (u v w : Json) (huv : beq u v = true) (hvw : beq v w = true) :
    beq u w = true := by
  cases v with
  | arr bs =>
    cases u with
    | arr as =>
      cases w with
      | arr cs =>
        rw [beq] at huv hvw ⊢
        exact beqItems_trans as bs cs huv hvw
      | _ => cases hvw
    | _ => cases huv
  | obj bs =>
    cases u with
    | obj as =>
      cases w with
      | obj cs =>
        rw [beq] at huv hvw ⊢
        exact beqFields_trans as bs cs huv hvw
      | _ => cases hvw
    | _ => cases huv
  | float y =>
    cases u with
    | float x =>
      cases w with
      | float z =>
        rw [beq, Binary64.Finite.beq_iff] at huv hvw ⊢
        exact huv.trans hvw
      | _ => cases hvw
    | _ => cases huv
  | null =>
    cases u with
    | null => exact hvw
    | _ => cases huv
  | bool b =>
    cases u with
    | bool a =>
      obtain rfl : a = b := eq_of_beq huv
      exact hvw
    | _ => cases huv
  | int j =>
    cases u with
    | int i =>
      obtain rfl : i = j := eq_of_beq huv
      exact hvw
    | _ => cases huv
  | str s =>
    cases u with
    | str s' =>
      obtain rfl : s' = s := eq_of_beq huv
      exact hvw
    | _ => cases huv
termination_by structural v

theorem beqItems_trans (us vs ws : List Json) (huv : beqItems us vs = true)
    (hvw : beqItems vs ws = true) : beqItems us ws = true := by
  cases vs with
  | nil => cases us <;> simp_all [beqItems]
  | cons v vs =>
    cases us with
    | nil => simp [beqItems] at huv
    | cons u us =>
      cases ws with
      | nil => simp [beqItems] at hvw
      | cons w ws =>
        rw [beqItems, Bool.and_eq_true] at huv hvw ⊢
        exact ⟨beq_trans u v w huv.1 hvw.1, beqItems_trans us vs ws huv.2 hvw.2⟩
termination_by structural vs

theorem beqFields_trans (fs gs hs : List (String × Json)) (hfg : beqFields fs gs = true)
    (hgh : beqFields gs hs = true) : beqFields fs hs = true := by
  cases gs with
  | nil => cases fs <;> simp_all [beqFields]
  | cons g gs =>
    cases fs with
    | nil => simp [beqFields] at hfg
    | cons f fs =>
      cases hs with
      | nil => simp [beqFields] at hgh
      | cons h hs =>
        obtain ⟨i, u⟩ := f
        obtain ⟨j, v⟩ := g
        obtain ⟨k, w⟩ := h
        simp only [beqFields, Bool.and_eq_true, beq_iff_eq] at hfg hgh ⊢
        exact ⟨⟨hfg.1.1.trans hgh.1.1, beq_trans u v w hfg.1.2 hgh.1.2⟩,
          beqFields_trans fs gs hs hfg.2 hgh.2⟩
termination_by structural gs

end

theorem eq_null_of_beq {v : Json} (h : (v == .null) = true) : v = .null := by
  cases v with
  | null => rfl
  | _ => cases h

theorem beq_null_left {v : Json} (h : (Json.null == v) = true) : v = .null :=
  eq_null_of_beq (beq_symm _ _ h)

/-- Each element of a list has an equal one in an equal list. -/
theorem contains_of_beqItems {vs ws : List Json} (h : beqItems vs ws = true) {w : Json}
    (hw : w ∈ ws) : vs.contains w = true := by
  induction ws generalizing vs with
  | nil => cases hw
  | cons u ws ih =>
    cases vs with
    | nil => cases h
    | cons v vs =>
      rw [beqItems, Bool.and_eq_true] at h
      rw [List.contains_cons, Bool.or_eq_true]
      rcases List.mem_cons.mp hw with rfl | hw
      · exact .inl (beq_symm v w h.1)
      · exact .inr (ih h.2 hw)

/-- Equal objects hold equal values under the same keys. -/
theorem get?_of_beq {v w : Json} (h : (v == w) = true) (k : String) :
    (v.get? k = none ∧ w.get? k = none) ∨
      ∃ a b, v.get? k = some a ∧ w.get? k = some b ∧ (a == b) = true := by
  have fields (fs gs : List (String × Json)) (h : beqFields fs gs = true) :
      (Fields.get? k fs = none ∧ Fields.get? k gs = none) ∨
        ∃ a b, Fields.get? k fs = some a ∧ Fields.get? k gs = some b ∧ (a == b) = true := by
    induction fs generalizing gs with
    | nil =>
      cases gs with
      | nil => exact .inl ⟨rfl, rfl⟩
      | cons g gs => cases h
    | cons f fs ih =>
      cases gs with
      | nil => cases h
      | cons g gs =>
        obtain ⟨i, a⟩ := f
        obtain ⟨j, b⟩ := g
        simp only [beqFields, Bool.and_eq_true, beq_iff_eq] at h
        obtain ⟨⟨rfl, hab⟩, hrest⟩ := h
        rw [Fields.get?_cons, Fields.get?_cons]
        by_cases hi : i = k
        · rw [if_pos hi, if_pos hi]
          exact .inr ⟨a, b, rfl, rfl, hab⟩
        · rw [if_neg hi, if_neg hi]
          exact ih gs hrest
  cases v with
  | obj fs =>
    cases w with
    | obj gs => exact fields fs gs h
    | _ => cases h
  | _ =>
    cases w with
    | obj gs => cases h
    | _ => exact .inl ⟨rfl, rfl⟩

/-- Of equal numbers neither is less. -/
theorem number_of_beq {v w : Json} (h : (v == w) = true) {x y : Binary64}
    (hx : v.number? = some x) (hy : w.number? = some y) : x.lt y = false := by
  cases v with
  | int i =>
    cases w with
    | int j =>
      obtain rfl : i = j := beq_iff_eq.mp h
      cases hx
      cases hy
      cases Binary64.ofInt i with
      | nan => rfl
      | inf neg => cases neg <;> rfl
      | finite x => simp [Binary64.lt]
    | _ => cases h
  | float a =>
    cases w with
    | float b =>
      cases hx
      cases hy
      have same : a.units = b.units := (Binary64.Finite.beq_iff a b).mp h
      simp [Binary64.lt, same]
    | _ => cases h
  | _ => cases hx

end PlaybookEngine.Json
