import PlaybookEngine.Output.Union
import PlaybookEngine.Proofs.Fields.Holding
import PlaybookEngine.Proofs.Json.Equality
import PlaybookEngine.Proofs.Json.Ordered
import PlaybookEngine.Proofs.Number.Order

namespace PlaybookEngine.UnionRule

theorem contains_addMissing_left {items : List Json} {x : Json} (h : items.contains x = true)
    (vs : List Json) : (addMissing items vs).contains x = true := by
  induction vs generalizing items with
  | nil => exact h
  | cons v vs ih =>
    rw [addMissing, List.foldl_cons]
    split
    · exact ih h
    · refine ih ?_
      rw [List.contains_append, h, Bool.true_or]

theorem contains_addMissing {vs : List Json} {x : Json} (hx : x ∈ vs) (items : List Json) :
    (addMissing items vs).contains x = true := by
  induction vs generalizing items with
  | nil => cases hx
  | cons v vs ih =>
    rw [addMissing, List.foldl_cons]
    rcases List.mem_cons.mp hx with rfl | hx
    · refine contains_addMissing_left ?_ vs
      split
      · assumption
      · simp
    · exact ih hx _

theorem addMissing_eq_self {items vs : List Json} (h : ∀ x ∈ vs, items.contains x = true) :
    addMissing items vs = items := by
  induction vs with
  | nil => rfl
  | cons v vs ih =>
    rw [addMissing, List.foldl_cons, if_pos (h v List.mem_cons_self)]
    exact ih fun x hx => h x (List.mem_cons_of_mem _ hx)

theorem larger_of_numbers {a b : Json} {x y : Binary64} (hx : a.number? = some x)
    (hy : b.number? = some y) : larger a b = if x.lt y then b else a := by
  simp only [larger, hx, hy]

theorem larger_eq_left_iff (a b : Json) :
    larger a b = a ↔ ∀ x y, a.number? = some x → b.number? = some y → x.lt y = false := by
  constructor
  · intro h x y hx hy
    refine Bool.eq_false_iff.mpr fun hlt => ?_
    rw [larger_of_numbers hx hy, if_pos hlt] at h
    obtain rfl : x = y := Option.some.inj (hx.symm.trans (h ▸ hy))
    exact Bool.false_ne_true ((Binary64.lt_irrefl x).symm.trans hlt)
  · intro h
    rw [larger]
    split
    · rename_i x y hx hy
      rw [if_neg (Bool.eq_false_iff.mp (h x y hx hy))]
    · rfl

theorem larger_self (a : Json) : larger a a = a := by
  refine (larger_eq_left_iff a a).mpr fun x y hx hy => ?_
  obtain rfl : x = y := Option.some.inj (hx.symm.trans hy)
  exact Binary64.lt_irrefl x

/-- The larger value is one of the two; it is the second only as the larger number. -/
theorem larger_cases (a b : Json) :
    larger a b = a ∨
      larger a b = b ∧ ∃ x y, a.number? = some x ∧ b.number? = some y ∧ x.lt y = true := by
  rw [larger]
  split
  · rename_i x y hx hy
    split
    · rename_i hlt
      exact .inr ⟨rfl, x, y, hx, hy, hlt⟩
    · exact .inl rfl
  · exact .inl rfl

/-- What a number absorbs, a larger one absorbs too. -/
theorem larger_absorbs_of_lt {a b w : Json} (h : larger a b = a) {x z : Binary64}
    (hx : a.number? = some x) (hz : w.number? = some z) (hxz : x.lt z = true) :
    larger w b = w := by
  refine (larger_eq_left_iff w b).mpr fun z' y hz' hy => ?_
  obtain rfl : z = z' := Option.some.inj (hz.symm.trans hz')
  refine Bool.eq_false_iff.mpr fun hzy => ?_
  have hxy : x.lt y = false := (larger_eq_left_iff a b).mp h x y hx hy
  exact Bool.false_ne_true (hxy.symm.trans (Binary64.lt_trans hxz hzy))

variable (r : UnionRule) {field : String}

/-- A value that is neither null nor a list only gives way to a larger number. -/
theorem mergeValue_scalar {c : Json} (hnull : c ≠ .null) (harr : c.arr? = none) (v : Json) :
    r.mergeValue field c v = if r.max = some field then larger c v else c := by
  cases c with
  | null => exact absurd rfl hnull
  | arr items => cases harr
  | _ => rfl

theorem mergeValue_number {c : Json} {x : Binary64} (hc : c.number? = some x) (v : Json) :
    r.mergeValue field c v = if r.max = some field then larger c v else c := by
  refine r.mergeValue_scalar ?_ ?_ v
  · rintro rfl
    cases hc
  · cases c with
    | arr items => cases hc
    | _ => rfl

/-- Merging the value into the current one changes nothing. -/
def Absorbs (field : String) (v current : Json) : Prop := r.mergeValue field current v = current

/-- A property of a field's value that merging any value into it keeps. -/
def Kept (field : String) (q : Json → Prop) : Prop := ∀ c w, q c → q (r.mergeValue field c w)

theorem null_list_or_scalar (c : Json) :
    c = .null ∨ (∃ items, c = .arr items) ∨ c ≠ .null ∧ c.arr? = none := by
  cases c with
  | null => exact .inl rfl
  | arr items => exact .inr (.inl ⟨items, rfl⟩)
  | _ => exact .inr (.inr ⟨nofun, rfl⟩)

theorem absorbs_self (v : Json) : r.Absorbs field v v := by
  rcases null_list_or_scalar v with rfl | ⟨items, rfl⟩ | ⟨hnull, harr⟩
  · rfl
  · rw [Absorbs, mergeValue]
    split
    · rw [Json.elements, addMissing_eq_self fun x hx =>
        List.contains_iff_exists_mem_beq.mpr ⟨x, hx, Json.beq_self x⟩]
    · rfl
  · rw [Absorbs, r.mergeValue_scalar hnull harr, larger_self, ite_self]

theorem absorbs_mergeValue (c v : Json) : r.Absorbs field v (r.mergeValue field c v) := by
  rcases null_list_or_scalar c with rfl | ⟨items, rfl⟩ | ⟨hnull, harr⟩
  · exact r.absorbs_self v
  · rw [Absorbs, mergeValue]
    split
    · rename_i hdedup
      rw [mergeValue, if_pos hdedup, addMissing_eq_self fun x hx => contains_addMissing hx items]
    · rename_i hdedup
      rw [mergeValue, if_neg hdedup]
  · rw [r.mergeValue_scalar hnull harr]
    split
    · rename_i hmax
      rcases larger_cases c v with h | ⟨h, -⟩
      · rw [h, Absorbs, r.mergeValue_scalar hnull harr, if_pos hmax, h]
      · rw [h]
        exact r.absorbs_self v
    · rename_i hmax
      rw [Absorbs, r.mergeValue_scalar hnull harr, if_neg hmax]

/-- What is neither null nor a list absorbs null. -/
theorem absorbs_null_scalar {c : Json} (hnull : c ≠ .null) (harr : c.arr? = none) :
    r.Absorbs field .null c := by
  have hlarger : larger c .null = c := by
    refine (larger_eq_left_iff c .null).mpr fun x y _ hy => ?_
    cases hy
  rw [Absorbs, r.mergeValue_scalar hnull harr, hlarger, ite_self]

/-- Of a field that is not united, null is absorbed by every value. -/
theorem absorbs_null (hdedup : r.dedup.contains field = false) (c : Json) :
    r.Absorbs field .null c := by
  rcases null_list_or_scalar c with rfl | ⟨items, rfl⟩ | ⟨hnull, harr⟩
  · rfl
  · rw [Absorbs, mergeValue, if_neg (Bool.eq_false_iff.mp hdedup)]
  · exact r.absorbs_null_scalar hnull harr

/-- What is absorbed stays so, except for a null of a united field. -/
theorem kept_absorbs {v : Json} (h : v = .null → r.dedup.contains field = false) :
    r.Kept field (r.Absorbs field v) := by
  intro c w hc
  rcases null_list_or_scalar c with rfl | ⟨items, rfl⟩ | ⟨hnull, harr⟩
  · obtain rfl : v = .null := hc
    exact r.absorbs_null (h rfl) w
  · rw [Absorbs, mergeValue] at hc ⊢
    split
    · rename_i hdedup
      rw [if_pos hdedup, Json.arr.injEq] at hc
      rw [mergeValue, if_pos hdedup, addMissing_eq_self fun x hx => ?_]
      have hitems : items.contains x = true := hc ▸ contains_addMissing hx items
      exact contains_addMissing_left hitems _
    · rename_i hdedup
      rw [mergeValue, if_neg hdedup]
  · rw [r.mergeValue_scalar hnull harr]
    split
    · rename_i hmax
      rcases larger_cases c w with hw | ⟨hw, x, z, hx, hz, hxz⟩
      · rw [hw]
        exact hc
      · rw [Absorbs, r.mergeValue_scalar hnull harr, if_pos hmax] at hc
        rw [hw, Absorbs, r.mergeValue_number hz, if_pos hmax]
        exact larger_absorbs_of_lt hc hx hz hxz
    · exact hc

def IsList (c : Json) : Prop := ∃ items, c = .arr items

/-- A list that holds null. -/
def ListsNull (c : Json) : Prop := ∃ items, c = .arr items ∧ items.contains .null = true

theorem kept_isList : r.Kept field IsList := by
  rintro _ w ⟨items, rfl⟩
  rw [mergeValue]
  split
  · exact ⟨_, rfl⟩
  · exact ⟨items, rfl⟩

theorem kept_listsNull : r.Kept field ListsNull := by
  rintro _ w ⟨items, rfl, hnull⟩
  rw [mergeValue]
  split
  · exact ⟨_, rfl, contains_addMissing_left hnull _⟩
  · exact ⟨items, rfl, hnull⟩

theorem listsNull_mergeValue (hdedup : r.dedup.contains field = true) {c : Json} (hc : IsList c) :
    ListsNull (r.mergeValue field c .null) := by
  obtain ⟨items, rfl⟩ := hc
  rw [mergeValue, if_pos hdedup]
  exact ⟨_, rfl, contains_addMissing List.mem_cons_self items⟩

/-- Of a united field, null is absorbed by all but the lists without it. -/
theorem absorbs_null_of_listsNull {c : Json} (hc : IsList c → ListsNull c) :
    r.Absorbs field .null c := by
  rcases null_list_or_scalar c with rfl | ⟨items, rfl⟩ | ⟨hnull, harr⟩
  · rfl
  · obtain ⟨items', heq, hmem⟩ := hc ⟨items, rfl⟩
    obtain rfl : items = items' := Json.arr.inj heq
    rw [Absorbs, mergeValue]
    split
    · have kept : ∀ x ∈ Json.null.elements, items.contains x = true := by
        intro x hx
        rw [List.mem_singleton.mp hx]
        exact hmem
      rw [addMissing_eq_self kept]
    · rfl
  · exact r.absorbs_null_scalar hnull harr

section Fields

open Fields (get? insert Holds)

variable {t : Fields Json} {q : Json → Prop}

theorem Holds.mergeField (hq : r.Kept field q) (h : Holds field q t) (k : String) (v : Json) :
    Holds field q (r.mergeField t k v) := by
  by_cases hk : field = k
  · subst hk
    obtain ⟨c, hc, -, hqc⟩ := h
    simp only [UnionRule.mergeField, hc]
    exact Fields.holds_insert field (hq c v hqc) t
  · rw [UnionRule.mergeField]
    split
    · exact h.insert hk _
    · exact h.insert hk v

theorem Holds.mergeFields (hq : r.Kept field q) (h : Holds field q t) (e : Fields Json) :
    Holds field q (r.mergeFields t e) := by
  induction e generalizing t with
  | nil => exact h
  | cons p e ih => exact ih (Holds.mergeField r hq h p.1 p.2)

theorem mergeFields_split {e : Fields Json} {v : Json} (hp : (field, v) ∈ e) (t : Fields Json) :
    ∃ pre post, r.mergeFields t e =
      r.mergeFields (r.mergeField (r.mergeFields t pre) field v) post := by
  obtain ⟨pre, post, rfl⟩ := List.append_of_mem hp
  exact ⟨pre, post, by simp only [mergeFields, List.foldl_append, List.foldl_cons]⟩

theorem holds_mergeField_absorbs (t : Fields Json) (v : Json) :
    Holds field (r.Absorbs field v) (r.mergeField t field v) := by
  rw [mergeField]
  split
  · exact Fields.holds_insert field (r.absorbs_mergeValue _ v) t
  · exact Fields.holds_insert field (r.absorbs_self v) t

theorem holds_mergeFields_absorbs {e : Fields Json} {v : Json} (hp : (field, v) ∈ e)
    (hv : v = .null → r.dedup.contains field = false) (t : Fields Json) :
    Holds field (r.Absorbs field v) (r.mergeFields t e) := by
  obtain ⟨pre, post, hsplit⟩ := r.mergeFields_split hp t
  rw [hsplit]
  exact Holds.mergeFields r (r.kept_absorbs hv) (r.holds_mergeField_absorbs _ v) post

/-- A united list takes up the null of a merged entry. -/
theorem holds_mergeFields_null {e : Fields Json} (hp : (field, .null) ∈ e)
    (hdedup : r.dedup.contains field = true) (h : Holds field IsList t) :
    Holds field ListsNull (r.mergeFields t e) := by
  obtain ⟨pre, post, hsplit⟩ := r.mergeFields_split hp t
  rw [hsplit]
  refine Holds.mergeFields r r.kept_listsNull ?_ post
  obtain ⟨c, hc, -, hlist⟩ := Holds.mergeFields r r.kept_isList h pre
  simp only [UnionRule.mergeField, hc]
  exact Fields.holds_insert field (r.listsNull_mergeValue hdedup hlist) _

theorem holds_mergeFields_true {e : Fields Json} {v : Json} (hp : (field, v) ∈ e)
    (t : Fields Json) : Holds field (fun _ => True) (r.mergeFields t e) := by
  obtain ⟨pre, post, hsplit⟩ := r.mergeFields_split hp t
  rw [hsplit]
  exact Holds.mergeFields r (fun _ _ _ => trivial)
    ((r.holds_mergeField_absorbs _ v).imp fun _ _ => trivial) post

/-- Merging fields that are all absorbed changes nothing. -/
theorem mergeFields_eq_self {e : Fields Json} (h : ∀ p ∈ e, Holds p.1 (r.Absorbs p.1 p.2) t) :
    r.mergeFields t e = t := by
  induction e with
  | nil => rfl
  | cons p e ih =>
    obtain ⟨c, hc, hplace, habsorbs⟩ := h p List.mem_cons_self
    have hp : r.mergeField t p.1 p.2 = t := by
      simp only [mergeField, hc]
      rw [habsorbs, hplace]
    rw [mergeFields, List.foldl_cons, hp]
    exact ih fun q hq => h q (List.mem_cons_of_mem _ hq)

end Fields

end PlaybookEngine.UnionRule
