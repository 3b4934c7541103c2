import PlaybookEngine.Proofs.Output.Entry

namespace PlaybookEngine.UnionRule

open Fields (Holds)

variable (r : UnionRule) {existing : List Json} {id e v : Json} {field : String} {q : Json → Prop}

theorem identity?_eq_some (id e : Json) :
    r.identity? e = some id ↔ e.get? r.key = some id ∧ id ≠ .null := by
  simp only [identity?, Option.filter_eq_some_iff, Bool.not_eq_true', Bool.eq_false_iff, ne_eq,
    Json.isNull_iff]

theorem hasIdentity_iff (id t : Json) :
    r.hasIdentity id t = true ↔ ∃ j, t.get? r.key = some j ∧ (j == id) = true := by
  rw [hasIdentity]
  cases t.get? r.key with
  | none => simp
  | some j => simp

theorem hasIdentity_of_identity (h : r.identity? e = some id) : r.hasIdentity id e = true := by
  rw [hasIdentity_iff]
  exact ⟨id, ((r.identity?_eq_some id e).mp h).1, Json.beq_self id⟩

theorem obj_of_identity (h : r.identity? e = some id) : ∃ fs, e = .obj fs := by
  obtain ⟨hget, -⟩ := (r.identity?_eq_some id e).mp h
  cases e with
  | obj fs => exact ⟨fs, rfl⟩
  | _ => cases hget

theorem obj_of_hasIdentity {t : Json} (h : r.hasIdentity id t = true) : ∃ fs, t = .obj fs := by
  obtain ⟨j, hget, -⟩ := (r.hasIdentity_iff id t).mp h
  cases t with
  | obj fs => exact ⟨fs, rfl⟩
  | _ => cases hget

theorem get?_mergeFields {t fs : Fields Json} {c : Json} (hc : Fields.get? field t = some c)
    (h : ∀ p ∈ fs, p.1 = field → r.mergeValue field c p.2 = c) :
    Fields.get? field (r.mergeFields t fs) = some c := by
  induction fs generalizing t with
  | nil => exact hc
  | cons p fs ih =>
    refine ih ?_ fun p' hp' => h p' (List.mem_cons_of_mem _ hp')
    by_cases hp : p.1 = field
    · have habsorbs := h p List.mem_cons_self hp
      simp only [mergeField, hp, hc, Fields.get?_insert_self, habsorbs]
    · dsimp only [mergeField]
      split <;> rw [Fields.get?_insert_of_ne hp, hc]

/-- An identity absorbs every identity that equals it. -/
theorem mergeValue_identity {j : Json} (hid : id ≠ .null) (h : (j == id) = true) :
    r.mergeValue field j id = j := by
  rcases null_list_or_scalar j with rfl | ⟨items, rfl⟩ | ⟨hnull, harr⟩
  · exact absurd (Json.beq_null_left h) hid
  · rw [mergeValue]
    split
    · cases id with
      | arr others =>
        rw [Json.elements, addMissing_eq_self fun x hx => Json.contains_of_beqItems h hx]
      | _ => cases h
    · rfl
  · rw [r.mergeValue_scalar hnull harr]
    split
    · exact (larger_eq_left_iff j id).mpr fun x y hx hy => Json.number_of_beq h hx hy
    · rfl

theorem hasIdentity_mergeEntry {t : Json} (he : e.Ordered) (hid : r.identity? e = some id)
    (ht : r.hasIdentity id t = true) (id' : Json) :
    r.hasIdentity id' (r.mergeEntry t e) = r.hasIdentity id' t := by
  obtain ⟨fs, rfl⟩ := r.obj_of_identity hid
  obtain ⟨ts, rfl⟩ := r.obj_of_hasIdentity ht
  obtain ⟨hkey, hnull⟩ := (r.identity?_eq_some id _).mp hid
  obtain ⟨j, hj, hbeq⟩ := (r.hasIdentity_iff id _).mp ht
  have hmerged : Fields.get? r.key (r.mergeFields ts fs) = some j := by
    refine r.get?_mergeFields hj fun p hp hpkey => ?_
    have hget : Fields.get? p.1 fs = some p.2 := he.keys.get?_of_mem hp
    rw [hpkey] at hget
    obtain rfl : p.2 = id := Option.some.inj (hget.symm.trans hkey)
    exact r.mergeValue_identity hnull hbeq
  have hj' : Fields.get? r.key ts = some j := hj
  simp only [mergeEntry, hasIdentity, Json.get?, hmerged, hj']

/-- Merging into the first entry of an identity merges into the one found for it. -/
theorem find?_mergeFirst_self {t : Json} (he : e.Ordered) (hid : r.identity? e = some id)
    (h : existing.find? (r.hasIdentity id) = some t) :
    (r.mergeFirst id e existing).find? (r.hasIdentity id) = some (r.mergeEntry t e) := by
  induction existing with
  | nil => cases h
  | cons u us ih =>
    rw [mergeFirst]
    by_cases hu : r.hasIdentity id u = true
    · rw [List.find?_cons_of_pos hu] at h
      obtain rfl : u = t := Option.some.inj h
      rw [if_pos hu, List.find?_cons_of_pos (by rw [r.hasIdentity_mergeEntry he hid hu, hu])]
    · rw [List.find?_cons_of_neg hu] at h
      rw [if_neg hu, List.find?_cons_of_neg hu, ih h]

theorem find?_mergeFirst {t id' : Json} (he : e.Ordered) (hid : r.identity? e = some id)
    (h : existing.find? (r.hasIdentity id') = some t) :
    (r.mergeFirst id e existing).find? (r.hasIdentity id') = some t ∨
      (r.mergeFirst id e existing).find? (r.hasIdentity id') = some (r.mergeEntry t e) := by
  induction existing with
  | nil => cases h
  | cons u us ih =>
    rw [mergeFirst]
    by_cases hu' : r.hasIdentity id' u = true
    · rw [List.find?_cons_of_pos hu'] at h
      obtain rfl : u = t := Option.some.inj h
      split
      · rename_i hu
        refine .inr (List.find?_cons_of_pos ?_)
        rw [r.hasIdentity_mergeEntry he hid hu, hu']
      · exact .inl (List.find?_cons_of_pos hu')
    · rw [List.find?_cons_of_neg hu'] at h
      split
      · rename_i hu
        refine .inl ?_
        rw [List.find?_cons_of_neg (by rw [r.hasIdentity_mergeEntry he hid hu]; exact hu'), h]
      · rw [List.find?_cons_of_neg hu']
        exact ih h

/-- The first entry of the identity holds such a value in the field. -/
def FirstHolds (id : Json) (field : String) (q : Json → Prop) (existing : List Json) : Prop :=
  ∃ ts, existing.find? (r.hasIdentity id) = some (.obj ts) ∧ Holds field q ts

theorem FirstHolds.holds (h : r.FirstHolds id field q existing) {ts : Fields Json}
    (hfind : existing.find? (r.hasIdentity id) = some (.obj ts)) : Holds field q ts := by
  obtain ⟨ts', hfind', hts⟩ := h
  obtain rfl : ts = ts' := Json.obj.inj (Option.some.inj (hfind.symm.trans hfind'))
  exact hts

theorem FirstHolds.append (h : r.FirstHolds id field q existing) (more : List Json) :
    r.FirstHolds id field q (existing ++ more) := by
  obtain ⟨ts, hfind, hts⟩ := h
  exact ⟨ts, by rw [List.find?_append, hfind, Option.some_or], hts⟩

theorem FirstHolds.addEntry (hq : r.Kept field q) (h : r.FirstHolds id field q existing)
    (he : e.Ordered) : r.FirstHolds id field q (r.addEntry existing e) := by
  have hadd : r.FirstHolds id field q (addMissing existing [e]) := by
    rw [addMissing, List.foldl_cons, List.foldl_nil]
    split
    · exact h
    · exact h.append r [e]
  rw [UnionRule.addEntry]
  split
  · rename_i id' hid'
    split
    · obtain ⟨ts, hfind, hts⟩ := h
      obtain ⟨fs, rfl⟩ := r.obj_of_identity hid'
      rcases r.find?_mergeFirst he hid' hfind with h' | h'
      · exact ⟨ts, h', hts⟩
      · exact ⟨r.mergeFields ts fs, h', Holds.mergeFields r hq hts fs⟩
    · exact hadd
  · exact hadd

theorem FirstHolds.addEntries (hq : r.Kept field q) {es : List Json} (hes : ∀ e ∈ es, e.Ordered)
    (h : r.FirstHolds id field q existing) :
    r.FirstHolds id field q (es.foldl r.addEntry existing) := by
  induction es generalizing existing with
  | nil => exact h
  | cons e es ih =>
    exact ih (fun e' he' => hes e' (List.mem_cons_of_mem _ he'))
      (FirstHolds.addEntry r hq h (hes e List.mem_cons_self))

theorem contains_eq_false (hid : r.identity? e = some id)
    (h : existing.any (r.hasIdentity id) = false) : existing.contains e = false := by
  refine Bool.eq_false_iff.mpr fun hmem => ?_
  obtain ⟨u, hu, hbeq⟩ := List.contains_iff_exists_mem_beq.mp hmem
  obtain ⟨hget, -⟩ := (r.identity?_eq_some id e).mp hid
  rcases Json.get?_of_beq hbeq r.key with ⟨hnone, -⟩ | ⟨a, b, ha, hb, hab⟩
  · rw [hget] at hnone
    cases hnone
  · obtain rfl : id = a := Option.some.inj (hget.symm.trans ha)
    have huid : r.hasIdentity id u = true :=
      (r.hasIdentity_iff id u).mpr ⟨b, hb, Json.beq_symm _ _ hab⟩
    rw [List.any_eq_false] at h
    exact h u hu huid

/-- After an entry is added, the first one of its identity holds what merging the entry's fields
makes hold or, when there was none, what they hold. -/
theorem firstHolds_addEntry {fs : Fields Json} (he : (Json.obj fs).Ordered)
    (hid : r.identity? (.obj fs) = some id)
    (hmerge : ∀ ts, existing.find? (r.hasIdentity id) = some (.obj ts) →
      Holds field q (r.mergeFields ts fs))
    (hself : existing.find? (r.hasIdentity id) = none → Holds field q fs) :
    r.FirstHolds id field q (r.addEntry existing (.obj fs)) := by
  simp only [addEntry, hid]
  split
  · rename_i hany
    obtain ⟨t, ht⟩ : ∃ t, existing.find? (r.hasIdentity id) = some t :=
      Option.isSome_iff_exists.mp (List.find?_isSome.mpr (List.any_eq_true.mp hany))
    obtain ⟨ts, rfl⟩ := r.obj_of_hasIdentity (List.find?_some ht)
    exact ⟨_, r.find?_mergeFirst_self he hid ht, hmerge ts ht⟩
  · rename_i hany
    have hany : existing.any (r.hasIdentity id) = false := Bool.eq_false_iff.mpr hany
    have hnone : existing.find? (r.hasIdentity id) = none :=
      List.find?_eq_none.mpr (List.any_eq_false.mp hany)
    refine ⟨fs, ?_, hself hnone⟩
    rw [addMissing, List.foldl_cons, List.foldl_nil,
      if_neg (Bool.eq_false_iff.mp (r.contains_eq_false hid hany)), List.find?_append, hnone,
      Option.none_or, List.find?_cons_of_pos (r.hasIdentity_of_identity hid)]

theorem hasIdentity_eq_false {u : Json} (hnone : r.identity? e = none) (hbeq : (e == u) = true)
    (hid : id ≠ .null) : r.hasIdentity id u = false := by
  refine Bool.eq_false_iff.mpr fun hu => ?_
  obtain ⟨j, hj, hjid⟩ := (r.hasIdentity_iff id u).mp hu
  rcases Json.get?_of_beq hbeq r.key with ⟨-, hu'⟩ | ⟨a, b, ha, hb, hab⟩
  · rw [hj] at hu'
    cases hu'
  · obtain rfl : j = b := Option.some.inj (hj.symm.trans hb)
    by_cases hnull : a = .null
    · subst hnull
      obtain rfl : j = .null := Json.beq_null_left hab
      exact hid (Json.beq_null_left hjid)
    · have hsome : r.identity? e = some a := (r.identity?_eq_some a e).mpr ⟨ha, hnull⟩
      rw [hnone] at hsome
      cases hsome

theorem mem_mergeFirst {u : Json} (h : u ∈ existing) (hu : r.hasIdentity id u = false) (e : Json) :
    u ∈ r.mergeFirst id e existing := by
  induction existing with
  | nil => cases h
  | cons w ws ih =>
    rw [mergeFirst]
    rcases List.mem_cons.mp h with rfl | h
    · rw [if_neg (Bool.eq_false_iff.mp hu)]
      exact List.mem_cons_self
    · split
      · exact List.mem_cons_of_mem _ h
      · exact List.mem_cons_of_mem _ (ih h)

theorem contains_addEntry (hnone : r.identity? e = none) (h : existing.contains e = true)
    (e' : Json) : (r.addEntry existing e').contains e = true := by
  rw [addEntry]
  split
  · rename_i id hid
    split
    · obtain ⟨u, hu, hbeq⟩ := List.contains_iff_exists_mem_beq.mp h
      have hid' : id ≠ .null := ((r.identity?_eq_some id e').mp hid).2
      have hstays := r.mem_mergeFirst hu (r.hasIdentity_eq_false hnone hbeq hid') e'
      exact List.contains_iff_exists_mem_beq.mpr ⟨u, hstays, hbeq⟩
    · exact contains_addMissing_left h _
  · exact contains_addMissing_left h _

theorem contains_addEntries (hnone : r.identity? e = none) (es : List Json)
    (h : existing.contains e = true) : (es.foldl r.addEntry existing).contains e = true := by
  induction es generalizing existing with
  | nil => exact h
  | cons e' es ih => exact ih (r.contains_addEntry hnone h e')

theorem mergeFirst_eq_self {t : Json} (h : existing.find? (r.hasIdentity id) = some t)
    (hmerge : r.mergeEntry t e = t) : r.mergeFirst id e existing = existing := by
  induction existing with
  | nil => rfl
  | cons u us ih =>
    rw [mergeFirst]
    by_cases hu : r.hasIdentity id u = true
    · rw [List.find?_cons_of_pos hu] at h
      obtain rfl : u = t := Option.some.inj h
      rw [if_pos hu, hmerge]
    · rw [List.find?_cons_of_neg hu] at h
      rw [if_neg hu, ih h]

/-- Where an entry brings null for a united field, the list that the first entry of its identity
holds there after the union holds null. -/
def KeepsNulls (existing : List Json) (v : Json) : Prop :=
  ∀ e ∈ v.elements, ∀ id, r.identity? e = some id →
    ∀ field, r.dedup.contains field = true → e.get? field = some .null →
      ∀ target, (r.union existing v).find? (r.hasIdentity id) = some target →
        ∀ items, target.get? field = some (.arr items) → items.contains .null = true

/-- An entry comes after those before it, and before those after it. -/
theorem union_split (hv : v.Ordered) (he : e ∈ v.elements) (existing : List Json) :
    ∃ pre post : List Json, (∀ x ∈ pre, x.Ordered) ∧ (∀ x ∈ post, x.Ordered) ∧
      r.union existing v =
        post.foldl r.addEntry (r.addEntry (pre.foldl r.addEntry existing) e) := by
  obtain ⟨pre, post, hsplit⟩ := List.append_of_mem he
  refine ⟨pre, post, fun x hx => ?_, fun x hx => ?_, ?_⟩
  · exact hv.element (hsplit ▸ List.mem_append_left _ hx)
  · exact hv.element (hsplit ▸ List.mem_append_right _ (List.mem_cons_of_mem _ hx))
  · rw [union, hsplit, List.foldl_append, List.foldl_cons]

/-- What merging an entry makes hold in the first one of its identity, the union holds. -/
theorem firstHolds_union {fs : Fields Json} (hv : v.Ordered) (he : .obj fs ∈ v.elements)
    (hid : r.identity? (.obj fs) = some id) (hq : r.Kept field q)
    (hmerge : ∀ ts, Holds field q (r.mergeFields ts fs)) (hself : Holds field q fs) :
    r.FirstHolds id field q (r.union existing v) := by
  obtain ⟨pre, post, -, hpost, hunion⟩ := r.union_split hv he existing
  rw [hunion]
  exact FirstHolds.addEntries r hq hpost <|
    r.firstHolds_addEntry (hv.element he) hid (fun ts _ => hmerge ts) fun _ => hself

/-- A field of an entry is there in the first one of its identity. -/
theorem firstHolds_union_true {fs : Fields Json} {w : Json} (hv : v.Ordered)
    (he : .obj fs ∈ v.elements) (hid : r.identity? (.obj fs) = some id) (hp : (field, w) ∈ fs) :
    r.FirstHolds id field (fun _ => True) (r.union existing v) :=
  r.firstHolds_union hv he hid (fun _ _ _ => trivial) (r.holds_mergeFields_true hp)
    ((hv.element he).keys.holds_of_mem hp trivial)

/-- A union into entries whose first one holds a list under a united field takes up the null that
an entry brings for it. -/
theorem firstHolds_union_null {fs : Fields Json} (hv : v.Ordered) (he : .obj fs ∈ v.elements)
    (hid : r.identity? (.obj fs) = some id) (hdedup : r.dedup.contains field = true)
    (hp : (field, .null) ∈ fs) (h : r.FirstHolds id field IsList existing) :
    r.FirstHolds id field ListsNull (r.union existing v) := by
  obtain ⟨pre, post, hpre, hpost, hunion⟩ := r.union_split hv he existing
  rw [hunion]
  refine FirstHolds.addEntries r r.kept_listsNull hpost ?_
  have hlist := FirstHolds.addEntries r r.kept_isList hpre h
  refine r.firstHolds_addEntry (hv.element he) hid (fun ts hfind => ?_) fun hnone => ?_
  · exact r.holds_mergeFields_null hp hdedup (hlist.holds r hfind)
  · obtain ⟨ts, hfind, -⟩ := hlist
    rw [hfind] at hnone
    cases hnone

/-- An entry that the union has taken up is absorbed, as long as the nulls are kept. -/
theorem addEntry_union (hv : v.Ordered) (hnulls : r.KeepsNulls existing v) (he : e ∈ v.elements) :
    r.addEntry (r.union existing v) e = r.union existing v := by
  cases hid : r.identity? e with
  | none =>
    have hthere : (r.union existing v).contains e = true := by
      obtain ⟨pre, post, -, -, hunion⟩ := r.union_split hv he existing
      rw [hunion]
      refine r.contains_addEntries hid post ?_
      simp only [addEntry, hid]
      exact contains_addMissing List.mem_cons_self _
    simp only [addEntry, hid]
    refine addMissing_eq_self fun x hx => ?_
    rw [List.mem_singleton.mp hx]
    exact hthere
  | some id =>
    obtain ⟨fs, rfl⟩ := r.obj_of_identity hid
    have hfs := (hv.element he).keys
    obtain ⟨hkey, -⟩ := (r.identity?_eq_some id _).mp hid
    obtain ⟨ts, hfind, -⟩ : r.FirstHolds id r.key (fun _ => True) (r.union existing v) :=
      r.firstHolds_union_true hv he hid (Fields.mem_of_get? hkey)
    have hfields : ∀ p ∈ fs, Holds p.1 (r.Absorbs p.1 p.2) ts := by
      rintro ⟨field, w⟩ hp
      by_cases hnull : w = .null → r.dedup.contains field = false
      · have hfirst : r.FirstHolds id field (r.Absorbs field w) (r.union existing v) :=
          r.firstHolds_union hv he hid (r.kept_absorbs hnull)
            (r.holds_mergeFields_absorbs hp hnull) (hfs.holds_of_mem hp (r.absorbs_self w))
        exact hfirst.holds r hfind
      · obtain ⟨rfl, hdedup⟩ := Classical.not_imp.mp hnull
        rw [Bool.not_eq_false] at hdedup
        have hfirst : r.FirstHolds id field (fun _ => True) (r.union existing v) :=
          r.firstHolds_union_true hv he hid hp
        obtain ⟨c, hc, hplace, -⟩ := hfirst.holds r hfind
        refine ⟨c, hc, hplace, r.absorbs_null_of_listsNull ?_⟩
        rintro ⟨items, rfl⟩
        exact ⟨items, rfl, hnulls _ he id hid field hdedup (hfs.get?_of_mem hp) _ hfind items hc⟩
    have hmerge : r.mergeEntry (.obj ts) (.obj fs) = .obj ts :=
      congrArg Json.obj (r.mergeFields_eq_self hfields)
    have hany : (r.union existing v).any (r.hasIdentity id) = true :=
      List.any_eq_true.mpr ⟨_, List.mem_of_find?_eq_some hfind, List.find?_some hfind⟩
    simp only [addEntry, hid, if_pos hany]
    exact r.mergeFirst_eq_self hfind hmerge

/-- The union with a value is the same after a second time iff it keeps the value's nulls. -/
theorem union_union_iff (existing : List Json) (hv : v.Ordered) :
    r.union (r.union existing v) v = r.union existing v ↔ r.KeepsNulls existing v := by
  constructor
  · intro hsame e he id hid field hdedup hnull target htarget items hitems
    obtain ⟨fs, rfl⟩ := r.obj_of_identity hid
    have hp : (field, .null) ∈ fs := Fields.mem_of_get? hnull
    obtain ⟨ts, hfind, c, hc, hplace, -⟩ :
        r.FirstHolds id field (fun _ => True) (r.union existing v) :=
      r.firstHolds_union_true hv he hid hp
    obtain rfl : target = .obj ts := Option.some.inj (htarget.symm.trans hfind)
    obtain rfl : c = .arr items := Option.some.inj (hc.symm.trans hitems)
    have hlist : r.FirstHolds id field IsList (r.union existing v) :=
      ⟨ts, hfind, _, hc, hplace, items, rfl⟩
    have hagain := r.firstHolds_union_null hv he hid hdedup hp hlist
    rw [hsame] at hagain
    obtain ⟨c, hc', -, items', rfl, hmem⟩ := hagain.holds r hfind
    obtain rfl : items = items' := Json.arr.inj (Option.some.inj (hc.symm.trans hc'))
    exact hmem
  · intro hnulls
    have absorbed (es : List Json) (hes : ∀ e ∈ es, e ∈ v.elements) :
        es.foldl r.addEntry (r.union existing v) = r.union existing v := by
      induction es with
      | nil => rfl
      | cons e es ih =>
        rw [List.foldl_cons, r.addEntry_union hv hnulls (hes e List.mem_cons_self)]
        exact ih fun e' he' => hes e' (List.mem_cons_of_mem _ he')
    exact absorbed v.elements fun _ he => he

end PlaybookEngine.UnionRule
