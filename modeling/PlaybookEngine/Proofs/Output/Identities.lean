import PlaybookEngine.Proofs.Output.Aggregation
import Mathlib.Data.List.Forall2

namespace PlaybookEngine.UnionRule

open List (Forall₂)

variable (r : UnionRule) {existing es : List Json} {e t : Json}

/-- Two entries with one identity, or equal ones without any. -/
def same (a b : Json) : Bool :=
  match r.identity? a, r.identity? b with
  | some i, some j => i == j
  | none, none => a == b
  | _, _ => false

def Distinct (entries : List Json) : Prop := entries.Pairwise fun a b => r.same a b = false

/-- A value that is neither null, nor the number to be kept largest, nor a list to be united is
kept, and a list to be united is continued. -/
def Carries (field : String) (w w' : Json) : Prop :=
  (w ≠ .null → r.max ≠ some field → ¬(r.dedup.contains field = true ∧ IsList w) → w' = w) ∧
    ∀ items, w = .arr items → r.dedup.contains field = true → ∃ more, w' = .arr (items ++ more)

/-- The entry has the identity of an earlier state of it and carries each of its fields; without an
identity it has not changed. -/
structure Grows (old new : Json) : Prop where
  identity : r.identity? new = r.identity? old
  unidentified : r.identity? old = none → new = old
  carries : ∀ field w, old.get? field = some w →
    ∃ w', new.get? field = some w' ∧ r.Carries field w w'

/-- The entry stands for an incoming one and has all its fields. -/
def Represents (t e : Json) : Prop :=
  r.same t e = true ∧ ∀ field, (e.get? field).isSome → (t.get? field).isSome

/-- The incoming entries that are neither there nor came before. -/
def newcomers (seen : List Json) : List Json → List Json
  | [] => []
  | e :: es =>
    if seen.any (r.same · e) then newcomers seen es else e :: newcomers (seen ++ [e]) es

theorem addMissing_eq_append (items vs : List Json) :
    ∃ more, addMissing items vs = items ++ more := by
  induction vs generalizing items with
  | nil => exact ⟨[], (List.append_nil items).symm⟩
  | cons v vs ih =>
    rw [addMissing, List.foldl_cons]
    split
    · exact ih items
    · obtain ⟨more, hmore⟩ := ih (items ++ [v])
      exact ⟨v :: more, hmore.trans (List.append_cons items v more).symm⟩

theorem carries_refl (field : String) (w : Json) : r.Carries field w w :=
  ⟨fun _ _ _ => rfl, fun items h _ => ⟨[], by rw [List.append_nil, h]⟩⟩

theorem Carries.trans {field : String} {a b c : Json} (hab : r.Carries field a b)
    (hbc : r.Carries field b c) : r.Carries field a c := by
  constructor
  · intro hnull hmax hlist
    obtain rfl : b = a := hab.1 hnull hmax hlist
    exact hbc.1 hnull hmax hlist
  · intro items hitems hdedup
    obtain ⟨more, hmore⟩ := hab.2 items hitems hdedup
    obtain ⟨rest, hrest⟩ := hbc.2 _ hmore hdedup
    exact ⟨more ++ rest, by rw [hrest, List.append_assoc]⟩

theorem carries_mergeValue (field : String) (c v : Json) :
    r.Carries field c (r.mergeValue field c v) := by
  rcases null_list_or_scalar c with rfl | ⟨items, rfl⟩ | ⟨hnull, harr⟩
  · exact ⟨fun h => absurd rfl h, nofun⟩
  · rw [mergeValue]
    split
    · rename_i hdedup
      obtain ⟨more, hmore⟩ := addMissing_eq_append items v.elements
      rw [hmore]
      refine ⟨fun _ _ h => absurd ⟨hdedup, items, rfl⟩ h, fun items' h _ => ?_⟩
      obtain rfl : items = items' := Json.arr.inj h
      exact ⟨more, rfl⟩
    · exact r.carries_refl field _
  · rw [r.mergeValue_scalar hnull harr]
    refine ⟨fun _ hmax _ => if_neg hmax, fun items h _ => ?_⟩
    subst h
    cases harr

theorem carries_mergeField {field : String} {t : Fields Json} {w : Json}
    (hw : Fields.get? field t = some w) (k : String) (v : Json) :
    ∃ w', Fields.get? field (r.mergeField t k v) = some w' ∧ r.Carries field w w' := by
  by_cases hk : k = field
  · subst hk
    refine ⟨r.mergeValue k w v, ?_, r.carries_mergeValue k w v⟩
    simp only [mergeField, hw, Fields.get?_insert_self]
  · refine ⟨w, ?_, r.carries_refl field w⟩
    dsimp only [mergeField]
    split <;> rw [Fields.get?_insert_of_ne hk, hw]

theorem carries_mergeFields {field : String} {t : Fields Json} {w : Json}
    (hw : Fields.get? field t = some w) (fs : Fields Json) :
    ∃ w', Fields.get? field (r.mergeFields t fs) = some w' ∧ r.Carries field w w' := by
  induction fs generalizing t w with
  | nil => exact ⟨w, hw, r.carries_refl field w⟩
  | cons p fs ih =>
    obtain ⟨w₁, hw₁, hcarries₁⟩ := r.carries_mergeField hw p.1 p.2
    obtain ⟨w₂, hw₂, hcarries₂⟩ := ih hw₁
    exact ⟨w₂, hw₂, Carries.trans r hcarries₁ hcarries₂⟩

theorem grows_refl (t : Json) : r.Grows t t :=
  ⟨rfl, fun _ => rfl, fun field w hw => ⟨w, hw, r.carries_refl field w⟩⟩

theorem Grows.trans {a b c : Json} (hab : r.Grows a b) (hbc : r.Grows b c) : r.Grows a c where
  identity := hbc.identity.trans hab.identity
  unidentified h := by
    have hb : r.identity? b = none := hab.identity.trans h
    exact (hbc.unidentified hb).trans (hab.unidentified h)
  carries field w hw := by
    obtain ⟨w₁, hw₁, hcarries₁⟩ := hab.carries field w hw
    obtain ⟨w₂, hw₂, hcarries₂⟩ := hbc.carries field w₁ hw₁
    exact ⟨w₂, hw₂, Carries.trans r hcarries₁ hcarries₂⟩

/-- The identity that an entry is merged by is one that it has itself. -/
theorem identity?_of_hasIdentity {id : Json} (hid : id ≠ .null) (ht : r.hasIdentity id t = true) :
    ∃ j, r.identity? t = some j ∧ (j == id) = true := by
  obtain ⟨j, hj, hbeq⟩ := (r.hasIdentity_iff id t).mp ht
  refine ⟨j, (r.identity?_eq_some j t).mpr ⟨hj, ?_⟩, hbeq⟩
  rintro rfl
  exact hid (Json.beq_null_left hbeq)

theorem same_eq_hasIdentity {id : Json} (hid : r.identity? e = some id) (t : Json) :
    r.same t e = r.hasIdentity id t := by
  have hnull : id ≠ .null := ((r.identity?_eq_some id e).mp hid).2
  cases ht : r.hasIdentity id t with
  | true =>
    obtain ⟨j, hj, hbeq⟩ := r.identity?_of_hasIdentity hnull ht
    simp only [same, hj, hid, hbeq]
  | false =>
    cases hj : r.identity? t with
    | none => simp only [same, hj, hid]
    | some j =>
      simp only [same, hj, hid]
      refine Bool.eq_false_iff.mpr fun hbeq => Bool.eq_false_iff.mp ht ?_
      exact (r.hasIdentity_iff id t).mpr ⟨j, ((r.identity?_eq_some j t).mp hj).1, hbeq⟩

theorem same_eq_beq (he : r.identity? e = none) (t : Json) :
    r.same t e = true ↔ r.identity? t = none ∧ (t == e) = true := by
  cases ht : r.identity? t with
  | none => simp only [same, ht, he, true_and]
  | some j => simp [same, ht, he]

/-- Merging an entry into one of its identity lets that one grow. -/
theorem grows_mergeEntry {id : Json} (he : e.Ordered) (hid : r.identity? e = some id)
    (ht : r.hasIdentity id t = true) : r.Grows t (r.mergeEntry t e) := by
  obtain ⟨fs, rfl⟩ := r.obj_of_identity hid
  obtain ⟨ts, rfl⟩ := r.obj_of_hasIdentity ht
  obtain ⟨hkey, hnull⟩ := (r.identity?_eq_some id _).mp hid
  obtain ⟨j, hj, hbeq⟩ := r.identity?_of_hasIdentity hnull ht
  obtain ⟨hjkey, hjnull⟩ := (r.identity?_eq_some j _).mp hj
  have hmerged : Fields.get? r.key (r.mergeFields ts fs) = some j := by
    refine r.get?_mergeFields hjkey fun p hp hpkey => ?_
    have hget : Fields.get? p.1 fs = some p.2 := he.keys.get?_of_mem hp
    rw [hpkey] at hget
    obtain rfl : p.2 = id := Option.some.inj (hget.symm.trans hkey)
    exact r.mergeValue_identity hnull hbeq
  refine ⟨?_, fun hnone => ?_, fun field w hw => r.carries_mergeFields hw fs⟩
  · rw [hj]
    exact (r.identity?_eq_some j _).mpr ⟨hmerged, hjnull⟩
  · rw [hj] at hnone
    cases hnone

theorem represents_mergeEntry {id : Json} (he : e.Ordered) (hid : r.identity? e = some id)
    (ht : r.hasIdentity id t = true) : r.Represents (r.mergeEntry t e) e := by
  constructor
  · rw [r.same_eq_hasIdentity hid, r.hasIdentity_mergeEntry he hid ht, ht]
  · obtain ⟨fs, rfl⟩ := r.obj_of_identity hid
    obtain ⟨ts, rfl⟩ := r.obj_of_hasIdentity ht
    intro field hfield
    obtain ⟨w, hw⟩ := Option.isSome_iff_exists.mp hfield
    obtain ⟨c, hc, -, -⟩ := r.holds_mergeFields_true (Fields.mem_of_get? hw) ts
    exact Option.isSome_iff_exists.mpr ⟨c, hc⟩

theorem grows_mergeFirst {id : Json} (he : e.Ordered) (hid : r.identity? e = some id)
    (existing : List Json) : Forall₂ r.Grows existing (r.mergeFirst id e existing) := by
  induction existing with
  | nil => exact .nil
  | cons u us ih =>
    rw [mergeFirst]
    split
    · rename_i hu
      exact .cons (r.grows_mergeEntry he hid hu) (List.forall₂_same.mpr fun w _ => r.grows_refl w)
    · exact .cons (r.grows_refl u) ih

/-- An entry that is there already: the list grows entry by entry, and one stands for it. -/
theorem addEntry_of_known (he : e.Ordered) (hknown : existing.any (r.same · e) = true) :
    Forall₂ r.Grows existing (r.addEntry existing e) ∧
      ∃ t ∈ r.addEntry existing e, r.Represents t e := by
  cases hid : r.identity? e with
  | some id =>
    have hany : existing.any (r.hasIdentity id) = true := by
      simpa only [r.same_eq_hasIdentity hid] using hknown
    obtain ⟨t, hfind⟩ := Option.isSome_iff_exists.mp
      (List.find?_isSome.mpr (List.any_eq_true.mp hany))
    have hmerged := r.find?_mergeFirst_self he hid hfind
    simp only [addEntry, hid, if_pos hany]
    exact ⟨r.grows_mergeFirst he hid existing, _, List.mem_of_find?_eq_some hmerged,
      r.represents_mergeEntry he hid (List.find?_some hfind)⟩
  | none =>
    obtain ⟨t, ht, hsame⟩ := List.any_eq_true.mp hknown
    obtain ⟨-, hbeq⟩ := (r.same_eq_beq hid t).mp hsame
    have hcontains : existing.contains e = true :=
      List.contains_iff_exists_mem_beq.mpr ⟨t, ht, Json.beq_symm _ _ hbeq⟩
    have hself : addMissing existing [e] = existing :=
      addMissing_eq_self fun x hx => by rw [List.mem_singleton.mp hx]; exact hcontains
    simp only [addEntry, hid, hself]
    refine ⟨List.forall₂_same.mpr fun w _ => r.grows_refl w, t, ht, hsame, fun field hfield => ?_⟩
    rcases Json.get?_of_beq hbeq field with ⟨-, hnone⟩ | ⟨a, b, ha, -, -⟩
    · rw [hnone] at hfield
      cases hfield
    · rw [ha]
      rfl

/-- An entry that is not there is appended. -/
theorem addEntry_of_new (hnew : existing.any (r.same · e) = false) :
    r.addEntry existing e = existing ++ [e] := by
  have hadd (hcontains : existing.contains e = false) :
      addMissing existing [e] = existing ++ [e] := by
    rw [addMissing, List.foldl_cons, List.foldl_nil, if_neg (Bool.eq_false_iff.mp hcontains)]
  cases hid : r.identity? e with
  | some id =>
    have hany : existing.any (r.hasIdentity id) = false := by
      simpa only [r.same_eq_hasIdentity hid] using hnew
    simp only [addEntry, hid, hany, Bool.false_eq_true, if_false]
    exact hadd (r.contains_eq_false hid hany)
  | none =>
    simp only [addEntry, hid]
    refine hadd (Bool.eq_false_iff.mpr fun hcontains => ?_)
    obtain ⟨t, ht, hbeq⟩ := List.contains_iff_exists_mem_beq.mp hcontains
    refine List.any_eq_false.mp hnew t ht ((r.same_eq_beq hid t).mpr ⟨?_, Json.beq_symm _ _ hbeq⟩)
    cases hj : r.identity? t with
    | none => rfl
    | some j =>
      have hdiffer := r.hasIdentity_eq_false hid hbeq ((r.identity?_eq_some j t).mp hj).2
      rw [r.hasIdentity_of_identity hj] at hdiffer
      cases hdiffer

theorem represents_self (e : Json) : r.Represents e e := by
  refine ⟨?_, fun _ h => h⟩
  cases hid : r.identity? e <;> simp [same, hid]

theorem Grows.same_left {a a' : Json} (ha : r.Grows a a') (b : Json) :
    r.same a' b = r.same a b := by
  cases hid : r.identity? a with
  | none => rw [ha.unidentified hid]
  | some i =>
    simp only [same, ha.identity, hid]
    cases r.identity? b <;> rfl

theorem Grows.same_right {b b' : Json} (hb : r.Grows b b') (a : Json) :
    r.same a b' = r.same a b := by
  cases hid : r.identity? b with
  | none => rw [hb.unidentified hid]
  | some i =>
    simp only [same, hb.identity, hid]
    cases r.identity? a <;> rfl

theorem Grows.represents {t t' : Json} (ht : r.Grows t t') (he : r.Represents t e) :
    r.Represents t' e := by
  refine ⟨(ht.same_left r e).trans he.1, fun field hfield => ?_⟩
  obtain ⟨w, hw⟩ := Option.isSome_iff_exists.mp (he.2 field hfield)
  obtain ⟨w', hw', -⟩ := ht.carries field w hw
  exact Option.isSome_iff_exists.mpr ⟨w', hw'⟩

/-- Growing entry by entry, a list knows the same entries. -/
theorem any_same_of_grows {xs ys : List Json} (h : Forall₂ r.Grows xs ys) (e : Json) :
    ys.any (r.same · e) = xs.any (r.same · e) := by
  induction h with
  | nil => rfl
  | cons hxy _ ih => rw [List.any_cons, List.any_cons, ih, hxy.same_left r e]

theorem same_false_of_grows {xs ys : List Json} (h : Forall₂ r.Grows xs ys) {a : Json}
    (ha : ∀ x ∈ xs, r.same a x = false) : ∀ y ∈ ys, r.same a y = false := by
  induction h with
  | nil => exact fun y hy => absurd hy List.not_mem_nil
  | cons hxy _ ih =>
    intro y hy
    rcases List.mem_cons.mp hy with rfl | hy
    · rw [hxy.same_right r a]
      exact ha _ List.mem_cons_self
    · exact ih (fun x hx => ha x (List.mem_cons_of_mem _ hx)) y hy

theorem Distinct.grows {xs ys : List Json} (hxs : r.Distinct xs) (h : Forall₂ r.Grows xs ys) :
    r.Distinct ys := by
  induction h with
  | nil => exact .nil
  | cons hxy hrest ih =>
    obtain ⟨hhead, htail⟩ := List.pairwise_cons.mp hxs
    refine List.pairwise_cons.mpr ⟨fun y hy => ?_, ih htail⟩
    rw [hxy.same_left r y]
    exact r.same_false_of_grows hrest hhead y hy

theorem Distinct.newcomers (h : r.Distinct existing) (es : List Json) :
    r.Distinct (existing ++ r.newcomers existing es) := by
  induction es generalizing existing with
  | nil =>
    rw [UnionRule.newcomers, List.append_nil]
    exact h
  | cons e es ih =>
    rw [UnionRule.newcomers]
    split
    · exact ih h
    · rename_i hnew
      rw [List.append_cons]
      refine ih (List.pairwise_append.mpr ⟨h, List.pairwise_singleton _ _, fun x hx y hy => ?_⟩)
      rw [List.mem_singleton.mp hy]
      exact Bool.eq_false_iff.mpr (List.any_eq_false.mp (Bool.eq_false_iff.mpr hnew) x hx)

theorem newcomers_sublist (seen es : List Json) : (r.newcomers seen es).Sublist es := by
  induction es generalizing seen with
  | nil => exact .slnil
  | cons e es ih =>
    rw [newcomers]
    split
    · exact (ih seen).cons e
    · exact (ih _).cons_cons e

theorem exists_represents_of_grows {xs ys : List Json} (h : Forall₂ r.Grows xs ys)
    (he : ∃ x ∈ xs, r.Represents x e) : ∃ y ∈ ys, r.Represents y e := by
  induction h with
  | nil =>
    obtain ⟨x, hx, -⟩ := he
    cases hx
  | cons hxy _ ih =>
    obtain ⟨x, hx, hrep⟩ := he
    rcases List.mem_cons.mp hx with rfl | hx
    · exact ⟨_, List.mem_cons_self, hxy.represents r hrep⟩
    · obtain ⟨y, hy, hrep⟩ := ih ⟨x, hx, hrep⟩
      exact ⟨y, List.mem_cons_of_mem _ hy, hrep⟩

theorem grows_trans_all {xs ys zs : List Json} (hxy : Forall₂ r.Grows xs ys)
    (hyz : Forall₂ r.Grows ys zs) : Forall₂ r.Grows xs zs := by
  induction hxy generalizing zs with
  | nil => exact hyz
  | cons hab _ ih =>
    cases hyz with
    | cons hbc hrest => exact .cons (hab.trans r hbc) (ih hrest)

/-- However many entries are added, what was seen grows, the newcomers behind it. -/
theorem grows_addEntries {seen : List Json} (hes : ∀ e ∈ es, e.Ordered)
    (h : Forall₂ r.Grows seen existing) :
    Forall₂ r.Grows (seen ++ r.newcomers seen es) (es.foldl r.addEntry existing) := by
  induction es generalizing seen existing with
  | nil =>
    rw [newcomers, List.append_nil]
    exact h
  | cons e es ih =>
    have hrest : ∀ e' ∈ es, e'.Ordered := fun e' he' => hes e' (List.mem_cons_of_mem _ he')
    have hknown := r.any_same_of_grows h e
    rw [newcomers, List.foldl_cons]
    split
    · rename_i hseen
      have hadd := r.addEntry_of_known (hes e List.mem_cons_self) (hknown.trans hseen)
      exact ih hrest (r.grows_trans_all h hadd.1)
    · rename_i hseen
      rw [r.addEntry_of_new (hknown.trans (Bool.eq_false_iff.mpr hseen)), List.append_cons]
      exact ih hrest (List.rel_append h (.cons (r.grows_refl e) .nil))

theorem represented_addEntry (he : e.Ordered) (existing : List Json) :
    ∃ t ∈ r.addEntry existing e, r.Represents t e := by
  cases hknown : existing.any (r.same · e) with
  | true => exact (r.addEntry_of_known he hknown).2
  | false =>
    rw [r.addEntry_of_new hknown]
    exact ⟨e, List.mem_append_right _ List.mem_cons_self, r.represents_self e⟩

/-- Every entry that was added is represented in the end. -/
theorem represented_addEntries (hes : ∀ e ∈ es, e.Ordered) (he : e ∈ es) (existing : List Json) :
    ∃ t ∈ es.foldl r.addEntry existing, r.Represents t e := by
  induction es generalizing existing with
  | nil => cases he
  | cons e' es ih =>
    have hrest : ∀ x ∈ es, x.Ordered := fun x hx => hes x (List.mem_cons_of_mem _ hx)
    rw [List.foldl_cons]
    rcases List.mem_cons.mp he with rfl | he
    · obtain ⟨t, ht, hrep⟩ := r.represented_addEntry (hes e List.mem_cons_self) existing
      have hgrows := r.grows_addEntries hrest
        (List.forall₂_same.mpr fun w (_ : w ∈ r.addEntry existing e) => r.grows_refl w)
      exact r.exists_represents_of_grows hgrows ⟨t, List.mem_append_left _ ht, hrep⟩
    · exact ih hrest he _

/-- Of entries that are told apart, the union keeps the old ones in place and has the newcomers
behind them, all grown by what came in; they are told apart still, and one of them stands for each
incoming entry. -/
theorem union_keeps_identities {v : Json} (hdistinct : r.Distinct existing) (hv : v.Ordered) :
    r.Distinct (r.union existing v) ∧
      (r.newcomers existing v.elements).Sublist v.elements ∧
        Forall₂ r.Grows (existing ++ r.newcomers existing v.elements) (r.union existing v) ∧
          ∀ e ∈ v.elements, ∃ t ∈ r.union existing v, r.Represents t e := by
  have hes : ∀ e ∈ v.elements, e.Ordered := fun e he => hv.element he
  have hgrows : Forall₂ r.Grows (existing ++ r.newcomers existing v.elements)
      (r.union existing v) :=
    r.grows_addEntries hes (List.forall₂_same.mpr fun w _ => r.grows_refl w)
  refine ⟨?_, r.newcomers_sublist existing v.elements, hgrows, fun e he => ?_⟩
  · exact Distinct.grows r (Distinct.newcomers r hdistinct v.elements) hgrows
  · exact r.represented_addEntries hes he existing

/-- A claim and a remark meet the same claim twice, another remark twice and the first one again. -/
theorem claims_and_remarks_kept :
    let existing : List Json := [Aggregation.claim (.arr [.str "a"]), .str "draft"]
    let incoming : List Json := [Aggregation.claim (.arr [.str "b"]), .str "note",
      Aggregation.claim (.arr [.str "a", .str "c"]), .str "draft", .str "note"]
    Aggregation.claimsRule.Distinct existing ∧
      Aggregation.claimsRule.Distinct (Aggregation.claimsRule.union existing (.arr incoming)) ∧
        Forall₂ Aggregation.claimsRule.Grows (existing ++ [.str "note"])
          (Aggregation.claimsRule.union existing (.arr incoming)) ∧
          ∀ e ∈ incoming, ∃ t ∈ Aggregation.claimsRule.union existing (.arr incoming),
            Aggregation.claimsRule.Represents t e := by
  intro existing incoming
  have distinct : Aggregation.claimsRule.Distinct existing := List.pairwise_pair.mpr rfl
  have strings (ss : List String) : (Json.arr (ss.map .str)).Ordered := by
    refine Json.ordered_arr fun v hv => ?_
    obtain ⟨s, -, rfl⟩ := List.mem_map.mp hv
    exact Json.ordered_str s
  have ordered : (Json.arr incoming).Ordered := by
    refine Json.ordered_arr ?_
    simp only [incoming, List.forall_mem_cons]
    exact ⟨Aggregation.ordered_claim (strings ["b"]), Json.ordered_str _,
      Aggregation.ordered_claim (strings ["a", "c"]), Json.ordered_str _,
      Json.ordered_str _, nofun⟩
  obtain ⟨hdistinct, -, hgrows, hrepresented⟩ :=
    Aggregation.claimsRule.union_keeps_identities distinct ordered
  exact ⟨distinct, hdistinct, hgrows, hrepresented⟩

end PlaybookEngine.UnionRule
