import PlaybookEngine.Output.Aggregation
import PlaybookEngine.Proofs.Output.Union

namespace PlaybookEngine

namespace UnionRule

/-- A value whose entries bring no null for a united field loses none. -/
theorem keepsNulls_of_no_null (r : UnionRule) (existing : List Json) {v : Json}
    (h : ∀ e ∈ v.elements, ∀ field, r.dedup.contains field = true → e.get? field ≠ some .null) :
    r.KeepsNulls existing v := by
  intro e he _ _ field hdedup hnull
  exact absurd hnull (h e he field hdedup)

end UnionRule

namespace Aggregation

open Fields (get? insert Holds)

variable (schema : Fields OutputField) {merged fields : Fields Json} {name : String} {v : Json}

/-- The list under a name; anything else counts as an empty one. -/
def listUnder (merged : Fields Json) (name : String) : List Json :=
  ((get? name merged).bind Json.arr?).getD []

theorem listUnder_of_arr {items : List Json} (h : get? name merged = some (.arr items)) :
    listUnder merged name = items := by
  rw [listUnder, h]
  rfl

/-- The value that a further one leaves under a name, none when it is not merged. -/
def placed? (merged : Fields Json) (name : String) (v : Json) : Option Json :=
  match (get? name schema).map OutputField.merge with
  | some (.unionByKey key dedup max) =>
    some (.arr (UnionRule.union ⟨key, dedup, max⟩ (listUnder merged name) v))
  | some (.reduce _ _) => none
  | _ => some v

theorem mergeField_eq : mergeField schema merged name v =
    match placed? schema merged name v with
    | some w => insert name w merged
    | none => merged := by
  rw [mergeField, placed?]
  cases (get? name schema).map OutputField.merge with
  | none => rfl
  | some policy => cases policy <;> rfl

theorem mergeField_of_placed {w : Json} (h : placed? schema merged name v = some w) :
    mergeField schema merged name v = insert name w merged := by
  rw [mergeField_eq, h]

theorem mergeField_of_not_placed (h : placed? schema merged name v = none) :
    mergeField schema merged name v = merged := by
  rw [mergeField_eq, h]

/-- What a value leaves depends on what stands under its own name only. -/
theorem placed?_congr {merged' : Fields Json} (h : get? name merged' = get? name merged)
    (v : Json) : placed? schema merged' name v = placed? schema merged name v := by
  simp only [placed?, listUnder, h]

theorem get?_mergeField_of_ne {k : String} (hne : k ≠ name) (merged : Fields Json) (v : Json) :
    get? k (mergeField schema merged name v) = get? k merged := by
  cases hplaced : placed? schema merged name v with
  | some w => rw [mergeField_of_placed schema hplaced, Fields.get?_insert_of_ne hne.symm]
  | none => rw [mergeField_of_not_placed schema hplaced]

theorem Holds.mergeField {k : String} {q : Json → Prop} (h : Holds k q merged) (hne : k ≠ name)
    (v : Json) : Holds k q (mergeField schema merged name v) := by
  cases hplaced : placed? schema merged name v with
  | some w =>
    rw [mergeField_of_placed schema hplaced]
    exact h.insert hne w
  | none =>
    rw [mergeField_of_not_placed schema hplaced]
    exact h

theorem get?_mergeFields_of_ne (h : ∀ p ∈ fields, name ≠ p.1) (merged : Fields Json) :
    get? name (mergeFields schema merged fields) = get? name merged := by
  induction fields generalizing merged with
  | nil => rfl
  | cons p fields ih =>
    rw [mergeFields, List.foldl_cons]
    refine (ih (fun p' hp' => h p' (List.mem_cons_of_mem _ hp')) _).trans ?_
    split
    · rfl
    · exact get?_mergeField_of_ne schema (h p List.mem_cons_self) merged p.2

theorem Holds.mergeFields {q : Json → Prop} (h : Holds name q merged)
    (hne : ∀ p ∈ fields, name ≠ p.1) : Holds name q (mergeFields schema merged fields) := by
  induction fields generalizing merged with
  | nil => exact h
  | cons p fields ih =>
    rw [Aggregation.mergeFields, List.foldl_cons]
    refine ih ?_ fun p' hp' => hne p' (List.mem_cons_of_mem _ hp')
    split
    · exact h
    · exact Holds.mergeField schema h (hne p List.mem_cons_self) p.2

/-- After the fields of an output are merged, each holds what merging it alone leaves. -/
theorem holds_mergeFields (hfields : Fields.Ordered fields) (hp : (name, v) ∈ fields)
    (hv : v ≠ .null) {w : Json} (hplaced : placed? schema merged name v = some w) :
    Holds name (· = w) (mergeFields schema merged fields) := by
  obtain ⟨pre, post, rfl⟩ := List.append_of_mem hp
  obtain ⟨hpre, hpost⟩ := hfields.ne_of_mem_append
  have hbefore := get?_mergeFields_of_ne schema hpre merged
  have hnull : ¬ v.isNull = true := fun h => hv ((Json.isNull_iff v).mp h)
  have hsplit : mergeFields schema merged (pre ++ (name, v) :: post) =
      mergeFields schema (mergeField schema (mergeFields schema merged pre) name v) post := by
    simp only [mergeFields, List.foldl_append, List.foldl_cons, if_neg hnull]
  rw [hsplit]
  refine Holds.mergeFields schema ?_ hpost
  rw [mergeField_of_placed schema ((placed?_congr schema hbefore v).trans hplaced)]
  exact Fields.holds_insert name (q := (· = w)) rfl _

/-- Merging fields each of which leaves what is there changes nothing. -/
theorem mergeFields_eq_self (h : ∀ p ∈ fields, p.2 ≠ .null → ∀ w,
      placed? schema merged p.1 p.2 = some w → Holds p.1 (· = w) merged) :
    mergeFields schema merged fields = merged := by
  induction fields with
  | nil => rfl
  | cons p fields ih =>
    have hp : (if p.2.isNull then merged else mergeField schema merged p.1 p.2) = merged := by
      split
      · rfl
      · rename_i hnull
        have hv : p.2 ≠ .null := fun hv => hnull ((Json.isNull_iff p.2).mpr hv)
        cases hplaced : placed? schema merged p.1 p.2 with
        | none => exact mergeField_of_not_placed schema hplaced
        | some w =>
          obtain ⟨c, -, hplace, rfl⟩ := h p List.mem_cons_self hv w hplaced
          rw [mergeField_of_placed schema hplaced, hplace]
    rw [mergeFields, List.foldl_cons, hp]
    exact ih fun p' hp' => h p' (List.mem_cons_of_mem _ hp')

theorem placed?_union {r : UnionRule}
    (hpolicy : (get? name schema).map OutputField.merge = some (.unionByKey r.key r.dedup r.max))
    (merged : Fields Json) (v : Json) :
    placed? schema merged name v = some (.arr (r.union (listUnder merged name) v)) := by
  simp only [placed?, hpolicy]

/-- A value that is placed is united, or it takes the place of whatever stands there. -/
theorem placed?_cases {w : Json} (h : placed? schema merged name v = some w) :
    (∃ r : UnionRule,
      (get? name schema).map OutputField.merge = some (.unionByKey r.key r.dedup r.max) ∧
        w = .arr (r.union (listUnder merged name) v)) ∨
      w = v ∧ ∀ merged', placed? schema merged' name v = some v := by
  unfold placed? at h ⊢
  generalize (get? name schema).map OutputField.merge = policy? at h ⊢
  cases policy? with
  | none => exact .inr ⟨(Option.some.inj h).symm, fun _ => rfl⟩
  | some policy =>
    cases policy with
    | overwriteLast => exact .inr ⟨(Option.some.inj h).symm, fun _ => rfl⟩
    | unionByKey key dedup max => exact .inl ⟨⟨key, dedup, max⟩, rfl, (Option.some.inj h).symm⟩
    | reduce reducer source => cases h

/-- The united fields of an output keep their nulls. -/
def KeepsNulls (a : Aggregation) (o : Json) : Prop :=
  ∀ name v, o.get? name = some v → v ≠ .null → ∀ r : UnionRule,
    (get? name schema).map OutputField.merge = some (.unionByKey r.key r.dedup r.max) →
      r.KeepsNulls (listUnder a.merged name) v

theorem mergeFields_again_iff (hfields : (Json.obj fields).Ordered) (a : Aggregation) :
    mergeFields schema (mergeFields schema a.merged fields) fields =
        mergeFields schema a.merged fields ↔
      KeepsNulls schema a (.obj fields) := by
  constructor
  · intro hsame name v hget hv r hpolicy
    have hp : (name, v) ∈ fields := Fields.mem_of_get? hget
    obtain ⟨_, hfirst, -, rfl⟩ :=
      holds_mergeFields schema hfields.keys hp hv (placed?_union schema hpolicy a.merged v)
    obtain ⟨_, hsecond, -, rfl⟩ := holds_mergeFields schema hfields.keys hp hv
      (placed?_union schema hpolicy (mergeFields schema a.merged fields) v)
    rw [hsame, hfirst, listUnder_of_arr hfirst, Option.some.injEq, Json.arr.injEq] at hsecond
    exact (r.union_union_iff _ (hfields.value hp)).mp hsecond.symm
  · intro hnulls
    refine mergeFields_eq_self schema ?_
    rintro ⟨name, v⟩ hp hv w hplaced
    have held {w' : Json} (h : placed? schema a.merged name v = some w') :
        Holds name (· = w') (mergeFields schema a.merged fields) :=
      holds_mergeFields schema hfields.keys hp hv h
    rcases placed?_cases schema hplaced with ⟨r, hpolicy, rfl⟩ | ⟨rfl, hlast⟩
    · obtain ⟨_, hfirst, hplace, rfl⟩ := held (placed?_union schema hpolicy a.merged v)
      have habsorbed := (r.union_union_iff (listUnder a.merged name) (hfields.value hp)).mpr
        (hnulls name v (hfields.keys.get?_of_mem hp) hv r hpolicy)
      rw [listUnder_of_arr hfirst, habsorbed]
      exact ⟨_, hfirst, hplace, rfl⟩
    · exact held (hlast a.merged)

/-- Merging a value into a united list again, or as an output into an aggregation again, changes
nothing iff the nulls that come for united fields are kept. -/
theorem merged_again_iff_keepsNulls {v : Json} (hv : v.Ordered) :
    (∀ (r : UnionRule) (existing : List Json),
      r.union (r.union existing v) v = r.union existing v ↔ r.KeepsNulls existing v) ∧
    ∀ (schema : Fields OutputField) (a : Aggregation),
      (merge schema (merge schema a v) v).merged = (merge schema a v).merged ↔
        KeepsNulls schema a v := by
  constructor
  · intro r existing
    exact r.union_union_iff existing hv
  · intro schema a
    cases v with
    | obj fields => exact mergeFields_again_iff schema hv a
    | _ => exact iff_of_true rfl nofun

/-- Claims are told apart by their id; their sources are united, the best confidence is kept. -/
def claimsRule : UnionRule := ⟨"id", ["sources"], some "confidence"⟩

def claimsSchema : Fields OutputField :=
  [("claims", ⟨.array, true, .unionByKey claimsRule.key claimsRule.dedup claimsRule.max⟩)]

def claim (sources : Json) : Json := .obj [("id", .str "c1"), ("sources", sources)]

/-- Two entries of one claim, with the sources that each brings. -/
def claimsOutput (first second : Json) : Json :=
  .obj [("claims", .arr [claim first, claim second])]

theorem ordered_claim {sources : Json} (h : sources.Ordered) : (claim sources).Ordered := by
  have keys : "id" < "sources" := String.lt_iff_toList_lt.mpr (by decide)
  rw [claim, Json.Ordered, Json.OrderedFields, Json.OrderedFields, Json.OrderedFields, Json.Ordered]
  · exact ⟨List.pairwise_pair.mpr keys, trivial, h, trivial⟩
  all_goals exact nofun

theorem ordered_claimsOutput {first second : Json} (hfirst : first.Ordered)
    (hsecond : second.Ordered) : (claimsOutput first second).Ordered := by
  rw [claimsOutput, Json.Ordered, Json.OrderedFields, Json.OrderedFields, Json.Ordered,
    Json.OrderedItems, Json.OrderedItems, Json.OrderedItems]
  exact ⟨List.pairwise_singleton _ _, ⟨ordered_claim hfirst, ordered_claim hsecond, trivial⟩,
    trivial⟩

theorem keepsNulls_claimsOutput (a : Aggregation) {first second : Json} (hfirst : first ≠ .null)
    (hsecond : second ≠ .null) : KeepsNulls claimsSchema a (claimsOutput first second) := by
  have field_ne_null {sources : Json} (h : sources ≠ .null) (field : String) :
      (claim sources).get? field ≠ some .null := by
    intro hnull
    have hmem : (field, .null) ∈ [("id", .str "c1"), ("sources", sources)] :=
      Fields.mem_of_get? hnull
    rcases List.mem_cons.mp hmem with heq | hmem
    · cases heq
    · exact h (Prod.mk.inj (List.mem_singleton.mp hmem)).2.symm
  intro name v hget _ r _
  have hv : v = .arr [claim first, claim second] :=
    (Prod.mk.inj (List.mem_singleton.mp (Fields.mem_of_get? hget))).2
  refine r.keepsNulls_of_no_null _ fun e he field _ => ?_
  rw [hv] at he
  rcases List.mem_cons.mp he with rfl | he
  · exact field_ne_null hfirst field
  · rw [List.mem_singleton.mp he]
    exact field_ne_null hsecond field

theorem sourced_claims_merged_again :
    (claimsOutput (.arr [.str "a"]) (.arr [.str "b"])).Ordered ∧
      (merge claimsSchema (merge claimsSchema .init
          (claimsOutput (.arr [.str "a"]) (.arr [.str "b"])))
        (claimsOutput (.arr [.str "a"]) (.arr [.str "b"]))).merged =
        (merge claimsSchema .init (claimsOutput (.arr [.str "a"]) (.arr [.str "b"]))).merged := by
  have list (s : String) : (Json.arr [.str s]).Ordered := by
    rw [Json.Ordered, Json.OrderedItems, Json.OrderedItems]
    exact ⟨Json.ordered_str s, trivial⟩
  have ordered := ordered_claimsOutput (list "a") (list "b")
  exact ⟨ordered, ((merged_again_iff_keepsNulls ordered).2 claimsSchema .init).mpr
    (keepsNulls_claimsOutput .init nofun nofun)⟩

/-- The sources that replaced a null take the null up when the claims come again. -/
theorem null_sources_merged_again :
    (merge claimsSchema (merge claimsSchema .init (claimsOutput .null (.arr [.str "a"])))
        (claimsOutput .null (.arr [.str "a"]))).merged ≠
      (merge claimsSchema .init (claimsOutput .null (.arr [.str "a"]))).merged := by
  have first : (merge claimsSchema .init (claimsOutput .null (.arr [.str "a"]))).merged =
      [("claims", .arr [.obj [("id", .str "c1"), ("sources", .arr [.str "a"])]])] := rfl
  have second : (merge claimsSchema (merge claimsSchema .init
        (claimsOutput .null (.arr [.str "a"]))) (claimsOutput .null (.arr [.str "a"]))).merged =
      [("claims", .arr [.obj [("id", .str "c1"), ("sources", .arr [.str "a", .null])]])] := rfl
  rw [first, second]
  nofun

end Aggregation

end PlaybookEngine
