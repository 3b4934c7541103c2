import PlaybookEngine.Proofs.Fields.Folded
import PlaybookEngine.Proofs.Output.Maximum

namespace PlaybookEngine

namespace Json

/-- The numbers that a value holds by itself or as elements of an array. -/
def numbers (v : Json) : List Binary64 := v.elements.filterMap number?

end Json

namespace Aggregation

open Fields (get? Ordered)
open List (Forall₂)

/-- The values that outputs give for a field; null counts for nothing. -/
def valuesOf (name : String) (outputs : List Json) : List Json :=
  outputs.filterMap (Json.given? name)

/-- The numbers that outputs give for sources: output by output, and in each source by source. -/
def samplesOf (sources : List String) (outputs : List Json) : List Binary64 :=
  outputs.flatMap fun o => sources.flatMap fun s => (o.get? s).elim [] Json.numbers

/-- What a reducer makes of numbers, none when there are no numbers or when it is not finite. -/
def reduced? (reducer : Reducer) : List Binary64 → Option Json
  | [] => none
  | samples =>
    match reducer.reduce? samples with
    | some (.finite x) => some (.float x)
    | _ => none

/-- What outputs come to under a name with a policy. -/
def aggregated? (policy? : Option MergePolicy) (name : String) (outputs : List Json) :
    Option Json :=
  match policy? with
  | some (.unionByKey key dedup max) =>
    match valuesOf name outputs with
    | [] => none
    | values => some (.arr (values.foldl (UnionRule.union ⟨key, dedup, max⟩) []))
  | some (.reduce reducer source) => reduced? reducer (samplesOf (sourcesOf name source) outputs)
  | _ => (valuesOf name outputs).getLast?

/-- The fields of the outputs that a policy reads under a name. -/
def readUnder (policy? : Option MergePolicy) (name : String) : List String :=
  match policy? with
  | some (.reduce _ source) => sourcesOf name source
  | _ => [name]

/-- What stands under a name after a further value. -/
def placedOn (policy? : Option MergePolicy) (held? : Option Json) (v : Json) : Option Json :=
  match policy? with
  | some (.unionByKey key dedup max) =>
    some (.arr (UnionRule.union ⟨key, dedup, max⟩ ((held?.bind Json.arr?).getD []) v))
  | some (.reduce _ _) => held?
  | _ => some v

variable (schema : Fields OutputField) {merged fields : Fields Json} {name : String}

theorem get?_mergeField_self (merged : Fields Json) (v : Json) :
    get? name (mergeField schema merged name v) =
      placedOn ((get? name schema).map OutputField.merge) (get? name merged) v := by
  unfold mergeField placedOn
  cases (get? name schema).map OutputField.merge with
  | none => exact Fields.get?_insert_self name v merged
  | some policy =>
    cases policy with
    | overwriteLast => exact Fields.get?_insert_self name v merged
    | unionByKey key dedup max => exact Fields.get?_insert_self name _ merged
    | reduce reducer source => rfl

theorem get?_merge (a : Aggregation) {o : Json} (ho : o.Ordered) :
    get? name (merge schema a o).merged =
      match o.given? name with
      | some v => placedOn ((get? name schema).map OutputField.merge) (get? name a.merged) v
      | none => get? name a.merged := by
  cases o with
  | obj fields =>
    have fold := Fields.get?_foldl (k := name) ho.keys
      (f := fun merged p => if p.2.isNull then merged else mergeField schema merged p.1 p.2)
      (g := fun v held? =>
        if v.isNull then held?
        else placedOn ((get? name schema).map OutputField.merge) held? v)
      (fun m p hp => by
        split
        · rfl
        · exact get?_mergeField_of_ne schema hp.symm m p.2)
      (fun m v => by
        split
        · rfl
        · exact get?_mergeField_self schema m v)
      a.merged
    rw [merge, mergeFields, fold, Json.given?, Json.get?]
    cases get? name fields with
    | none => rfl
    | some v => cases v <;> rfl
  | _ => rfl

theorem get?_foldl_merge {outputs : List Json} (houtputs : ∀ o ∈ outputs, o.Ordered)
    (a : Aggregation) :
    get? name (outputs.foldl (merge schema) a).merged =
      (valuesOf name outputs).foldl (placedOn ((get? name schema).map OutputField.merge))
        (get? name a.merged) := by
  induction outputs generalizing a with
  | nil => rfl
  | cons o outputs ih =>
    have ho := houtputs o List.mem_cons_self
    rw [List.foldl_cons, ih fun o' ho' => houtputs o' (List.mem_cons_of_mem _ ho'),
      get?_merge schema a ho, valuesOf, valuesOf, List.filterMap_cons]
    cases o.given? name <;> rfl

theorem numbersOf_eq (v : Json) : numbersOf v = v.numbers := by
  unfold numbersOf Json.numbers Json.elements
  cases v with
  | arr items => rfl
  | _ => rfl

theorem sample_eq (fields : Fields Json) (sources : List String) :
    sample fields sources =
      sources.flatMap fun s => ((Json.obj fields).get? s).elim [] Json.numbers := by
  refine List.flatMap_congr fun s _ => ?_
  rw [Json.get?]
  cases get? s fields with
  | none => rfl
  | some v => exact numbersOf_eq v

section Reduced

variable {reducer : Reducer} {source : List String}

/-- The samples of a field after one more output, from which a reduction reads its sources. -/
def sampled (name : String) (fields : Fields Json) (field : OutputField)
    (seen? : Option (List Binary64)) : Option (List Binary64) :=
  match field.merge with
  | .reduce _ source => some (seen?.getD [] ++ sample fields (sourcesOf name source))
  | _ => seen?

theorem getD_addSamples (hschema : Ordered schema)
    (hpolicy : (get? name schema).map OutputField.merge = some (.reduce reducer source))
    (fields : Fields Json) (samples : Fields (List Binary64)) :
    (get? name (addSamples schema fields samples)).getD [] =
      (get? name samples).getD [] ++ sample fields (sourcesOf name source) := by
  obtain ⟨field, hfield, hmerge⟩ := Option.map_eq_some_iff.mp hpolicy
  rw [addSamples, Fields.get?_foldl (k := name) (g := sampled name fields) hschema]
  · rw [hfield]
    dsimp only
    rw [sampled, hmerge]
    rfl
  · intro m p hp
    split
    · exact Fields.get?_insert_of_ne hp _ m
    · rfl
  · intro m field
    unfold sampled
    dsimp only
    cases field.merge with
    | reduce reducer source => exact Fields.get?_insert_self name _ m
    | _ => rfl

/-- The numbers of each reduction are collected for itself. -/
theorem getD_foldl_merge {outputs : List Json} (hschema : Ordered schema)
    (hpolicy : (get? name schema).map OutputField.merge = some (.reduce reducer source))
    (a : Aggregation) :
    (get? name (outputs.foldl (merge schema) a).samples).getD [] =
      (get? name a.samples).getD [] ++ samplesOf (sourcesOf name source) outputs := by
  induction outputs generalizing a with
  | nil => exact (List.append_nil _).symm
  | cons o outputs ih =>
    have step : (get? name (merge schema a o).samples).getD [] = (get? name a.samples).getD [] ++
        (sourcesOf name source).flatMap fun s => (o.get? s).elim [] Json.numbers := by
      cases o with
      | obj fields =>
        rw [← sample_eq]
        exact getD_addSamples schema hschema hpolicy fields a.samples
      | _ => simp [merge, Json.get?]
    rw [List.foldl_cons, ih, samplesOf, samplesOf, List.flatMap_cons, ← List.append_assoc, step]

end Reduced

/-- What a field holds in the end: its reduction, if that has a value. -/
def finished (a : Aggregation) (name : String) (field : OutputField) (held? : Option Json) :
    Option Json :=
  match field.merge with
  | .reduce reducer _ => (a.reduction? name reducer).or held?
  | _ => held?

/-- Only the reduction of a field is put in under its name. -/
theorem get?_finish (hschema : Ordered schema) (a : Aggregation) :
    get? name (a.finish schema) =
      match (get? name schema).map OutputField.merge with
      | some (.reduce reducer _) => (a.reduction? name reducer).or (get? name a.merged)
      | _ => get? name a.merged := by
  rw [finish, Fields.get?_foldl (k := name) (g := a.finished name) hschema]
  · cases get? name schema with
    | none => rfl
    | some field =>
      dsimp only [Option.map_some, finished]
      cases field.merge <;> rfl
  · intro m p hp
    split
    · split
      · exact Fields.get?_insert_of_ne hp _ m
      · rfl
    · rfl
  · intro m field
    unfold finished
    dsimp only
    cases field.merge with
    | reduce reducer source =>
      dsimp only
      cases a.reduction? name reducer with
      | none => rfl
      | some v => exact Fields.get?_insert_self name v m
    | _ => rfl

theorem foldl_placedOn_union (key : String) (dedup : List String) (max : Option String)
    (values items : List Json) :
    values.foldl (placedOn (some (.unionByKey key dedup max))) (some (.arr items)) =
      some (.arr (values.foldl (UnionRule.union ⟨key, dedup, max⟩) items)) := by
  induction values generalizing items with
  | nil => rfl
  | cons v values ih => exact ih _

theorem foldl_placedOn_last {policy? : Option MergePolicy}
    (h : ∀ held? v, placedOn policy? held? v = some v) (values : List Json) :
    values.foldl (placedOn policy?) none = values.getLast? := by
  induction values using List.reverseRecOn with
  | nil => rfl
  | append_singleton values v _ =>
    rw [List.foldl_append, List.foldl_cons, List.foldl_nil, h, List.getLast?_concat]

theorem foldl_placedOn_reduce (reducer : Reducer) (source : List String) (values : List Json)
    (held? : Option Json) :
    values.foldl (placedOn (some (.reduce reducer source))) held? = held? := by
  induction values with
  | nil => rfl
  | cons v values ih => exact ih

theorem reduction?_eq (a : Aggregation) (name : String) (reducer : Reducer) :
    a.reduction? name reducer = reduced? reducer ((get? name a.samples).getD []) := by
  rw [reduction?]
  cases (get? name a.samples).getD [] <;> rfl

theorem get?_aggregate {outputs : List Json} (hschema : Ordered schema)
    (houtputs : ∀ o ∈ outputs, o.Ordered) (name : String) :
    get? name (aggregate schema outputs) =
      aggregated? ((get? name schema).map OutputField.merge) name outputs := by
  rw [aggregate, get?_finish schema hschema, get?_foldl_merge schema houtputs]
  unfold aggregated?
  cases hpolicy : (get? name schema).map OutputField.merge with
  | none => exact foldl_placedOn_last (fun _ _ => rfl) _
  | some policy =>
    cases policy with
    | overwriteLast => exact foldl_placedOn_last (fun _ _ => rfl) _
    | unionByKey key dedup max =>
      dsimp only
      cases valuesOf name outputs with
      | nil => rfl
      | cons v values => exact foldl_placedOn_union key dedup max values _
    | reduce reducer source =>
      dsimp only
      rw [foldl_placedOn_reduce, reduction?_eq, getD_foldl_merge schema hschema hpolicy]
      exact Option.or_none

theorem ordered_mergeField (hmerged : Ordered merged) (v : Json) :
    Ordered (mergeField schema merged name v) := by
  cases hplaced : placed? schema merged name v with
  | some w =>
    rw [mergeField_of_placed schema hplaced]
    exact hmerged.insert name w
  | none =>
    rw [mergeField_of_not_placed schema hplaced]
    exact hmerged

theorem ordered_merge {a : Aggregation} (ha : Ordered a.merged) (o : Json) :
    Ordered (merge schema a o).merged := by
  cases o with
  | obj fields =>
    refine Fields.ordered_foldl (fun m p hm => ?_) ha
    split
    · exact hm
    · exact ordered_mergeField schema hm p.2
  | _ => exact ha

theorem ordered_aggregate (outputs : List Json) : Ordered (aggregate schema outputs) := by
  refine Fields.ordered_foldl (fun m p hm => ?_) ?_
  · split
    · split
      · exact hm.insert p.1 _
      · exact hm
    · exact hm
  · have init_ordered : Ordered init.merged := Fields.ordered_nil
    exact List.foldlRecOn outputs (merge schema) (motive := fun a => Ordered a.merged) init_ordered
      fun a ha o _ => ordered_merge schema ha o

theorem valuesOf_congr {outputs outputs' : List Json}
    (h : Forall₂ (fun o o' => o.get? name = o'.get? name) outputs outputs') :
    valuesOf name outputs = valuesOf name outputs' := by
  induction h with
  | nil => rfl
  | cons ho _ ih =>
    rw [valuesOf, valuesOf, List.filterMap_cons, List.filterMap_cons, Json.given?, ho]
    rw [valuesOf, valuesOf] at ih
    rw [ih]
    rfl

theorem samplesOf_congr {sources : List String} {outputs outputs' : List Json}
    (h : Forall₂ (fun o o' => ∀ s ∈ sources, o.get? s = o'.get? s) outputs outputs') :
    samplesOf sources outputs = samplesOf sources outputs' := by
  induction h with
  | nil => rfl
  | cons ho _ ih =>
    have head := List.flatMap_congr fun s hs =>
      congrArg (fun v? => Option.elim v? [] Json.numbers) (ho s hs)
    exact congrArg₂ List.append head ih

theorem aggregated?_congr {policy? : Option MergePolicy} {outputs outputs' : List Json}
    (h : Forall₂ (fun o o' => ∀ s ∈ readUnder policy? name, o.get? s = o'.get? s)
      outputs outputs') :
    aggregated? policy? name outputs = aggregated? policy? name outputs' := by
  have own (hread : readUnder policy? name = [name]) :
      valuesOf name outputs = valuesOf name outputs' :=
    valuesOf_congr (h.imp fun o o' ho => ho name (hread ▸ List.mem_singleton_self name))
  unfold aggregated?
  cases policy? with
  | none => exact congrArg List.getLast? (own rfl)
  | some policy =>
    cases policy with
    | overwriteLast => exact congrArg List.getLast? (own rfl)
    | unionByKey key dedup max =>
      dsimp only
      rw [own rfl]
    | reduce reducer source => exact congrArg (reduced? reducer) (samplesOf_congr h)

/-- The aggregate is a map in which each field is what its policy makes of the values, or of the
numbers of the sources, that the outputs give for it, whatever else the schema and the outputs
hold. -/
theorem aggregate_fieldwise {schema : Fields OutputField} {outputs : List Json}
    (hschema : Ordered schema) (houtputs : ∀ o ∈ outputs, o.Ordered) :
    Ordered (aggregate schema outputs) ∧
      ∀ name, get? name (aggregate schema outputs) =
          aggregated? ((get? name schema).map OutputField.merge) name outputs ∧
        ∀ schema' outputs', Ordered schema' → (∀ o ∈ outputs', o.Ordered) →
          (get? name schema').map OutputField.merge = (get? name schema).map OutputField.merge →
          Forall₂ (fun o o' => ∀ s ∈ readUnder ((get? name schema).map OutputField.merge) name,
            o.get? s = o'.get? s) outputs outputs' →
          get? name (aggregate schema' outputs') = get? name (aggregate schema outputs) := by
  refine ⟨ordered_aggregate schema outputs, fun name => ?_⟩
  have value := get?_aggregate schema hschema houtputs name
  refine ⟨value, fun schema' outputs' hschema' houtputs' hpolicy hsame => ?_⟩
  rw [get?_aggregate schema' hschema' houtputs', hpolicy, value]
  exact (aggregated?_congr hsame).symm

/-- The best of all ratings and bonuses; the ratings and the note of the last step that has some. -/
def ratedSchema : Fields OutputField :=
  [("best", ⟨.number, true, .reduce .max ["ratings", "bonus"]⟩),
    ("ratings", ⟨.array, false, .overwriteLast⟩)]

/-- Outputs of steps: a best rating of its own, ratings that are not all numbers, and no object. -/
def ratedOutputs : List Json :=
  [.obj [("best", .int 99), ("ratings", .arr [.int 1, .str "none", .int 3])],
    .obj [("bonus", .int 2), ("note", .str "first"), ("ratings", .null)], .str "done",
    .obj [("note", .str "last")]]

theorem ratings_aggregated :
    Ordered ratedSchema ∧ (∀ o ∈ ratedOutputs, o.Ordered) ∧
      (get? "best" (aggregate ratedSchema ratedOutputs)).map Json.exact = some (3 * 2 ^ 1074) ∧
      get? "ratings" (aggregate ratedSchema ratedOutputs) =
        some (.arr [.int 1, .str "none", .int 3]) ∧
      get? "note" (aggregate ratedSchema ratedOutputs) = some (.str "last") := by
  have schema_ordered : Ordered ratedSchema := by decide +kernel
  have outputs_ordered : ∀ o ∈ ratedOutputs, o.Ordered := by decide +kernel
  have fieldwise := (aggregate_fieldwise schema_ordered outputs_ordered).2
  refine ⟨schema_ordered, outputs_ordered, ?_, (fieldwise "ratings").1, (fieldwise "note").1⟩
  rw [(fieldwise "best").1]
  decide +kernel

end Aggregation

end PlaybookEngine
