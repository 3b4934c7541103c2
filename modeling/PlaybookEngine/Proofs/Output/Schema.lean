import PlaybookEngine.Proofs.Output.Citation

namespace PlaybookEngine

def Execution.succeeded (e : Execution) (s : Step) : Bool :=
  (e.result? s.id).any (·.status == .success)

namespace Finalization

section Values

variable (p : Playbook) (e : Execution) (aggregated : Fields Json)

/-- The flags that the execution is given, whether or not the playbook declares them. -/
def flagsOf : GovernanceFlags :=
  .derive (BoundInputs.contentStatus e.inputs) (drafts p e).length
    (project p.outputSchema (withEngineFields e aggregated))

/-- The value that the engine has of its own for a field: a flag, the status of the result, or the
summary of a batch. -/
def engineValue? (name : String) : Option Json :=
  match Fields.get? name (flagsOf p e aggregated).entries with
  | some flag => some (.bool flag)
  | none =>
    if name = resultStatusField then some (.named e.outcome)
    else if name = batchSummaryField then e.batchSummary.map BatchSummary.encode
    else none

/-- The value that a declared field ends up with; null stands for none. -/
def finalValue (name : String) : Json :=
  Json.ofOption ((engineValue? p e aggregated name).or (Fields.get? name aggregated))

end Values

/-- The value in the field that an artifact of the step takes its content from. -/
def contentValue? (e : Execution) (s : Step) (spec : ArtifactSpec) : Option Json :=
  ((e.result? s.id).bind (·.output)).bind (Json.get? spec.contentField)

/-- A text with something in it, or any list or object. -/
def HasContent : Json → Prop
  | .str s => s ≠ ""
  | .arr _ => True
  | .obj _ => True
  | _ => False

def contentText : Json → String
  | .str s => s
  | v => v.pretty

def artifactSteps (p : Playbook) (e : Execution) : List (Step × ArtifactSpec) :=
  p.steps.filterMap fun s =>
    s.artifact.bind fun spec => if e.succeeded s then some (s, spec) else none

/-- The claim has a text as its anchor that does not consist of blanks only. -/
def Anchored (claim : Json) : Prop :=
  ∃ s, claim.get? anchorField = some (.str s) ∧ ∃ c ∈ s.toList, Text.isBlank c = false

/-- What strict citation refuses: no claims, an empty list of them, or one without an anchor. -/
def Uncited (claims : Json) : Prop :=
  claims = .null ∨ claims = .arr [] ∨ ∃ items, claims = .arr items ∧ ∃ x ∈ items, ¬ Anchored x

/-- The final values satisfy the declared schema, and nothing else is amiss. -/
structure Conforms (p : Playbook) (e : Execution) (value : String → Json) : Prop where
  present : ∀ x ∈ p.outputSchema, x.2.required = true → value x.1 ≠ .null
  typed : ∀ x ∈ p.outputSchema, value x.1 ≠ .null → x.2.type.accepts (value x.1) = true
  content : ∀ s ∈ p.steps, ∀ spec, s.artifact = some spec → e.succeeded s = true →
    ∃ v, contentValue? e s spec = some v ∧ HasContent v
  cited : BoundInputs.citationMode e.inputs = .strict →
    Fields.contains claimsField p.outputSchema = true → ¬ Uncited (value claimsField)

/-- The draft keeps what the step gave for its artifact. -/
structure Keeps (p : Playbook) (e : Execution) (x : Step × ArtifactSpec) (d : ArtifactDraft) :
    Prop where
  step : d.stepId = x.1.id
  execution : d.executionId = e.id
  capability : d.capability = p.artifactCapability
  name : d.name = x.2.name
  extension : d.extension = x.2.extension
  status : d.contentStatus = BoundInputs.contentStatus e.inputs
  content : ∃ v, contentValue? e x.1 x.2 = some v ∧ HasContent v ∧ d.content = contentText v

/-- The result has the declared fields, each with its final value, and a draft for each artifact of
a step that succeeded. -/
structure Projects (p : Playbook) (e : Execution) (value : String → Json) (r : FinalResult) :
    Prop where
  keys : Fields.keys r.output = Fields.keys p.outputSchema
  values : ∀ name, Fields.get? name r.output =
    (Fields.get? name p.outputSchema).map fun _ => value name
  status : r.status = e.outcome ∧ (Fields.contains resultStatusField p.outputSchema = true →
    Fields.get? resultStatusField r.output = some (.named r.status))
  flags : ∀ x ∈ r.flags.entries, Fields.contains x.1 p.outputSchema = true →
    Fields.get? x.1 r.output = some (.bool x.2)
  drafts : List.Forall₂ (Keeps p e) (artifactSteps p e) r.artifacts

def valueFault? (value : Json) (name : String) (f : OutputField) : Option String :=
  if value.isNull then if f.required then some (name ++ " (missing)") else none
  else if f.type.accepts value then none
  else some (name ++ " (expected " ++ Named.text f.type ++ ")")

def contentFault? (e : Execution) (x : Step × ArtifactSpec) : Option String :=
  match (contentValue? e x.1 x.2).bind contentOf? with
  | some _ => none
  | none => some (x.1.id ++ "." ++ x.2.contentField ++ " (no artifact content)")

def claimsFault? : Json → Option String
  | .null => some (claimsField ++ " (claims required by strict citation)")
  | .arr [] => some (claimsField ++ " (claims required by strict citation)")
  | .arr claims =>
    if claims.all isAnchored then none
    else some (claimsField ++ " (anchor required by strict citation)")
  | _ => none

/-- Everything that is wrong, in the order in which it is found. -/
def faultsOf (p : Playbook) (e : Execution) (value : String → Json) : List String :=
  (artifactSteps p e).filterMap (contentFault? e)
    ++ p.outputSchema.filterMap (fun x => valueFault? (value x.1) x.1 x.2)
    ++ if BoundInputs.citationMode e.inputs = .strict ∧
          Fields.contains claimsField p.outputSchema = true then
        (claimsFault? (value claimsField)).toList
      else []

theorem get?_map_keys {α β : Type} (value : String → β) (schema : Fields α) (name : String) :
    Fields.get? name (schema.map fun x => (x.1, value x.1)) =
      (Fields.get? name schema).map fun _ => value name := by
  induction schema with
  | nil => rfl
  | cons x rest ih =>
    rw [List.map_cons, Fields.get?_cons, Fields.get?_cons, ih]
    split
    · rename_i hx
      rw [hx, Option.map_some]
    · rfl

theorem get?_of_mem {α : Type} {x : String × α} {schema : Fields α} (h : x ∈ schema) :
    ∃ y, Fields.get? x.1 schema = some y := by
  induction schema with
  | nil => cases h
  | cons y rest ih =>
    rw [Fields.get?_cons]
    split
    · exact ⟨_, rfl⟩
    · rename_i hne
      rcases List.mem_cons.mp h with rfl | h
      · exact absurd rfl hne
      · exact ih h

theorem get?_withEngineFields (e : Execution) (aggregated : Fields Json) (name : String) :
    Fields.get? name (withEngineFields e aggregated) =
      if name = resultStatusField then some (.named e.outcome)
      else if name = batchSummaryField then
        (e.batchSummary.map BatchSummary.encode).or (Fields.get? name aggregated)
      else Fields.get? name aggregated := by
  have apart : batchSummaryField ≠ resultStatusField := by decide
  unfold withEngineFields
  cases e.batchSummary with
  | none =>
    dsimp only
    rw [Fields.get?_insert]
    by_cases hs : name = resultStatusField
    · rw [if_pos hs.symm, if_pos hs]
    · rw [if_neg (Ne.symm hs), if_neg hs]
      split <;> rfl
  | some summary =>
    dsimp only
    rw [Fields.get?_insert, Fields.get?_insert]
    by_cases hb : name = batchSummaryField
    · subst hb
      rw [if_pos rfl, if_neg apart, if_pos rfl]
      rfl
    · rw [if_neg (Ne.symm hb), if_neg hb]
      by_cases hs : name = resultStatusField
      · rw [if_pos hs.symm, if_pos hs]
      · rw [if_neg (Ne.symm hs), if_neg hs]

variable (p : Playbook) (e : Execution) (aggregated : Fields Json)

theorem withFlags_project :
    withFlags (flagsOf p e aggregated) (project p.outputSchema (withEngineFields e aggregated)) =
      p.outputSchema.map fun x => (x.1, finalValue p e aggregated x.1) := by
  rw [withFlags, project, List.map_map]
  refine List.map_congr_left fun x _ => ?_
  rw [Function.comp_apply, get?_withEngineFields, finalValue, engineValue?]
  cases Fields.get? x.1 (flagsOf p e aggregated).entries with
  | some flag => rfl
  | none =>
    dsimp only
    split
    · rfl
    · split <;> rfl

theorem schemaFaults_eq (value : String → Json) :
    schemaFaults p.outputSchema (p.outputSchema.map fun x => (x.1, value x.1)) =
      p.outputSchema.filterMap fun x => valueFault? (value x.1) x.1 x.2 := by
  refine List.filterMap_congr fun x hx => ?_
  obtain ⟨y, hy⟩ := get?_of_mem hx
  rw [fieldFault?, get?_map_keys, hy]
  rfl

theorem citationFaults_eq (value : String → Json)
    (hdecl : Fields.contains claimsField p.outputSchema = true) :
    citationFaults p.outputSchema (p.outputSchema.map fun x => (x.1, value x.1)) =
      (claimsFault? (value claimsField)).toList := by
  obtain ⟨f, hf⟩ := Option.isSome_iff_exists.mp hdecl
  rw [citationFaults, if_pos hdecl, get?_map_keys, hf]
  generalize value claimsField = v
  cases v with
  | arr claims =>
    cases claims with
    | nil => rfl
    | cons c cs =>
      change (if (c :: cs).all isAnchored then _ else _) =
        Option.toList (if (c :: cs).all isAnchored then _ else _)
      split <;> rfl
  | _ => rfl

def draftWith (p : Playbook) (e : Execution) (x : Step × ArtifactSpec) (content : String) :
    ArtifactDraft where
  capability := p.artifactCapability
  name := x.2.name
  extension := x.2.extension
  content := content
  contentStatus := BoundInputs.contentStatus e.inputs
  executionId := e.id
  stepId := x.1.id

/-- What comes of the artifact of a step that succeeded. -/
def draftResult (p : Playbook) (e : Execution) (x : Step × ArtifactSpec) :
    Except String ArtifactDraft :=
  match (contentValue? e x.1 x.2).bind contentOf? with
  | some content => .ok (draftWith p e x content)
  | none => .error (x.1.id ++ "." ++ x.2.contentField ++ " (no artifact content)")

theorem draftOf_eq (s : Step) :
    draftOf p e s = (s.artifact.bind fun spec => if e.succeeded s then some (s, spec) else none).map
      (draftResult p e) := by
  unfold draftOf draftResult contentValue? Execution.succeeded
  cases s.artifact with
  | none => rfl
  | some spec =>
    cases hresult : e.result? s.id with
    | none => rfl
    | some r =>
      by_cases hstatus : r.status = .success
      · simp only [Option.bind_eq_bind, Option.bind_some, hstatus, Option.any_some,
          beq_self_eq_true, ne_eq, not_true_eq_false, if_false, if_true, hresult, Option.map_some]
        cases (r.output.bind (Json.get? spec.contentField)).bind contentOf? <;> rfl
      · simp [hstatus]

theorem draftResults_eq : draftResults p e = (artifactSteps p e).map (draftResult p e) := by
  rw [draftResults, artifactSteps, List.map_filterMap]
  exact List.filterMap_congr fun s _ => draftOf_eq p e s

theorem draftFaults_eq : draftFaults p e = (artifactSteps p e).filterMap (contentFault? e) := by
  rw [draftFaults, draftResults_eq, List.filterMap_map]
  refine List.filterMap_congr fun x _ => ?_
  rw [Function.comp_apply, draftResult, contentFault?]
  cases (contentValue? e x.1 x.2).bind contentOf? <;> rfl

theorem contentOf?_eq_some {v : Json} {content : String} (h : contentOf? v = some content) :
    HasContent v ∧ content = contentText v := by
  cases v with
  | str s =>
    rw [contentOf?] at h
    split at h
    · cases h
    · rename_i hs
      cases h
      exact ⟨hs, rfl⟩
  | arr items =>
    cases h
    exact ⟨trivial, rfl⟩
  | obj fields =>
    cases h
    exact ⟨trivial, rfl⟩
  | _ => cases h

theorem hasContent_iff (v : Json) : HasContent v ↔ ∃ content, contentOf? v = some content := by
  constructor
  · intro h
    cases v with
    | str s => exact ⟨s, if_neg h⟩
    | arr items => exact ⟨_, rfl⟩
    | obj fields => exact ⟨_, rfl⟩
    | _ => exact h.elim
  · rintro ⟨content, h⟩
    exact (contentOf?_eq_some h).1

theorem contentFault?_eq_none {x : Step × ArtifactSpec} :
    contentFault? e x = none ↔ ∃ v, contentValue? e x.1 x.2 = some v ∧ HasContent v := by
  have held : (∃ v, contentValue? e x.1 x.2 = some v ∧ HasContent v) ↔
      ∃ content, (contentValue? e x.1 x.2).bind contentOf? = some content := by
    simp only [hasContent_iff, Option.bind_eq_some_iff]
    exact ⟨fun ⟨v, hv, c, hc⟩ => ⟨c, v, hv, hc⟩, fun ⟨c, v, hv, hc⟩ => ⟨v, hv, c, hc⟩⟩
  rw [held, contentFault?]
  cases (contentValue? e x.1 x.2).bind contentOf? with
  | none => simp
  | some content => simp

theorem mem_artifactSteps {x : Step × ArtifactSpec} :
    x ∈ artifactSteps p e ↔ x.1 ∈ p.steps ∧ x.1.artifact = some x.2 ∧ e.succeeded x.1 = true := by
  obtain ⟨s, spec⟩ := x
  simp only [artifactSteps, List.mem_filterMap, Option.bind_eq_some_iff]
  constructor
  · rintro ⟨t, ht, spec', hspec, hx⟩
    split at hx
    · rename_i hok
      cases hx
      exact ⟨ht, hspec, hok⟩
    · cases hx
  · rintro ⟨hs, hspec, hok⟩
    exact ⟨s, hs, spec, hspec, if_pos hok⟩

/-- When no content is missing, every artifact of a step that succeeded has its draft. -/
theorem keeps_drafts (h : draftFaults p e = []) :
    List.Forall₂ (Keeps p e) (artifactSteps p e) (drafts p e) := by
  rw [draftFaults_eq] at h
  rw [drafts, draftResults_eq]
  have full : ∀ x ∈ artifactSteps p e, contentFault? e x = none := List.filterMap_eq_nil_iff.mp h
  clear h
  generalize artifactSteps p e = xs at full ⊢
  induction xs with
  | nil => exact .nil
  | cons x rest ih =>
    obtain ⟨v, hv, hcontent⟩ := (contentFault?_eq_none e).mp (full x List.mem_cons_self)
    obtain ⟨content, hstored⟩ := (hasContent_iff v).mp hcontent
    have drafted : draftResult p e x = .ok (draftWith p e x content) := by
      rw [draftResult, hv, Option.bind_some, hstored]
    rw [List.map_cons, drafted]
    refine .cons ⟨rfl, rfl, rfl, rfl, rfl, rfl, v, hv, contentOf?_eq_some hstored⟩ (ih ?_)
    intro y hy
    exact full y (List.mem_cons_of_mem x hy)

theorem valueFault?_eq_none {value : Json} {name : String} {f : OutputField} :
    valueFault? value name f = none ↔
      (f.required = true → value ≠ .null) ∧ (value ≠ .null → f.type.accepts value = true) := by
  unfold valueFault?
  by_cases hnull : value = .null
  · rw [if_pos ((Json.isNull_iff value).mpr hnull)]
    cases f.required <;> simp [hnull]
  · rw [if_neg (mt (Json.isNull_iff value).mp hnull)]
    cases f.type.accepts value <;> simp [hnull]

theorem claimsFault?_eq_none {claims : Json} : claimsFault? claims = none ↔ ¬ Uncited claims := by
  cases claims with
  | arr items =>
    cases items with
    | nil => simp [claimsFault?, Uncited]
    | cons c cs =>
      have anchored : (c :: cs).all isAnchored = true ↔ ∀ x ∈ c :: cs, Anchored x := by
        rw [List.all_eq_true]
        exact forall₂_congr fun x _ => isAnchored_iff x
      have refused : Uncited (.arr (c :: cs)) ↔ ∃ x ∈ c :: cs, ¬ Anchored x := by
        simp [Uncited]
      have checked : claimsFault? (.arr (c :: cs)) = if (c :: cs).all isAnchored then none
          else some (claimsField ++ " (anchor required by strict citation)") := rfl
      rw [refused, checked, not_exists]
      simp only [not_and, not_not, ← anchored]
      cases (c :: cs).all isAnchored <;> simp
  | _ => simp [claimsFault?, Uncited]

theorem faultsOf_eq_nil {value : String → Json} :
    faultsOf p e value = [] ↔ Conforms p e value := by
  have contents : (artifactSteps p e).filterMap (contentFault? e) = [] ↔
      ∀ s ∈ p.steps, ∀ spec, s.artifact = some spec → e.succeeded s = true →
        ∃ v, contentValue? e s spec = some v ∧ HasContent v := by
    simp only [List.filterMap_eq_nil_iff, contentFault?_eq_none, mem_artifactSteps]
    constructor
    · intro h s hs spec hspec hok
      exact h (s, spec) ⟨hs, hspec, hok⟩
    · intro h x hx
      exact h x.1 hx.1 x.2 hx.2.1 hx.2.2
  have values : p.outputSchema.filterMap (fun x => valueFault? (value x.1) x.1 x.2) = [] ↔
      (∀ x ∈ p.outputSchema, x.2.required = true → value x.1 ≠ .null) ∧
        ∀ x ∈ p.outputSchema, value x.1 ≠ .null → x.2.type.accepts (value x.1) = true := by
    simp only [List.filterMap_eq_nil_iff, valueFault?_eq_none]
    exact forall₂_and
  have claims : (if BoundInputs.citationMode e.inputs = .strict ∧
        Fields.contains claimsField p.outputSchema = true then
          (claimsFault? (value claimsField)).toList
        else []) = [] ↔
      (BoundInputs.citationMode e.inputs = .strict →
        Fields.contains claimsField p.outputSchema = true → ¬ Uncited (value claimsField)) := by
    split
    · rename_i h
      rw [Option.toList_eq_nil_iff, claimsFault?_eq_none]
      exact ⟨fun hcited _ _ => hcited, fun hcited => hcited h.1 h.2⟩
    · rename_i h
      exact ⟨fun _ hstrict hdecl => absurd ⟨hstrict, hdecl⟩ h, fun _ => rfl⟩
  rw [faultsOf, List.append_eq_nil_iff, List.append_eq_nil_iff, contents, values, claims]
  constructor
  · rintro ⟨⟨hcontent, hpresent, htyped⟩, hcited⟩
    exact ⟨hpresent, htyped, hcontent, hcited⟩
  · rintro ⟨hpresent, htyped, hcontent, hcited⟩
    exact ⟨⟨hcontent, hpresent, htyped⟩, hcited⟩

end Finalization

open Finalization

variable (p : Playbook) (e : Execution) (aggregated : Fields Json)

/-- Finalization is a matter of the faults of the final values. -/
theorem finalize_eq :
    finalize p e aggregated =
      match faultsOf p e (finalValue p e aggregated) with
      | [] => .ok ⟨p.outputSchema.map fun x => (x.1, finalValue p e aggregated x.1), e.outcome,
          flagsOf p e aggregated, drafts p e⟩
      | faults => .error faults := by
  have citation : (if BoundInputs.citationMode e.inputs = .strict then
        citationFaults p.outputSchema
          (p.outputSchema.map fun x => (x.1, finalValue p e aggregated x.1)) else []) =
      if BoundInputs.citationMode e.inputs = .strict ∧
          Fields.contains claimsField p.outputSchema = true then
        (claimsFault? (finalValue p e aggregated claimsField)).toList
      else [] := by
    by_cases hstrict : BoundInputs.citationMode e.inputs = .strict
    · rw [if_pos hstrict]
      by_cases hdecl : Fields.contains claimsField p.outputSchema = true
      · rw [if_pos (And.intro hstrict hdecl), citationFaults_eq p _ hdecl]
      · rw [if_neg (fun h => hdecl h.2), citationFaults, if_neg hdecl]
    · rw [if_neg hstrict, if_neg (fun h => hstrict h.1)]
  have output := withFlags_project p e aggregated
  rw [flagsOf] at output
  unfold finalize
  dsimp only
  rw [output, schemaFaults_eq, citation, draftFaults_eq]
  rfl

variable {p e aggregated} in
/-- What a successful finalization comes to is projected from the final values. -/
theorem projects_of_finalize {r : FinalResult} (h : finalize p e aggregated = .ok r) :
    Projects p e (finalValue p e aggregated) r := by
  have declared {name : String} (hdecl : Fields.contains name p.outputSchema = true) :
      Fields.get? name (p.outputSchema.map fun x => (x.1, finalValue p e aggregated x.1)) =
        some (finalValue p e aggregated name) := by
    obtain ⟨f, hf⟩ := Option.isSome_iff_exists.mp hdecl
    rw [get?_map_keys, hf, Option.map_some]
  rw [finalize_eq] at h
  cases hfaults : faultsOf p e (finalValue p e aggregated) with
  | cons fault rest =>
    rw [hfaults] at h
    cases h
  | nil =>
    rw [hfaults] at h
    cases h
    have stored : draftFaults p e = [] := by
      rw [faultsOf, List.append_eq_nil_iff, List.append_eq_nil_iff] at hfaults
      rw [draftFaults_eq]
      exact hfaults.1.1
    refine ⟨?_, get?_map_keys _ _, ⟨rfl, fun hdecl => ?_⟩, fun x hx hdecl => ?_,
      keeps_drafts p e stored⟩
    · rw [Fields.keys, List.map_map]
      rfl
    · rw [declared hdecl]
      rfl
    · rw [declared hdecl]
      have flag : Fields.get? x.1 (flagsOf p e aggregated).entries = some x.2 := by
        rcases x with ⟨name, b⟩
        simp only [GovernanceFlags.entries, List.mem_cons, List.not_mem_nil, or_false,
          Prod.mk.injEq] at hx
        rcases hx with ⟨rfl, rfl⟩ | ⟨rfl, rfl⟩ | ⟨rfl, rfl⟩ | ⟨rfl, rfl⟩ <;> rfl
      rw [finalValue, engineValue?, flag]
      rfl

theorem exists_of_mem_forall₂ {α β : Type} {R : α → β → Prop} {as : List α} {bs : List β}
    (h : List.Forall₂ R as bs) {b : β} (hb : b ∈ bs) : ∃ a ∈ as, R a b := by
  induction h with
  | nil => cases hb
  | @cons a _ as _ hab _ ih =>
    rcases List.mem_cons.mp hb with rfl | hb
    · exact ⟨a, List.mem_cons_self, hab⟩
    · obtain ⟨a', ha', hr⟩ := ih hb
      exact ⟨a', List.mem_cons_of_mem _ ha', hr⟩

/-- Finalization succeeds if and only if the final values conform to the schema, all artifacts have
content and strict citation is satisfied. Then the output is projected, and else all that is wrong
is named. -/
theorem finalize_checks_schema :
    ((∃ r, finalize p e aggregated = .ok r) ↔ Conforms p e (finalValue p e aggregated)) ∧
      (∀ r, finalize p e aggregated = .ok r → Projects p e (finalValue p e aggregated) r) ∧
      ∀ faults, finalize p e aggregated = .error faults →
        faults ≠ [] ∧ faults = faultsOf p e (finalValue p e aggregated) := by
  refine ⟨?_, fun r => projects_of_finalize, ?_⟩
  · rw [finalize_eq, ← faultsOf_eq_nil]
    cases faultsOf p e (finalValue p e aggregated) with
    | nil => exact ⟨fun _ => rfl, fun _ => ⟨_, rfl⟩⟩
    | cons fault rest => exact ⟨nofun, nofun⟩
  · intro faults h
    rw [finalize_eq] at h
    cases hfaults : faultsOf p e (finalValue p e aggregated) with
    | nil =>
      rw [hfaults] at h
      cases h
    | cons fault rest =>
      rw [hfaults] at h
      cases h
      exact ⟨List.cons_ne_nil _ _, rfl⟩

def articlePlaybook : Playbook where
  code := "article"
  version := "1.0.0"
  name := "Article"
  description := ""
  kind := .userWorkflow
  capabilityCode := some "seo"
  locale := "en"
  supportedLocales := ["en"]
  defaultLocale := "en"
  requiredTools := [⟨"seo", "rewrite"⟩]
  optionalTools := []
  steps := [⟨"rewrite", "", ⟨"seo", "rewrite"⟩, none, false, [], some ⟨"article", "content_md", "md"⟩⟩]
  inputSchema := []
  outputSchema := [(claimsField, ⟨.array, false, .overwriteLast⟩),
    ("content_md", ⟨.string, true, .overwriteLast⟩), ("is_artifact", ⟨.boolean, true, .overwriteLast⟩),
    (resultStatusField, ⟨.string, true, .overwriteLast⟩)]
  primaryScore := "score"
  tags := []
  sections := []

def writtenArticle (text : String) : Execution :=
  (Execution.init "e-1" "trace-1" "article" [("citation_mode", .str "strict")] ⟨0, 0⟩).record
    (.success "rewrite" (.obj [("content_md", .str text)]) 1 ⟨0, 0⟩ ⟨0, 0⟩)

def articleFields (text : String) : Fields Json :=
  [(claimsField, .arr [.obj [(anchorField, .str "#p1")]]), ("content_md", .str text),
    ("extra", .int 1), ("is_artifact", .str "no")]

/-- An article with some text is projected; of one without any, the missing content is named. -/
theorem articles_finalized :
    (∃ r, finalize articlePlaybook (writtenArticle "# A") (articleFields "# A") = .ok r ∧
      Projects articlePlaybook (writtenArticle "# A")
        (finalValue articlePlaybook (writtenArticle "# A") (articleFields "# A")) r) ∧
    finalize articlePlaybook (writtenArticle "") (articleFields "") =
        .error ["rewrite.content_md (no artifact content)"] ∧
      ["rewrite.content_md (no artifact content)"] = faultsOf articlePlaybook (writtenArticle "")
        (finalValue articlePlaybook (writtenArticle "") (articleFields "")) := by
  obtain ⟨-, projects, -⟩ :=
    finalize_checks_schema articlePlaybook (writtenArticle "# A") (articleFields "# A")
  obtain ⟨-, -, named⟩ :=
    finalize_checks_schema articlePlaybook (writtenArticle "") (articleFields "")
  exact ⟨⟨_, rfl, projects _ rfl⟩, rfl, (named _ rfl).2⟩

end PlaybookEngine
