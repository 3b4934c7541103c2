import PlaybookEngine.Output.Finalization
import PlaybookEngine.Proofs.Fields.Ordered

namespace PlaybookEngine

namespace Finalization

/-- The claims are a list with something in it, and each has a text as its anchor that does not
consist of blanks only. -/
def Cited (output : Fields Json) : Prop :=
  ∃ claims, Fields.get? claimsField output = some (.arr claims) ∧ claims ≠ [] ∧
    ∀ claim ∈ claims, ∃ s, claim.get? anchorField = some (.str s) ∧
      ∃ c ∈ s.toList, Text.isBlank c = false

theorem isAnchored_iff (claim : Json) :
    isAnchored claim = true ↔
      ∃ s, claim.get? anchorField = some (.str s) ∧ ∃ c ∈ s.toList, Text.isBlank c = false := by
  have text (v : Json) (s : String) : v.str? = some s ↔ v = .str s := by
    cases v <;> simp [Json.str?]
  unfold isAnchored
  cases hanchor : (claim.get? anchorField).bind Json.str? with
  | none =>
    simp only [Bool.false_eq_true, false_iff, not_exists, not_and]
    intro s hs
    rw [hs] at hanchor
    cases hanchor
  | some s =>
    obtain ⟨v, hv, hs⟩ := Option.bind_eq_some_iff.mp hanchor
    obtain rfl := (text v s).mp hs
    simp [hv, Text.isBlankText]

theorem get?_project {schema : Fields OutputField} {name : String} {f : OutputField}
    (h : Fields.get? name schema = some f) (fields : Fields Json) :
    Fields.get? name (project schema fields) = some (Json.ofOption (Fields.get? name fields)) := by
  induction schema with
  | nil => cases h
  | cons q rest ih =>
    obtain ⟨j, g⟩ := q
    rw [Fields.get?_cons] at h
    rw [project, List.map_cons, Fields.get?_cons]
    split
    · rename_i hj
      rw [hj]
    · rename_i hj
      rw [if_neg hj] at h
      exact ih h

/-- Only the fields named like a flag are changed. -/
theorem get?_withFlags {flags : GovernanceFlags} {name : String}
    (h : Fields.get? name flags.entries = none) (output : Fields Json) :
    Fields.get? name (withFlags flags output) = Fields.get? name output := by
  induction output with
  | nil => rfl
  | cons q rest ih =>
    obtain ⟨j, v⟩ := q
    by_cases hj : j = name
    · subst hj
      simp [withFlags, h, Fields.get?_cons]
    · have kept : Fields.get? name (withFlags flags ((j, v) :: rest)) =
          Fields.get? name (withFlags flags rest) := by
        rw [withFlags, List.map_cons]
        cases Fields.get? j flags.entries <;> simp [Fields.get?_cons, hj, withFlags]
      rw [kept, ih, Fields.get?_cons, if_neg hj]

/-- Without faults, the value of a declared field conforms to its type, unless it is null. -/
theorem accepts_of_schemaFaults {schema : Fields OutputField} {output : Fields Json}
    {name : String} {f : OutputField} (hdecl : Fields.get? name schema = some f)
    (h : schemaFaults schema output = []) :
    (Json.ofOption (Fields.get? name output)).isNull = true ∨
      f.type.accepts (Json.ofOption (Fields.get? name output)) = true := by
  have fine : fieldFault? output name f = none :=
    List.filterMap_eq_nil_iff.mp h _ (Fields.mem_of_get? hdecl)
  simp only [fieldFault?] at fine
  split at fine
  · rename_i hnull
    exact .inl hnull
  · split at fine
    · rename_i haccepts
      exact .inr haccepts
    · cases fine

/-- Without citation faults there are claims, and a list of them is cited. -/
theorem cited_of_citationFaults {schema : Fields OutputField} {output : Fields Json}
    {f : OutputField} {v : Json} (hdecl : Fields.get? claimsField schema = some f)
    (hv : Fields.get? claimsField output = some v) (h : citationFaults schema output = []) :
    v ≠ .null ∧ ∀ claims, v = .arr claims → Cited output := by
  have declared : Fields.contains claimsField schema = true := by
    rw [Fields.contains, hdecl]
    rfl
  rw [citationFaults, if_pos declared, hv] at h
  constructor
  · rintro rfl
    simp [Json.ofOption] at h
  · rintro claims rfl
    cases claims with
    | nil => simp [Json.ofOption] at h
    | cons c cs =>
      simp only [Json.ofOption, Option.getD_some] at h
      split at h
      · rename_i hall
        refine ⟨c :: cs, hv, List.cons_ne_nil c cs, ?_⟩
        intro claim hclaim
        exact (isAnchored_iff claim).mp (List.all_eq_true.mp hall claim hclaim)
      · cases h

end Finalization

open Finalization

/-- A finalized execution has none of the faults. -/
theorem faults_of_finalize {p : Playbook} {e : Execution} {aggregated : Fields Json}
    {r : FinalResult} (h : finalize p e aggregated = .ok r) :
    r.output = withFlags r.flags (project p.outputSchema (withEngineFields e aggregated)) ∧
      draftFaults p e = [] ∧ schemaFaults p.outputSchema r.output = [] ∧
      (BoundInputs.citationMode e.inputs = .strict →
        citationFaults p.outputSchema r.output = []) := by
  unfold finalize at h
  dsimp only at h
  split at h
  · rename_i hnone
    cases h
    rw [List.append_eq_nil_iff, List.append_eq_nil_iff] at hnone
    refine ⟨rfl, hnone.1.1, hnone.1.2, ?_⟩
    intro hstrict
    rw [if_pos hstrict] at hnone
    exact hnone.2
  · cases h

/-- Under strict citation the declared claims of a finalized output are a value of their type. They
are cited if and only if they are a list, which only the type of lists makes sure of. -/
theorem strict_citation_iff_list {p : Playbook} {e : Execution} {aggregated : Fields Json}
    {r : FinalResult} {f : OutputField} (hdecl : Fields.get? claimsField p.outputSchema = some f)
    (hstrict : BoundInputs.citationMode e.inputs = .strict)
    (hok : finalize p e aggregated = .ok r) :
    ∃ v, Fields.get? claimsField r.output = some v ∧ f.type.accepts v = true ∧
      (Cited r.output ↔ ∃ claims, v = .arr claims) ∧ (f.type = .array → Cited r.output) := by
  obtain ⟨hout, -, hschema, hcitation⟩ := faults_of_finalize hok
  have unflagged : Fields.get? claimsField r.flags.entries = none := by
    simp [GovernanceFlags.entries, Fields.get?, claimsField]
  have value : ∃ v, Fields.get? claimsField r.output = some v := by
    rw [hout, get?_withFlags unflagged, get?_project hdecl]
    exact ⟨_, rfl⟩
  obtain ⟨v, hv⟩ := value
  obtain ⟨present, cited⟩ := cited_of_citationFaults hdecl hv (hcitation hstrict)
  have accepted : f.type.accepts v = true := by
    have conforms := accepts_of_schemaFaults hdecl hschema
    rw [hv] at conforms
    rcases conforms with hnull | haccepts
    · exact absurd ((Json.isNull_iff v).mp hnull) present
    · exact haccepts
  have listed : Cited r.output ↔ ∃ claims, v = .arr claims := by
    constructor
    · rintro ⟨claims, hclaims, -⟩
      rw [hv] at hclaims
      exact ⟨claims, Option.some.inj hclaims⟩
    · rintro ⟨claims, hclaims⟩
      exact cited claims hclaims
  refine ⟨v, hv, accepted, listed, ?_⟩
  intro hlist
  rw [hlist] at accepted
  cases v with
  | arr claims => exact listed.mpr ⟨claims, rfl⟩
  | _ => cases accepted

/-- A playbook whose claims may be anything. -/
def notesPlaybook : Playbook :=
  ⟨"notes", "1.0.0", "Notes", "", .userWorkflow, none, "en", ["en"], "en", [], [], [], [],
    [(claimsField, ⟨.any, true, .overwriteLast⟩)], "score", [], []⟩

def strictExecution : Execution :=
  .init "e-1" "trace-1" "notes" [("citation_mode", .str "strict")] ⟨0, 0⟩

theorem anchored_notes_cited :
    ∃ r, finalize notesPlaybook strictExecution
        [(claimsField, .arr [.obj [(anchorField, .str "#p1")]])] = .ok r ∧ Cited r.output := by
  refine ⟨_, rfl, ?_⟩
  have strict : BoundInputs.citationMode strictExecution.inputs = .strict := by decide
  have finalized : finalize notesPlaybook strictExecution
      [(claimsField, .arr [.obj [(anchorField, .str "#p1")]])] = .ok _ := rfl
  obtain ⟨v, hv, -, listed, -⟩ := strict_citation_iff_list rfl strict finalized
  exact listed.mpr ⟨_, (Option.some.inj hv).symm⟩

/-- Claims in prose pass. -/
theorem prose_notes_not_cited :
    ∃ r, finalize notesPlaybook strictExecution [(claimsField, .str "none given")] = .ok r ∧
      ¬ Cited r.output := by
  refine ⟨_, rfl, ?_⟩
  rintro ⟨claims, hclaims, -⟩
  cases hclaims

end PlaybookEngine
