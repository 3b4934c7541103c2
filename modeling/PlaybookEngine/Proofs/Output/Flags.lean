import PlaybookEngine.Proofs.Output.Schema

namespace PlaybookEngine

/-- A list or an object with something in it. -/
inductive Json.Populated : Json → Prop
  | arr {items : List Json} (h : items ≠ []) : Populated (.arr items)
  | obj {fields : Fields Json} (h : fields ≠ []) : Populated (.obj fields)

namespace GovernanceFlags

theorem isPopulated_iff {v : Json} : isPopulated v = true ↔ v.Populated := by
  constructor
  · intro h
    cases v with
    | arr items => exact .arr (of_decide_eq_true h)
    | obj fields => exact .obj (of_decide_eq_true h)
    | _ => cases h
  · rintro (h | h) <;> exact decide_eq_true h

def names : List String := ["is_artifact", "has_structured_output", "should_embed", "is_final"]

theorem get?_entries_eq_none {f : GovernanceFlags} {name : String} :
    Fields.get? name f.entries = none ↔ name ∉ names := by
  have hkeys : names = Fields.keys f.entries := rfl
  rw [hkeys, Fields.mem_keys_iff, not_not]

end GovernanceFlags

namespace Finalization

/-- Some field has structure. -/
def Structured (output : Fields Json) : Prop := ∃ x ∈ output, x.2.Populated

/-- The tools left structure in a declared field that a flag is put into. -/
def Overwritten (schema : Fields OutputField) (aggregated : Fields Json) : Prop :=
  ∃ x ∈ schema, x.1 ∈ GovernanceFlags.names ∧
    ∃ v, Fields.get? x.1 aggregated = some v ∧ v.Populated

theorem populated_ofOption {o : Option Json} :
    (Json.ofOption o).Populated ↔ ∃ v, o = some v ∧ v.Populated := by
  cases o with
  | some v => exact ⟨fun h => ⟨v, rfl, h⟩, fun ⟨_, hv, h⟩ => Option.some.inj hv ▸ h⟩
  | none =>
    refine ⟨fun h => ?_, fun ⟨_, hv, _⟩ => by cases hv⟩
    change Json.null.Populated at h
    cases h

/-- A flag is no structure: what is left is in the other fields. -/
theorem structured_withFlags {flags : GovernanceFlags} {output : Fields Json} :
    Structured (withFlags flags output) ↔
      ∃ x ∈ output, x.1 ∉ GovernanceFlags.names ∧ x.2.Populated := by
  simp only [Structured, withFlags, List.mem_map, exists_exists_and_eq_and,
    ← GovernanceFlags.get?_entries_eq_none (f := flags)]
  refine exists_congr fun x => and_congr_right fun _ => ?_
  cases Fields.get? x.1 flags.entries with
  | none => exact (and_iff_right rfl).symm
  | some b => exact iff_of_false (fun h => by cases h) (fun h => by cases h.1)

/-- In the fields that flags are put into, structure can only come from the tools. -/
theorem structured_project {schema : Fields OutputField} {e : Execution}
    {aggregated : Fields Json} :
    (∃ x ∈ project schema (withEngineFields e aggregated),
        x.1 ∈ GovernanceFlags.names ∧ x.2.Populated) ↔ Overwritten schema aggregated := by
  have hfield : ∀ x : String × OutputField, x.1 ∈ GovernanceFlags.names →
      Fields.get? x.1 (withEngineFields e aggregated) = Fields.get? x.1 aggregated := by
    intro x hx
    have hstatus : x.1 ≠ resultStatusField := fun h => by
      rw [h] at hx
      revert hx
      decide
    have hsummary : x.1 ≠ batchSummaryField := fun h => by
      rw [h] at hx
      revert hx
      decide
    rw [get?_withEngineFields, if_neg hstatus, if_neg hsummary]
  simp only [Overwritten, project, List.mem_map, exists_exists_and_eq_and, populated_ofOption]
  refine exists_congr fun x => and_congr_right fun _ => and_congr_right fun hx => ?_
  rw [hfield x hx]

end Finalization

open Finalization

variable {p : Playbook} {e : Execution} {aggregated : Fields Json} {r : FinalResult}

theorem flags_of_finalize (h : finalize p e aggregated = .ok r) :
    r.flags = flagsOf p e aggregated ∧ r.artifacts = drafts p e := by
  rw [finalize_eq] at h
  split at h <;> cases h
  exact ⟨rfl, rfl⟩

/-- Structure is reported when it is in the output or was in a field that a flag has replaced. So
the report is true of the output unless the only structure was in such fields. Artifacts are
reported exactly when there are drafts. -/
theorem structured_output_reported_iff (h : finalize p e aggregated = .ok r) :
    (r.flags.isArtifact = true ↔ r.artifacts ≠ []) ∧
    (r.flags.hasStructuredOutput = true ↔
      Structured r.output ∨ Overwritten p.outputSchema aggregated) ∧
    ((r.flags.hasStructuredOutput = true ↔ Structured r.output) ↔
      (Overwritten p.outputSchema aggregated → Structured r.output)) := by
  obtain ⟨hflags, hdrafts⟩ := flags_of_finalize h
  obtain ⟨houtput, -⟩ := faults_of_finalize h
  have hartifact : r.flags.isArtifact = true ↔ r.artifacts ≠ [] := by
    rw [hflags, hdrafts]
    exact decide_eq_true_iff.trans List.length_pos_iff
  have hstructured : r.flags.hasStructuredOutput = true ↔
      Structured r.output ∨ Overwritten p.outputSchema aggregated := by
    rw [houtput, structured_withFlags, ← structured_project (e := e), hflags]
    have hany : (flagsOf p e aggregated).hasStructuredOutput = true ↔
        Structured (project p.outputSchema (withEngineFields e aggregated)) := by
      simp only [flagsOf, GovernanceFlags.derive, List.any_eq_true,
        GovernanceFlags.isPopulated_iff, Structured]
    rw [hany, Structured]
    constructor
    · rintro ⟨x, hx, hpopulated⟩
      by_cases hname : x.1 ∈ GovernanceFlags.names
      · exact .inr ⟨x, hx, hname, hpopulated⟩
      · exact .inl ⟨x, hx, hname, hpopulated⟩
    · rintro (⟨x, hx, -, hpopulated⟩ | ⟨x, hx, -, hpopulated⟩) <;> exact ⟨x, hx, hpopulated⟩
  refine ⟨hartifact, hstructured, ?_⟩
  rw [hstructured]
  exact or_iff_left_iff_imp

/-- The article has its claims as a list, and is itself an artifact. -/
theorem article_structure_reported :
    ∃ r, finalize articlePlaybook (writtenArticle "# A") (articleFields "# A") = .ok r ∧
      r.flags.isArtifact = true ∧ r.flags.hasStructuredOutput = true ∧ Structured r.output ∧
      ¬Overwritten articlePlaybook.outputSchema (articleFields "# A") := by
  have hfinalized : finalize articlePlaybook (writtenArticle "# A") (articleFields "# A") = .ok _ :=
    rfl
  obtain ⟨hartifact, hstructured, -⟩ := structured_output_reported_iff hfinalized
  have hkept : ¬Overwritten articlePlaybook.outputSchema (articleFields "# A") := by
    rintro ⟨x, hx, hname, v, hv, hpopulated⟩
    simp only [articlePlaybook, List.mem_cons, List.not_mem_nil, or_false] at hx
    rcases hx with rfl | rfl | rfl | rfl
    · revert hname
      decide
    · revert hname
      decide
    · obtain rfl := Option.some.inj hv
      cases hpopulated
    · cases hv
  refine ⟨_, hfinalized, hartifact.mpr (List.cons_ne_nil _ _), rfl, ?_, hkept⟩
  exact (hstructured.mp rfl).resolve_right hkept

/-- A playbook that declares a flag as its only field, which the tools fill with chapters. -/
def chaptersPlaybook : Playbook :=
  { notesPlaybook with outputSchema := [("is_final", ⟨.any, true, .overwriteLast⟩)] }

/-- Structure is reported, but the chapters have given way to the flag. -/
theorem overwritten_chapters_reported :
    ∃ r, finalize chaptersPlaybook strictExecution
        [("is_final", .arr [.str "first chapter"])] = .ok r ∧
      r.output = [("is_final", .bool false)] ∧
      ¬(r.flags.hasStructuredOutput = true ↔ Structured r.output) := by
  refine ⟨_, rfl, rfl, fun h => ?_⟩
  obtain ⟨x, hx, hpopulated⟩ := h.mp rfl
  obtain rfl := List.mem_singleton.mp hx
  cases hpopulated

end PlaybookEngine
