import PlaybookEngine.Proofs.Engine.Segments
import PlaybookEngine.Proofs.Engine.Share

namespace PlaybookEngine

namespace Engine

open Activity

variable (answers : ToolAnswers) (settings : StepSettings) (p : Playbook) (traceId : String)

/-- Every step was skipped, and there was one. -/
def AllSkipped (e : Execution) : Prop :=
  e.stepResults ≠ [] ∧ e.stepResults.all (·.status == .skipped)

instance (e : Execution) : Decidable (AllSkipped e) := inferInstanceAs (Decidable (_ ∧ _))

def score (output : Fields Json) : Option Binary64 :=
  (Fields.get? p.primaryScore output).bind Json.number?

/-- What an item comes to whose steps have run, on a store of its own. -/
def itemEnd (index : Nat) (id : String) (st : ArtifactStore) (e : Execution) : ItemResult :=
  if AllSkipped e then .skipped index id
  else
    match (completion p e .zero st).1 with
    | .error err => .failed index (some id) (e.failure err)
    | .ok r => .success index id r.output (score p r.output) r.artifacts

/-- What an item comes to whose execution has the id, on a store of its own. -/
def itemOutcome (index : Nat) (inputs : BoundInputs) (st : ArtifactStore) (id : String) :
    ItemResult :=
  let e := Execution.begin id traceId p inputs .zero
  match stepsOutcome answers settings p p.steps e with
  | .error err => .failed index (some id) (e.failure err)
  | .ok (_, e) => itemEnd p index id st e

/-- A result of an item that follows from its inputs. -/
def ItemComes (st : ArtifactStore) (index : Nat) (raw : Fields Json) (r : ItemResult) : Prop :=
  match bind p.inputSchema raw with
  | .error err => r = .failed index none ((EngineError.validation err).toFailure (some traceId))
  | .ok inputs => ∃ id, r.executionId = some id ∧
      r.untimed = (itemOutcome answers settings p traceId index inputs st id).untimed

theorem allSkipped_congr {e e' : Execution} (he : e.untimed = e'.untimed) :
    AllSkipped e ↔ AllSkipped e' := by
  have untimed (e : Execution) : AllSkipped e.untimed ↔ AllSkipped e := by
    simp only [AllSkipped, Execution.untimed, List.all_map, ne_eq, List.map_eq_nil_iff]
    rfl
  rw [← untimed e, he, untimed]

def Progress.execution : Progress → Execution
  | .finished e => e
  | .dispatched _ e => e

omit traceId in
theorem stepsOutcome_frame {steps : List Step} {e e' : Execution} {b : Bool}
    (h : stepsOutcome answers settings p steps e = .ok (b, e')) :
    e'.id = e.id ∧ e'.failure = e.failure := by
  induction steps generalizing e with
  | nil =>
    cases h
    exact ⟨rfl, rfl⟩
  | cons s rest ih =>
    rw [stepsOutcome] at h
    split at h
    · split at h
      · cases h
        exact ⟨rfl, rfl⟩
      · have same := ih h
        exact same
    · split at h
      · have same := ih h
        exact same
      · cases h

omit traceId in
theorem not_allSkipped_of_dispatched {steps : List Step} {e e' : Execution}
    (h : stepsOutcome answers settings p steps e = .ok (true, e')) : ¬ AllSkipped e' := by
  induction steps generalizing e with
  | nil => cases h
  | cons s rest ih =>
    rw [stepsOutcome] at h
    split at h
    · rename_i r _
      split at h
      · rename_i hstatus
        cases h
        have found := e.stepping.result?_record r
        have mem := List.mem_of_find?_eq_some found
        intro skipped
        have status := List.all_eq_true.mp skipped.2 r mem
        rw [hstatus] at status
        cases status
      · exact ih h
    · split at h
      · exact ih h
      · cases h

def endItem (index : Nat) (id : String) (e : Execution) : Activity Working ItemResult := do
  if AllSkipped e then return .skipped index id
  else
    match ← complete p e with
    | .error err => return .failed index (some id) (e.failure err)
    | .ok r => return .success index id r.output (score p r.output) r.artifacts

omit traceId settings in
theorem endItem_assures (limit : Span) {e e₀ : Execution} (he : e.untimed = e₀.untimed)
    {v : Share} (hid : v.id = some e.id) {st : ArtifactStore} (hst : v.store = st) (index : Nat)
    (id : String) :
    (endItem p index id e).Assures (Working.shared answers limit p.artifactCapability) v
      fun r _ => r.executionId = some id ∧ r.untimed = (itemEnd p index id st e₀).untimed := by
  unfold endItem itemEnd
  by_cases hs : AllSkipped e
  · rw [if_pos hs, if_pos ((allSkipped_congr he).mp hs)]
    exact ⟨rfl, rfl⟩
  · have hs₀ : ¬ AllSkipped e₀ := by
      rw [← allSkipped_congr he]
      exact hs
    rw [if_neg hs, if_neg hs₀, assures_bind]
    have completed := complete_assures answers limit p he hid (congrArg ArtifactStore.outline hst)
    apply completed.mono (Working.shared_mono _ _ _)
    intro y v' hy
    rcases cases_of_map_eq hy with ⟨err, rfl, h₀⟩ | ⟨r, r₀, rfl, h₀, same⟩
    · rw [h₀]
      have fails := Execution.failure_congr he err
      refine ⟨rfl, ?_⟩
      exact congrArg (fun f => (ItemResult.failed index (some id) f).untimed) fails
    · rw [h₀]
      have output := congrArg ExecutionResult.output same
      have artifacts := congrArg ExecutionResult.artifacts same
      change r.output = r₀.output at output
      change r.artifacts.map Artifact.untimed = r₀.artifacts.map Artifact.untimed at artifacts
      refine ⟨rfl, ?_⟩
      simp only [ItemResult.untimed, ItemResult.success, output, artifacts]

/-- An item comes to what follows from its inputs, the answers of the tools and the store without
the other items. -/
theorem runItem_assures (st : ArtifactStore) (index : Nat) (raw : Fields Json) :
    (runItem settings p traceId index raw).Assures
      (Working.shared answers settings.timeout p.artifactCapability) ⟨none, st, 2⟩
      fun r _ => ItemComes answers settings p traceId st index raw r := by
  unfold runItem ItemComes
  cases bind p.inputSchema raw with
  | error err => rfl
  | ok inputs =>
    dsimp only
    rw [assures_bind, Working.freshId_assures]
    refine ⟨Nat.succ_pos 1, ?_⟩
    intro id
    rw [assures_bind, Working.now_assures]
    intro now
    rw [assures_bind]
    have same : (Execution.begin id traceId p inputs now).untimed =
        (Execution.begin id traceId p inputs .zero).untimed := rfl
    have steps := runSteps_assures answers settings p p.artifactCapability
      (v := Share.draw ⟨none, st, 2⟩ id) p.steps same rfl Nat.one_pos
    apply steps.mono (Working.shared_mono _ _ _)
    intro y v' hh
    obtain ⟨hid, hstore, hy⟩ := hh
    unfold itemOutcome
    dsimp only
    rcases cases_of_map_eq hy with ⟨err, rfl, h₀⟩ | ⟨progress, ⟨b, e₀⟩, rfl, h₀, hseen⟩
    · refine ⟨id, rfl, ?_⟩
      rw [h₀, Execution.failure_congr same]
    · have he : progress.execution.untimed = e₀.untimed := by
        cases progress <;> exact congrArg Prod.snd hseen
      have hid' : v'.id = some progress.execution.id := by
        have ids := congrArg Execution.id he
        change progress.execution.id = e₀.id at ids
        rw [hid, ids, (stepsOutcome_frame answers settings p h₀).1]
        rfl
      have ended := endItem_assures answers p settings.timeout he hid' hstore index id
      change (endItem p index id progress.execution).Assures _ v' _
      apply ended.mono (Working.shared_mono _ _ _)
      intro r _ hh
      obtain ⟨hr, out⟩ := hh
      refine ⟨id, hr, ?_⟩
      rw [h₀]
      exact out

end Engine

end PlaybookEngine
