import PlaybookEngine.Engine.Run

namespace PlaybookEngine

/-- Of two results that come to the same, both are errors, and the same one, or neither is. -/
theorem cases_of_map_eq {ε α β γ : Type} {f : α → γ} {f' : β → γ} {x : Except ε α}
    {y : Except ε β} (h : x.map f = y.map f') :
    (∃ err, x = .error err ∧ y = .error err) ∨
      ∃ a b, x = .ok a ∧ y = .ok b ∧ f a = f' b := by
  cases x with
  | error err =>
    cases y with
    | error err' =>
      obtain rfl := Except.error.inj h
      exact .inl ⟨err, rfl, rfl⟩
    | ok b => cases h
  | ok a =>
    cases y with
    | error err' => cases h
    | ok b => exact .inr ⟨a, b, rfl, rfl, Except.ok.inj h⟩

/-- A reading of the clock that tells nothing. -/
def Timestamp.zero : Timestamp := ⟨0, 0⟩

def StepResult.untimed (r : StepResult) : StepResult :=
  { r with startedAt := .zero, completedAt := .zero, durationMillis := 0 }

def Artifact.untimed (a : Artifact) : Artifact := { a with createdAt := .zero }

def ItemResult.untimed (r : ItemResult) : ItemResult :=
  { r with artifacts := r.artifacts.map Artifact.untimed }

def Execution.untimed (e : Execution) : Execution :=
  { e with
    stepResults := e.stepResults.map StepResult.untimed
    startedAt := .zero
    completedAt := e.completedAt.map fun _ => .zero }

def ExecutionResult.untimed (r : ExecutionResult) : ExecutionResult :=
  { r with
    stepResults := r.stepResults.map StepResult.untimed
    artifacts := r.artifacts.map Artifact.untimed
    items := r.items.map ItemResult.untimed
    startedAt := .zero
    completedAt := r.completedAt.map fun _ => .zero }

namespace Execution

variable {e e' : Execution}

theorem putResult_untimed (r : StepResult) (rs : List StepResult) :
    (putResult r rs).map StepResult.untimed =
      putResult r.untimed (rs.map StepResult.untimed) := by
  induction rs with
  | nil => rfl
  | cons s rest ih =>
    have step : s.untimed.stepId = s.stepId ∧ r.untimed.stepId = r.stepId := ⟨rfl, rfl⟩
    rw [List.map_cons, putResult, putResult, step.1, step.2]
    by_cases h : s.stepId = r.stepId
    · rw [if_pos h, if_pos h, List.map_cons]
    · rw [if_neg h, if_neg h, List.map_cons, ih]

theorem record_untimed (e : Execution) (r : StepResult) :
    (e.record r).untimed = e.untimed.record r.untimed := by
  simp [record, untimed, putResult_untimed]

theorem result?_untimed (e : Execution) (stepId : String) :
    e.untimed.result? stepId = (e.result? stepId).map StepResult.untimed := by
  simp only [result?, untimed, List.find?_map]
  rfl

theorem successfulOutputs_untimed (e : Execution) :
    e.untimed.successfulOutputs = e.successfulOutputs := by
  simp only [successfulOutputs, untimed, List.filterMap_map]
  rfl

theorem outcome_untimed (e : Execution) : e.untimed.outcome = e.outcome := by
  simp only [outcome, untimed, List.any_map]
  rfl

theorem advance_untimed (e : Execution) (next : ExecutionStatus) (now : Timestamp) :
    (e.advance next now).untimed = e.untimed.advance next .zero := by
  unfold advance
  rw [show e.untimed.status = e.status from rfl]
  split
  · simp only [untimed]
    split <;> rfl
  · rfl

theorem result_untimed (e : Execution) (p : Playbook) (output : Fields Json)
    (flags : GovernanceFlags) (artifacts : List Artifact) :
    (e.result p output flags artifacts []).untimed =
      e.untimed.result p output flags (artifacts.map Artifact.untimed) [] := rfl

theorem failure_congr (h : e.untimed = e'.untimed) (cause : EngineError) :
    e.failure cause = e'.failure cause := by
  rw [show e.failure cause = e.untimed.failure cause from rfl, h]
  rfl

theorem result?_record (e : Execution) (r : StepResult) :
    (e.record r).result? r.stepId = some r := by
  unfold record result?
  dsimp only
  induction e.stepResults with
  | nil => simp [putResult]
  | cons t rest ih =>
    rw [putResult]
    by_cases ht : t.stepId = r.stepId
    · simp [ht]
    · simpa [ht] using ih

end Execution

namespace Condition

mutual

theorem holds_untimed (e : Execution) : (c : Condition) → c.holds e.untimed = c.holds e
  | .always => rfl
  | .notSkipped _ => rfl
  | .inputPresent _ => rfl
  | .inputEquals _ _ => rfl
  | .inputIn _ _ => rfl
  | .flag _ => rfl
  | .stepSucceeded step => by
    rw [holds, holds, Execution.result?_untimed]
    cases e.result? step <;> rfl
  | .stepOutputEquals step _ _ => by
    rw [holds, holds, Execution.result?_untimed]
    cases e.result? step <;> rfl
  | .all cs => by rw [holds, holds, holdsAll_untimed e cs]
  | .any cs => by rw [holds, holds, holdsAny_untimed e cs]
  | .not c => by rw [holds, holds, holds_untimed e c]

theorem holdsAll_untimed (e : Execution) :
    (cs : List Condition) → holdsAll e.untimed cs = holdsAll e cs
  | [] => rfl
  | c :: cs => by rw [holdsAll, holdsAll, holds_untimed e c, holdsAll_untimed e cs]

theorem holdsAny_untimed (e : Execution) :
    (cs : List Condition) → holdsAny e.untimed cs = holdsAny e cs
  | [] => rfl
  | c :: cs => by rw [holdsAny, holdsAny, holds_untimed e c, holdsAny_untimed e cs]

end

end Condition

namespace Template

theorem value?_untimed (r : Reference) (e : Execution) : r.value? e.untimed = r.value? e := by
  have output : (e.untimed.result? r.name).bind (·.output) = (e.result? r.name).bind (·.output) := by
    rw [Execution.result?_untimed]
    cases e.result? r.name <;> rfl
  unfold Reference.value?
  rw [output]
  rfl

theorem renderText_untimed (e : Execution) (text : String) :
    renderText e.untimed text = renderText e text := by
  have same (s : Segment) : s.render e.untimed = s.render e := by
    cases s with
    | text c => rfl
    | hole r => rw [Segment.render, Segment.render, value?_untimed]
  unfold renderText
  simp only [value?_untimed, same]

mutual

theorem render_untimed (e : Execution) : (v : Json) → render e.untimed v = render e v
  | .str s => by rw [render, render, renderText_untimed]
  | .arr items => by rw [render, render, renderItems_untimed e items]
  | .obj fields => by rw [render, render, renderFields_untimed e fields]
  | .null => rfl
  | .bool _ => rfl
  | .int _ => rfl
  | .float _ => rfl

theorem renderItems_untimed (e : Execution) :
    (vs : List Json) → renderItems e.untimed vs = renderItems e vs
  | [] => rfl
  | v :: vs => by rw [renderItems, renderItems, render_untimed e v, renderItems_untimed e vs]

theorem renderFields_untimed (e : Execution) :
    (fs : List (String × Json)) → renderFields e.untimed fs = renderFields e fs
  | [] => rfl
  | (_, v) :: fs => by
    rw [renderFields, renderFields, render_untimed e v, renderFields_untimed e fs]

end

end Template

namespace Step

variable {e e' : Execution}

theorem shouldRun_congr (h : e.untimed = e'.untimed) (s : Step) :
    s.shouldRun e = s.shouldRun e' := by
  have untimed (e : Execution) : s.shouldRun e.untimed = s.shouldRun e := by
    unfold shouldRun
    split
    · rfl
    · exact Condition.holds_untimed e _
  rw [← untimed e, h, untimed]

theorem renderedParams_congr (h : e.untimed = e'.untimed) (s : Step) :
    s.renderedParams e = s.renderedParams e' := by
  have untimed (e : Execution) : s.renderedParams e.untimed = s.renderedParams e := by
    unfold renderedParams
    rw [Template.renderFields_untimed]
    rfl
  rw [← untimed e, h, untimed]

end Step

namespace Finalization

theorem draftResults_untimed (p : Playbook) (e : Execution) :
    draftResults p e.untimed = draftResults p e := by
  have same : draftOf p e.untimed = draftOf p e := by
    funext s
    unfold draftOf
    rw [Execution.result?_untimed]
    cases e.result? s.id <;> rfl
  rw [draftResults, draftResults, same]

end Finalization

theorem finalize_untimed (p : Playbook) (e : Execution) (aggregated : Fields Json) :
    finalize p e.untimed aggregated = finalize p e aggregated := by
  have fields : Finalization.withEngineFields e.untimed aggregated =
      Finalization.withEngineFields e aggregated := by
    unfold Finalization.withEngineFields
    rw [Execution.outcome_untimed]
    rfl
  unfold finalize Finalization.drafts Finalization.draftFaults
  rw [Finalization.draftResults_untimed, fields, Execution.outcome_untimed]
  rfl

/-- What an execution is finalized to does not depend on the clock. -/
theorem finalize_congr {e e' : Execution} (h : e.untimed = e'.untimed) (p : Playbook) :
    finalize p e (aggregate p.outputSchema e.successfulOutputs) =
      finalize p e' (aggregate p.outputSchema e'.successfulOutputs) := by
  rw [← finalize_untimed, ← finalize_untimed p e', ← e.successfulOutputs_untimed,
    ← e'.successfulOutputs_untimed, h]

end PlaybookEngine
