import PlaybookEngine.Proofs.Engine.Discipline
import PlaybookEngine.Proofs.Engine.Order
import PlaybookEngine.Proofs.Output.Schema

namespace PlaybookEngine

/-- The playbook has a step of that name whose tool may fail. -/
def Playbook.Excuses (p : Playbook) (stepId : String) : Prop :=
  ∃ s ∈ p.steps, s.id = stepId ∧ p.isOptionalTool s.tool = true

theorem Playbook.isOptionalTool_iff {p : Playbook} {t : ToolRef} :
    p.isOptionalTool t = true ↔ t ∈ p.optionalTools ∧ t ∉ p.requiredTools := by
  simp [isOptionalTool]

namespace Execution

/-- The execution is under way, and the steps that have failed may fail. -/
structure Tolerates (p : Playbook) (e : Execution) : Prop where
  running : e.status = .running
  excused : ∀ r ∈ e.stepResults, r.status = .failed → p.Excuses r.stepId

variable {p : Playbook} {e : Execution}

theorem mem_putResult {r x : StepResult} {rs : List StepResult} (h : x ∈ putResult r rs) :
    x = r ∨ x ∈ rs := by
  induction rs with
  | nil => exact .inl (List.mem_singleton.mp h)
  | cons y rest ih =>
    rw [putResult] at h
    split at h
    · exact (List.mem_cons.mp h).imp_right (List.mem_cons_of_mem y)
    · rcases List.mem_cons.mp h with rfl | h
      · exact .inr List.mem_cons_self
      · exact (ih h).imp_right (List.mem_cons_of_mem y)

theorem Tolerates.record (h : e.Tolerates p) {r : StepResult}
    (hr : r.status = .failed → p.Excuses r.stepId) : (e.record r).Tolerates p := by
  refine ⟨h.running, fun x hx hfailed => ?_⟩
  rcases mem_putResult hx with rfl | hx
  · exact hr hfailed
  · exact h.excused x hx hfailed

theorem Tolerates.next (h : e.Tolerates p) (n : Nat) :
    ({ e with nextStep := n } : Execution).Tolerates p := ⟨h.running, h.excused⟩

theorem outcome_eq_partialFailure :
    e.outcome = .partialFailure ↔ ∃ r ∈ e.stepResults, r.status = .failed := by
  rw [outcome]
  split
  · rename_i hany
    simpa using hany
  · rename_i hany
    simpa using hany

theorem outcome_eq_success :
    e.outcome = .success ↔ ∀ r ∈ e.stepResults, r.status ≠ .failed := by
  rw [outcome]
  split
  · rename_i hany
    simpa using hany
  · rename_i hany
    simpa using hany

/-- A running execution ends with what its results imply. -/
theorem advance_outcome (h : e.status = .running) (now : Timestamp) :
    (e.advance e.outcome now).status = e.outcome ∧
      (e.advance e.outcome now).completedAt = some now := by
  rcases (show e.outcome = .partialFailure ∨ e.outcome = .success by
    unfold outcome
    split
    · exact .inl rfl
    · exact .inr rfl) with hout | hout
  · simp [advance, h, hout, ExecutionStatus.canAdvanceTo, ExecutionStatus.isTerminal]
  · simp [advance, h, hout, ExecutionStatus.canAdvanceTo, ExecutionStatus.isTerminal]

end Execution

open Finalization in
/-- The status of the result agrees with its steps, and with its output. -/
structure ExecutionResult.Agrees (p : Playbook) (r : ExecutionResult) : Prop where
  playbook : r.playbookCode = p.code ∧ r.locale = p.locale
  success_iff : r.status = .success ↔
    ∀ x ∈ r.stepResults, x.status = .success ∨ x.status = .skipped
  partialFailure_iff : r.status = .partialFailure ↔ ∃ x ∈ r.stepResults, x.status = .failed
  either : r.status = .success ∨ r.status = .partialFailure
  ended : ∃ now, r.completedAt = some now
  declared : Fields.contains resultStatusField p.outputSchema = true →
    Fields.get? resultStatusField r.output = some (.named r.status)
  excused : ∀ x ∈ r.stepResults, x.status = .failed →
    ∃ s ∈ p.steps, s.id = x.stepId ∧ s.tool ∈ p.optionalTools ∧ s.tool ∉ p.requiredTools

/-- Without a job that is out, what a tolerant execution comes to agrees with its steps. -/
theorem Execution.Tolerates.agrees {p : Playbook} {e : Execution} (h : e.Tolerates p)
    (hsettled : e.Settled) {final : FinalResult}
    (hfinal : finalize p e (aggregate p.outputSchema e.successfulOutputs) = .ok final)
    (artifacts : List Artifact) (now : Timestamp) :
    ((e.advance final.status now).result p final.output final.flags artifacts []).Agrees p := by
  obtain ⟨hstatus, hdeclared⟩ := (projects_of_finalize hfinal).status
  obtain ⟨hend, hcompleted⟩ := Execution.advance_outcome h.running now
  have same : (e.advance e.outcome now).stepResults = e.stepResults :=
    Engine.stepResults_advance e _ now
  have fine (x : StepResult) (hx : x ∈ e.stepResults) :
      x.status ≠ .failed ↔ x.status = .success ∨ x.status = .skipped := by
    have settled := hsettled x hx
    revert settled
    cases x.status <;> decide
  rw [hstatus] at hdeclared ⊢
  constructor
  case playbook => exact ⟨rfl, rfl⟩
  case success_iff =>
    change (e.advance e.outcome now).status = _ ↔ ∀ x ∈ (e.advance e.outcome now).stepResults, _
    rw [hend, same, Execution.outcome_eq_success]
    exact forall₂_congr fine
  case partialFailure_iff =>
    change (e.advance e.outcome now).status = _ ↔ ∃ x ∈ (e.advance e.outcome now).stepResults, _
    rw [hend, same, Execution.outcome_eq_partialFailure]
  case either =>
    change (e.advance e.outcome now).status = _ ∨ (e.advance e.outcome now).status = _
    rw [hend, Execution.outcome_eq_success, Execution.outcome_eq_partialFailure]
    by_cases hany : ∃ r ∈ e.stepResults, r.status = .failed
    · exact .inr hany
    · exact .inl fun r hr hfailed => hany ⟨r, hr, hfailed⟩
  case ended => exact ⟨now, hcompleted⟩
  case declared =>
    change _ → _ = some (Json.named (e.advance e.outcome now).status)
    rw [hend]
    exact hdeclared
  case excused =>
    change ∀ x ∈ (e.advance e.outcome now).stepResults, _
    rw [same]
    intro x hx hfailed
    obtain ⟨s, hs, hid, hopt⟩ := h.excused x hx hfailed
    exact ⟨s, hs, hid, Playbook.isOptionalTool_iff.mp hopt⟩

/-- The execution has tolerated what failed, and waits for the job of one of its steps. -/
def Suspended.Tolerant (g : Engine) (s : Suspended) : Prop :=
  g.registry.Holds s.playbook ∧ s.execution.Tolerates s.playbook ∧
    ∃ step ∈ s.playbook.steps, step.id = s.handle.stepId ∧ step.tool = s.handle.tool

/-- Unless a job is out, the result agrees with its steps. -/
def ExecutionResult.Tolerant (g : Engine) (r : ExecutionResult) : Prop :=
  ∃ p, g.registry.Holds p ∧ ((∀ x ∈ r.stepResults, x.status ≠ .dispatched) → r.Agrees p)

namespace Step

open Activity

/-- A result of the step is not a failure. -/
def Succeeds : Except StepError StepResult → Prop := Yields fun r => r.status ≠ .failed

theorem attempt_succeeds (s : Step) (settings : StepSettings) (params : Json) (start : Timestamp)
    (left made : Nat) :
    (s.attempt settings params start left made).Abides (fun _ => True) Succeeds := by
  induction left generalizing made with
  | zero =>
    rw [attempt]
    refine abides_request_bind.mpr ⟨trivial, fun x => ?_⟩
    rcases x with err | output | job
    case error => trivial
    case ok.completed => exact ⟨trivial, fun now => StepStatus.noConfusion⟩
    case ok.dispatched => exact ⟨trivial, fun now => StepStatus.noConfusion⟩
  | succ left ih =>
    rw [attempt]
    refine abides_request_bind.mpr ⟨trivial, fun x => ?_⟩
    rcases x with err | output | job
    case error =>
      dsimp only
      split
      · exact ⟨trivial, fun _ => ih _⟩
      · trivial
    case ok.completed => exact ⟨trivial, fun now => StepStatus.noConfusion⟩
    case ok.dispatched => exact ⟨trivial, fun now => StepStatus.noConfusion⟩

theorem execute_succeeds (s : Step) (settings : StepSettings) (e : Execution) :
    (s.execute settings e).Abides (fun _ => True) Succeeds := by
  unfold execute
  split
  · exact ⟨trivial, fun start => attempt_succeeds s settings _ start _ _⟩
  · exact ⟨trivial, fun now => nofun⟩

end Step

namespace Engine

open Activity

/-- Whoever makes the request parks tolerant executions, and records such results only. -/
def Tolerable (g : Engine) : Working.Request → Prop :=
  EngineRequest.Within (fun _ s => s.Tolerant g) (ExecutionResult.Tolerant g)

variable {g : Engine} {p : Playbook} {e : Execution}

/-- How far the steps came with nothing but failures that are tolerated. -/
def Progress.Tolerant (p : Playbook) : Except EngineError Progress → Prop
  | .ok (.finished e) => e.Tolerates p
  | .ok (.dispatched job e) => e.Tolerates p ∧
    ∃ s ∈ p.steps, s.id = job.stepId ∧ s.tool = job.tool
  | .error _ => True

theorem runSteps_tolerant (settings : StepSettings) {steps : List Step}
    (hsteps : ∀ s ∈ steps, s ∈ p.steps) (he : e.Tolerates p) :
    (runSteps settings p steps e).Abides (Tolerable g) (Progress.Tolerant p) := by
  induction steps generalizing e with
  | nil => exact he
  | cons s rest ih =>
    have hs : s ∈ p.steps := hsteps s List.mem_cons_self
    have hrest : ∀ s ∈ rest, s ∈ p.steps := fun s h => hsteps s (List.mem_cons_of_mem _ h)
    have going := he.next (e.nextStep + 1)
    rw [runSteps, abides_bind]
    have executed := s.execute_succeeds settings { e with nextStep := e.nextStep + 1 }
    refine (Working.tooling_abides (executed.mono_requests fun _ _ => trivial)).mono fun x hx => ?_
    cases x with
    | ok r =>
      have hr : r.status ≠ .failed := hx
      have recorded := going.record fun hfailed => absurd hfailed hr
      dsimp only
      split
      · exact ⟨trivial, fun id => ⟨recorded, s, hs, rfl, rfl⟩⟩
      · exact ih hrest recorded
    | error err =>
      refine ⟨trivial, fun now => ?_⟩
      dsimp only
      split
      · rename_i hopt
        exact ih hrest (going.record fun _ => ⟨s, hs, rfl, hopt⟩)
      · trivial

theorem drive_tolerant (settings : StepSettings) (hheld : g.registry.Holds p)
    (he : e.Tolerates p) :
    (drive settings p e).Abides (Tolerable g)
      (Yields (Invocation.Within (ExecutionResult.Tolerant g))) := by
  rw [drive, abides_bind]
  refine (runSteps_tolerant settings (fun _ => List.mem_of_mem_drop) he).mono fun x hx => ?_
  rcases x with err | e | ⟨job, e⟩
  case error => trivial
  case ok.dispatched =>
    have parked : Suspended.Tolerant g ⟨job, p, e⟩ := ⟨hheld, hx⟩
    refine abides_request_bind.mpr ⟨parked, fun free => ?_⟩
    split <;> trivial
  case ok.finished =>
    have tolerates : e.Tolerates p := hx
    dsimp only
    rw [abides_bind]
    refine (complete_yields trivial (fun _ => trivial) p e).mono fun y hy => ?_
    cases y with
    | error err => trivial
    | ok r =>
      obtain ⟨final, artifacts, now, hfinal, -, rfl⟩ := hy
      refine ⟨p, hheld, fun hsettled => tolerates.agrees (fun x hx => ?_) hfinal artifacts now⟩
      apply hsettled
      change x ∈ (e.advance final.status now).stepResults
      rw [stepResults_advance]
      exact hx

theorem settle_tolerant (settings : StepSettings) (job : JobHandle) (hheld : g.registry.Holds p)
    (he : e.Tolerates p) :
    (settle settings job p e).Abides (Tolerable g)
      (JobStatus.Within (ExecutionResult.Tolerant g)) := by
  rw [settle, abides_bind]
  refine (drive_tolerant settings hheld he).mono fun x hx => ?_
  rcases x with f | r | next
  case error => exact ⟨trivial, fun _ => trivial⟩
  case ok.completed => exact ⟨hx, fun _ => hx⟩
  case ok.dispatched => exact ⟨trivial, fun _ => trivial⟩

variable {s : Suspended}

theorem settleFailed_tolerant (settings : StepSettings) (hs : s.Tolerant g) (attempts : Nat)
    (cause : ToolError) :
    (settleFailed settings s attempts cause).Abides (Tolerable g)
      (JobStatus.Within (ExecutionResult.Tolerant g)) := by
  obtain ⟨hheld, tolerates, step, hmem, hid, htool⟩ := hs
  refine ⟨trivial, fun now => ?_⟩
  dsimp only
  split
  · rename_i hopt
    exact settle_tolerant settings _ hheld
      (tolerates.record fun _ => ⟨step, hmem, hid, htool ▸ hopt⟩)
  · exact ⟨trivial, fun _ => trivial⟩

theorem resume_tolerant (settings : StepSettings) (hs : s.Tolerant g) :
    (resume settings s).Abides (Tolerable g) (JobStatus.Within (ExecutionResult.Tolerant g)) := by
  refine abides_request_bind.mpr ⟨trivial, fun x => ?_⟩
  rcases x with err | _ | output | reason
  case ok.running => exact ⟨hs, fun _ => trivial⟩
  case ok.completed =>
    refine ⟨trivial, fun now => ?_⟩
    exact settle_tolerant settings _ hs.1 (hs.2.1.record nofun)
  case ok.failed => exact settleFailed_tolerant settings hs _ _
  case error =>
    dsimp only
    split
    · exact ⟨hs, fun _ => trivial⟩
    · exact settleFailed_tolerant settings hs _ _

theorem execute_tolerant (g : Engine) {raw : Fields Json}
    (hmode : requestedMode raw ≠ .ok .batch) (code locale : String) :
    (g.execute code locale raw).Abides (Tolerable g)
      (Plan.Within (ExecutionResult.Tolerant g)) := by
  refine ⟨trivial, fun traceId => ?_⟩
  dsimp only
  cases hresolve : g.registry.resolve code locale with
  | error err => trivial
  | ok p =>
    dsimp only
    rcases hread : requestedMode raw with err | mode
    case error => trivial
    cases mode with
    | batch => exact absurd hread hmode
    | single =>
      dsimp only
      cases bind p.inputSchema raw with
      | error err => trivial
      | ok inputs =>
        refine ⟨trivial, fun id => ⟨trivial, fun now => ?_⟩⟩
        have begun : (Execution.begin id traceId p inputs now).Tolerates p :=
          ⟨rfl, fun _ hr => absurd hr List.not_mem_nil⟩
        change (drive g.steps p (Execution.begin id traceId p inputs now) >>= _).Abides _ _
        rw [abides_bind]
        refine (drive_tolerant g.steps (Registry.holds_of_resolve hresolve) begun).mono
          fun r hr => ?_
        cases r with
        | error f => trivial
        | ok i => exact hr

/-- The calls of an engine tolerate the failures of optional tools, and no others. -/
def tolerance (g : Engine) : Discipline .bare g where
  parked _ s := s.Tolerant g
  completed := ExecutionResult.Tolerant g
  executing rest := rest.Abides (Tolerable g) (Plan.Within (ExecutionResult.Tolerant g))
  querying _ rest := rest.Abides (Tolerable g) (JobStatus.Within (ExecutionResult.Tolerant g))
  execute code locale _ hmode := execute_tolerant g hmode code locale
  resume _ _ hs := resume_tolerant g.steps hs
  executing_ask _ _ h := h
  querying_ask _ _ _ h := h
  executing_done _ h := h
  querying_done _ _ h := h

end Engine

end PlaybookEngine
