import PlaybookEngine.Engine.Request
import PlaybookEngine.Output.Aggregation
import PlaybookEngine.Playbook.Registry
import PlaybookEngine.Workflow.Attempts

namespace PlaybookEngine

/-- The engine's collaborators and settings. -/
structure Engine where
  registry : Registry
  steps : StepSettings
  batch : BatchSettings

namespace Execution

def begin (id traceId : String) (p : Playbook) (inputs : BoundInputs) (now : Timestamp) :
    Execution :=
  (init id traceId p.code inputs now).advance .running now

def failure (e : Execution) (cause : EngineError) : Failure :=
  (cause.toFailure (some e.traceId)).withExecution e.id

def result (e : Execution) (p : Playbook) (output : Fields Json) (flags : GovernanceFlags)
    (artifacts : List Artifact) (items : List ItemResult) : ExecutionResult where
  executionId := e.id
  traceId := e.traceId
  playbookCode := p.code
  locale := p.locale
  status := e.status
  output := output
  flags := flags
  stepResults := e.stepResults
  artifacts := artifacts
  batchSummary := e.batchSummary
  items := items
  startedAt := e.startedAt
  completedAt := e.completedAt

end Execution

namespace Engine

inductive Progress
  | finished (e : Execution)
  | dispatched (job : JobHandle) (e : Execution)

def handle (e : Execution) (p : Playbook) (s : Step) (r : StepResult) (id : String) :
    JobHandle where
  jobId := id
  toolJobId := r.jobId.getD ""
  executionId := e.id
  traceId := e.traceId
  playbookCode := p.code
  stepId := s.id
  tool := s.tool
  dispatchedAt := r.startedAt

/-- Runs the given steps, which are those that the execution has not run. A failed step ends the
execution unless its tool is optional. -/
def runSteps (settings : StepSettings) (p : Playbook) :
    List Step → Execution → Activity Working (Except EngineError Progress)
  | [], e => return .ok (.finished e)
  | s :: rest, e => do
    let e := { e with nextStep := e.nextStep + 1 }
    match ← Working.tooling (s.execute settings e) with
    | .ok r =>
      if r.status = .dispatched then
        return .ok (.dispatched (handle e p s r (← Working.freshId)) (e.record r))
      else runSteps settings p rest (e.record r)
    | .error err =>
      let now ← Working.now
      if p.isOptionalTool s.tool then
        runSteps settings p rest (e.record (.failed s.id err.message err.attempts now now))
      else return .error (.step err)

/-- Stores drafts in order, up to the first that fails. -/
def persistAll : List ArtifactDraft → Activity Working (Except StorageError (List Artifact))
  | [] => return .ok []
  | d :: rest => do
    match ← Working.storage (Artifact.persist d) with
    | .error err => return .error err
    | .ok a => return (← persistAll rest).map (a :: ·)

/-- Builds the output of an execution whose steps have run, and stores its artifacts. -/
def complete (p : Playbook) (e : Execution) :
    Activity Working (Except EngineError ExecutionResult) := do
  match finalize p e (aggregate p.outputSchema e.successfulOutputs) with
  | .error faults => return .error (.schemaMismatch faults)
  | .ok final =>
    match ← persistAll final.artifacts with
    | .error err => return .error (.storage err)
    | .ok artifacts =>
      let e := e.advance final.status (← Working.now)
      return .ok (e.result p final.output final.flags artifacts [])

/-- Runs what is left of an execution, or parks it on a job. -/
def drive (settings : StepSettings) (p : Playbook) (e : Execution) :
    Activity Working (Except Failure Invocation) := do
  match ← runSteps settings p (p.steps.drop e.nextStep) e with
  | .error err => return .error (e.failure err)
  | .ok (.dispatched job e) =>
    if ← Working.suspend ⟨job, p, e⟩ then return .ok (.dispatched job)
    else return .error (e.failure (.jobConflict job.jobId))
  | .ok (.finished e) =>
    match ← complete p e with
    | .error err => return .error (e.failure err)
    | .ok r => return .ok (.completed r)

/-- Runs one item of a batch. Every error is part of its result. -/
def runItem (settings : StepSettings) (p : Playbook) (traceId : String) (index : Nat)
    (raw : Fields Json) : Activity Working ItemResult := do
  match bind p.inputSchema raw with
  | .error err => return .failed index none ((EngineError.validation err).toFailure (some traceId))
  | .ok inputs =>
    let id ← Working.freshId
    let e := Execution.begin id traceId p inputs (← Working.now)
    match ← runSteps settings p p.steps e with
    | .error err => return .failed index (some id) (e.failure err)
    | .ok progress =>
      let e := match progress with
        | .finished e => e
        | .dispatched _ e => e
      if e.stepResults ≠ [] ∧ e.stepResults.all (·.status == .skipped) then
        return .skipped index id
      else
        match ← complete p e with
        | .error err => return .failed index (some id) (e.failure err)
        | .ok r =>
          let score := (Fields.get? p.primaryScore r.output).bind Json.number?
          return .success index id r.output score r.artifacts

end Engine

end PlaybookEngine
