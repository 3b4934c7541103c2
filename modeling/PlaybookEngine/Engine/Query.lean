import PlaybookEngine.Engine.Run

namespace PlaybookEngine

/-- A query that has begun: it is answered, or it goes on while it holds the claim on a job. -/
inductive Query
  | answered (r : Except Failure JobStatus)
  | resuming (job : String) (rest : Activity Working JobStatus)

namespace Engine

/-- Goes on after a job has ended, and settles it. -/
def settle (settings : StepSettings) (job : JobHandle) (p : Playbook) (e : Execution) :
    Activity Working JobStatus := do
  match ← drive settings p e with
  | .ok (.dispatched next) =>
    Working.forward job.jobId next.jobId
    return .pending next
  | .ok (.completed r) =>
    Working.finish job.jobId (.completed r)
    return .completed r
  | .error f =>
    Working.finish job.jobId (.failed f)
    return .failed f

/-- A job that failed fails its step, and the execution too unless the tool is optional. -/
def settleFailed (settings : StepSettings) (s : Suspended) (attempts : Nat) (cause : ToolError) :
    Activity Working JobStatus := do
  let err : StepError := ⟨s.handle.stepId, attempts, cause⟩
  let r := StepResult.failed s.handle.stepId err.message attempts s.handle.dispatchedAt
    (← Working.now)
  let e := s.execution.record r
  if s.playbook.isOptionalTool s.handle.tool then settle settings s.handle s.playbook e
  else
    let f := e.failure (.step err)
    Working.finish s.handle.jobId (.failed f)
    return .failed f

/-- Asks the tool for the job, and goes on when it has ended. -/
def resume (settings : StepSettings) (s : Suspended) : Activity Working JobStatus := do
  let job := s.handle
  let attempts := ((s.execution.result? job.stepId).map (·.attempts)).getD 1
  match ← Working.tooling (Tooling.poll job.tool job.toolJobId) with
  | .ok .running =>
    Working.release s
    return .pending job
  | .ok (.completed output) =>
    let r := StepResult.success job.stepId output attempts job.dispatchedAt (← Working.now)
    settle settings job s.playbook (s.execution.record r)
  | .ok (.failed reason) => settleFailed settings s attempts (.rejected reason)
  | .error err =>
    if err.isRetryable then
      Working.release s
      return .pending job
    else settleFailed settings s attempts err

/-- Begins a query: claims the job that `id` leads to. -/
def query (g : Engine) (t : JobTable) (now : Instant) (id : String) : Query × JobTable :=
  match t.claimCurrent now id with
  | (_, .unknown, t) => (.answered (.error ((EngineError.jobNotFound id).toFailure none)), t)
  | (_, .forwarded _, t) => (.answered (.error ((EngineError.jobNotFound id).toFailure none)), t)
  | (_, .busy job, t) => (.answered (.ok (.pending job)), t)
  | (_, .finished status, t) => (.answered (.ok status), t)
  | (job, .owned s, t) => (.resuming job (resume g.steps s), t)

end Engine

end PlaybookEngine
