import PlaybookEngine.Tool.Basic
import PlaybookEngine.Workflow.Condition
import PlaybookEngine.Workflow.Retry
import PlaybookEngine.Workflow.Template

namespace PlaybookEngine

/-- How steps are executed. -/
structure StepSettings where
  retry : RetryPolicy
  /-- How long one call may take. -/
  timeout : Span

def StepSettings.default : StepSettings := ⟨.default, Span.ofSecs 30⟩

namespace Step

/-- Calls the tool after `made` earlier calls; `left` more may follow this one. -/
def attempt (s : Step) (settings : StepSettings) (params : Json) (start : Timestamp) :
    (left made : Nat) → Activity Tooling (Except StepError StepResult)
  | left, made => do
    let attempts := made + 1
    match ← Tooling.call s.tool params settings.timeout with
    | .ok (.completed output) => return .ok (.success s.id output attempts start (← Tooling.now))
    | .ok (.dispatched job) => return .ok (.dispatched s.id job attempts start (← Tooling.now))
    | .error e =>
      match left with
      | 0 => return .error ⟨s.id, attempts, e⟩
      | left + 1 =>
        if e.isRetryable then
          Tooling.sleep (settings.retry.delay made)
          attempt s settings params start left attempts
        else return .error ⟨s.id, attempts, e⟩

def execute (s : Step) (settings : StepSettings) (e : Execution) :
    Activity Tooling (Except StepError StepResult) := do
  if s.shouldRun e then
    let start ← Tooling.now
    s.attempt settings (.obj (s.renderedParams e)) start (settings.retry.maxAttempts - 1) 0
  else return .ok (.skipped s.id (← Tooling.now))

end Step

end PlaybookEngine
