import PlaybookEngine.Time.Span

namespace PlaybookEngine

inductive ToolError
  | notRegistered (tool : String)
  /-- A failure that a later call may not have. -/
  | transient (reason : String)
  | timeout (after : Span)
  | rejected (reason : String)
  | unknownJob (job : String)
  deriving DecidableEq

namespace ToolError

def message : ToolError → String
  | .notRegistered tool => "Tool not registered: " ++ tool
  | .transient reason => "Transient tool failure: " ++ reason
  | .timeout d => "Tool call timed out after " ++ d.text
  | .rejected reason => "Tool rejected the request: " ++ reason
  | .unknownJob job => "Unknown job: " ++ job

/-- Transient failures and timeouts are worth another attempt. -/
def isRetryable : ToolError → Bool
  | .transient _ => true
  | .timeout _ => true
  | _ => false

end ToolError

/-- A step that could not complete, with the error of its last attempt. -/
structure StepError where
  stepId : String
  attempts : Nat
  cause : ToolError
  deriving DecidableEq

namespace StepError

def message (e : StepError) : String :=
  "Step '" ++ e.stepId ++ "' failed after " ++ toString e.attempts ++ " attempt(s): "
    ++ e.cause.message

/-- The last error was worth another attempt, but none was left. -/
def retriesExhausted (e : StepError) : Bool := e.cause.isRetryable

end StepError

end PlaybookEngine
