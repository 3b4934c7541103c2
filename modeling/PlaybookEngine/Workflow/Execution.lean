import PlaybookEngine.Batch.Basic
import PlaybookEngine.Binding.Basic

namespace PlaybookEngine

inductive StepStatus
  | success
  | skipped
  /-- A job was started and has not ended yet. -/
  | dispatched
  | failed
  deriving DecidableEq

instance : Named StepStatus where
  all := [.success, .skipped, .dispatched, .failed]
  text
    | .success => "success"
    | .skipped => "skipped"
    | .dispatched => "dispatched"
    | .failed => "failed"

structure StepResult where
  stepId : String
  status : StepStatus
  output : Option Json
  jobId : Option String
  error : Option String
  /-- How often the tool was called. -/
  attempts : Nat
  startedAt : Timestamp
  completedAt : Timestamp
  durationMillis : Nat

namespace StepResult

def make (stepId : String) (status : StepStatus) (attempts : Nat) (start stop : Timestamp) :
    StepResult :=
  ⟨stepId, status, none, none, none, attempts, start, stop, Timestamp.millisBetween start stop⟩

def success (stepId : String) (output : Json) (attempts : Nat) (start stop : Timestamp) :
    StepResult :=
  { make stepId .success attempts start stop with output := some output }

def skipped (stepId : String) (now : Timestamp) : StepResult := make stepId .skipped 0 now now

def dispatched (stepId jobId : String) (attempts : Nat) (start now : Timestamp) : StepResult :=
  { make stepId .dispatched attempts start now with jobId := some jobId }

def failed (stepId error : String) (attempts : Nat) (start stop : Timestamp) : StepResult :=
  { make stepId .failed attempts start stop with error := some error }

def encode (r : StepResult) : Json :=
  .ofObject (Json.entry "step_id" (.str r.stepId) ++ Json.entry "status" (.named r.status)
    ++ Json.entry? "output" r.output ++ Json.entry? "job_id" (r.jobId.map .str)
    ++ Json.entry? "error" (r.error.map .str) ++ Json.entry "attempts" (.nat r.attempts)
    ++ Json.entry "started_at" r.startedAt.encode ++ Json.entry "completed_at" r.completedAt.encode
    ++ Json.entry "duration_ms" (.nat r.durationMillis))

def decode : Decoder StepResult := fun v => do
  let fs ← Decoder.record 9
    ["step_id", "status", "output", "job_id", "error", "attempts", "started_at", "completed_at",
      "duration_ms"] v
  some {
    stepId := ← Decoder.required "step_id" Decoder.string fs
    status := ← Decoder.required "status" Decoder.named fs
    output := ← Decoder.optional "output" Decoder.value fs
    jobId := ← Decoder.optional "job_id" Decoder.string fs
    error := ← Decoder.optional "error" Decoder.string fs
    attempts := ← Decoder.required "attempts" Decoder.nat32 fs
    startedAt := ← Decoder.required "started_at" Timestamp.decode fs
    completedAt := ← Decoder.required "completed_at" Timestamp.decode fs
    durationMillis := ← Decoder.required "duration_ms" Decoder.nat64 fs }

end StepResult

inductive ExecutionStatus
  | pending | running | success | partialFailure | error
  deriving DecidableEq

instance : Named ExecutionStatus where
  all := [.pending, .running, .success, .partialFailure, .error]
  text
    | .pending => "pending"
    | .running => "running"
    | .success => "success"
    | .partialFailure => "partial_failure"
    | .error => "error"

namespace ExecutionStatus

def isTerminal : ExecutionStatus → Bool
  | .success | .partialFailure | .error => true
  | _ => false

def canAdvanceTo : ExecutionStatus → ExecutionStatus → Bool
  | .pending, .running => true
  | .pending, .error => true
  | .pending, _ => false
  | .running, .pending => false
  | .running, _ => true
  | _, _ => false

theorem canAdvanceTo_of_isTerminal {s t : ExecutionStatus} (h : s.isTerminal = true) :
    s.canAdvanceTo t = false := by cases s <;> simp_all [isTerminal, canAdvanceTo]

end ExecutionStatus

structure Execution where
  id : String
  traceId : String
  playbookCode : String
  inputs : BoundInputs
  /-- The results of the steps in the order of execution. -/
  stepResults : List StepResult
  status : ExecutionStatus
  /-- The index of the next step. -/
  nextStep : Nat
  batchSummary : Option BatchSummary
  startedAt : Timestamp
  completedAt : Option Timestamp

namespace Execution

def init (id traceId playbookCode : String) (inputs : BoundInputs) (now : Timestamp) : Execution :=
  ⟨id, traceId, playbookCode, inputs, [], .pending, 0, none, now, none⟩

/-- Puts a result in the place of an earlier one of the same step, else at the end. -/
def putResult (r : StepResult) : List StepResult → List StepResult
  | [] => [r]
  | s :: rest => if s.stepId = r.stepId then r :: rest else s :: putResult r rest

def record (e : Execution) (r : StepResult) : Execution :=
  { e with stepResults := putResult r e.stepResults }

def result? (e : Execution) (stepId : String) : Option StepResult :=
  e.stepResults.find? (·.stepId == stepId)

/-- The outputs of the successful steps. -/
def successfulOutputs (e : Execution) : List Json :=
  e.stepResults.filterMap fun r => if r.status = .success then r.output else none

/-- Moves to a status when the transition is allowed; a terminal one sets the completion time. -/
def advance (e : Execution) (next : ExecutionStatus) (now : Timestamp) : Execution :=
  if e.status.canAdvanceTo next then
    { e with
      status := next
      completedAt := if next.isTerminal then some now else e.completedAt }
  else e

/-- The terminal status that the recorded results imply. -/
def outcome (e : Execution) : ExecutionStatus :=
  if e.stepResults.any (·.status == .failed) then .partialFailure else .success

def encode (e : Execution) : Json :=
  .ofObject (Json.entry "execution_id" (.str e.id) ++ Json.entry "trace_id" (.str e.traceId)
    ++ Json.entry "playbook_code" (.str e.playbookCode) ++ Json.entry "inputs" (.obj e.inputs)
    ++ Json.entry "step_results" (.arr (e.stepResults.map StepResult.encode))
    ++ Json.entry "status" (.named e.status) ++ Json.entry "next_step" (.nat e.nextStep)
    ++ Json.entry? "batch_summary" (e.batchSummary.map BatchSummary.encode)
    ++ Json.entry "started_at" e.startedAt.encode
    ++ Json.entry? "completed_at" (e.completedAt.map Timestamp.encode))

def decode : Decoder Execution := fun v => do
  let fs ← Decoder.record 9
    ["execution_id", "trace_id", "playbook_code", "inputs", "step_results", "status", "next_step",
      "batch_summary", "started_at", "completed_at"] v
  some {
    id := ← Decoder.required "execution_id" Decoder.string fs
    traceId := ← Decoder.required "trace_id" Decoder.string fs
    playbookCode := ← Decoder.required "playbook_code" Decoder.string fs
    inputs := ← Decoder.required "inputs" Decoder.object fs
    stepResults := ← Decoder.required "step_results" (Decoder.list StepResult.decode) fs
    status := ← Decoder.required "status" Decoder.named fs
    nextStep := ← Decoder.required "next_step" Decoder.nat64 fs
    batchSummary := ← Decoder.optional "batch_summary" BatchSummary.decode fs
    startedAt := ← Decoder.required "started_at" Timestamp.decode fs
    completedAt := ← Decoder.optional "completed_at" Timestamp.decode fs }

end Execution

end PlaybookEngine
