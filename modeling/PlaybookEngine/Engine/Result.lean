import PlaybookEngine.Output.Finalization
import PlaybookEngine.Playbook.Codec

namespace PlaybookEngine

structure ExecutionResult where
  executionId : String
  traceId : String
  playbookCode : String
  /-- The locale of the variant that ran. -/
  locale : String
  status : ExecutionStatus
  output : Fields Json
  flags : GovernanceFlags
  stepResults : List StepResult
  artifacts : List Artifact
  batchSummary : Option BatchSummary
  items : List ItemResult
  startedAt : Timestamp
  completedAt : Option Timestamp

namespace ExecutionResult

def encode (r : ExecutionResult) : Json :=
  .ofObject (Json.entry "execution_id" (.str r.executionId)
    ++ Json.entry "trace_id" (.str r.traceId) ++ Json.entry "playbook_code" (.str r.playbookCode)
    ++ Json.entry "locale" (.str r.locale) ++ Json.entry "status" (.named r.status)
    ++ Json.entry "output" (.obj r.output) ++ Json.entry "flags" r.flags.encode
    ++ Json.entry "step_results" (.arr (r.stepResults.map StepResult.encode))
    ++ Json.entryList "artifacts" (r.artifacts.map Artifact.encode)
    ++ Json.entry? "batch_summary" (r.batchSummary.map BatchSummary.encode)
    ++ Json.entryList "items" (r.items.map ItemResult.encode)
    ++ Json.entry "started_at" r.startedAt.encode
    ++ Json.entry? "completed_at" (r.completedAt.map Timestamp.encode))

def decode : Decoder ExecutionResult := fun v => do
  let fs ← Decoder.record 12
    ["execution_id", "trace_id", "playbook_code", "locale", "status", "output", "flags",
      "step_results", "artifacts", "batch_summary", "items", "started_at", "completed_at"] v
  some {
    executionId := ← Decoder.required "execution_id" Decoder.string fs
    traceId := ← Decoder.required "trace_id" Decoder.string fs
    playbookCode := ← Decoder.required "playbook_code" Decoder.string fs
    locale := ← Decoder.required "locale" Decoder.string fs
    status := ← Decoder.required "status" Decoder.named fs
    output := ← Decoder.required "output" Decoder.object fs
    flags := ← Decoder.required "flags" GovernanceFlags.decode fs
    stepResults := ← Decoder.required "step_results" (Decoder.list StepResult.decode) fs
    artifacts := ← Decoder.defaulted "artifacts" [] (Decoder.list Artifact.decode) fs
    batchSummary := ← Decoder.optional "batch_summary" BatchSummary.decode fs
    items := ← Decoder.defaulted "items" [] (Decoder.list ItemResult.decode) fs
    startedAt := ← Decoder.required "started_at" Timestamp.decode fs
    completedAt := ← Decoder.optional "completed_at" Timestamp.decode fs }

end ExecutionResult

/-- A job that is out. -/
structure JobHandle where
  /-- The id that the engine hands out. -/
  jobId : String
  /-- The id that the tool gave, which only the tool understands. -/
  toolJobId : String
  executionId : String
  traceId : String
  playbookCode : String
  stepId : String
  tool : ToolRef
  dispatchedAt : Timestamp
  deriving DecidableEq

namespace JobHandle

def entries (j : JobHandle) : List (String × Json) :=
  Json.entry "job_id" (.str j.jobId) ++ Json.entry "tool_job_id" (.str j.toolJobId)
    ++ Json.entry "execution_id" (.str j.executionId) ++ Json.entry "trace_id" (.str j.traceId)
    ++ Json.entry "playbook_code" (.str j.playbookCode) ++ Json.entry "step_id" (.str j.stepId)
    ++ Json.entry "tool" j.tool.encode ++ Json.entry "dispatched_at" j.dispatchedAt.encode

def encode (j : JobHandle) : Json := .ofObject j.entries

def decode : Decoder JobHandle := fun v => do
  let fs ← Decoder.record 8
    ["job_id", "tool_job_id", "execution_id", "trace_id", "playbook_code", "step_id", "tool",
      "dispatched_at"] v
  some {
    jobId := ← Decoder.required "job_id" Decoder.string fs
    toolJobId := ← Decoder.required "tool_job_id" Decoder.string fs
    executionId := ← Decoder.required "execution_id" Decoder.string fs
    traceId := ← Decoder.required "trace_id" Decoder.string fs
    playbookCode := ← Decoder.required "playbook_code" Decoder.string fs
    stepId := ← Decoder.required "step_id" Decoder.string fs
    tool := ← Decoder.required "tool" ToolRef.decode fs
    dispatchedAt := ← Decoder.required "dispatched_at" Timestamp.decode fs }

end JobHandle

inductive JobStatus
  /-- Still running, with the job that is awaited now. -/
  | pending (job : JobHandle)
  | completed (r : ExecutionResult)
  | failed (f : Failure)

namespace JobStatus

def isTerminal : JobStatus → Bool
  | .pending _ => false
  | _ => true

def encode : JobStatus → Json
  | .pending job => .ofObject [("status", .str "pending"), ("job", job.encode)]
  | .completed r => .ofObject [("status", .str "completed"), ("result", r.encode)]
  | .failed f => .ofObject [("status", .str "failed"), ("error", f.encode)]

def decode : Decoder JobStatus := fun v => do
  let fs ← Decoder.object v
  match ← Decoder.required "status" Decoder.string fs with
  | "pending" => (Decoder.required "job" JobHandle.decode fs).map .pending
  | "completed" => (Decoder.required "result" ExecutionResult.decode fs).map .completed
  | "failed" => (Decoder.required "error" Failure.decode fs).map .failed
  | _ => none

end JobStatus

/-- The answer to an invocation. -/
inductive Invocation
  | completed (r : ExecutionResult)
  | dispatched (job : JobHandle)

namespace Invocation

def encode : Invocation → Json
  | .completed r => .ofObject [("invocation", .str "completed"), ("result", r.encode)]
  | .dispatched job => .ofObject [("invocation", .str "dispatched"), ("job", job.encode)]

def decode : Decoder Invocation := fun v => do
  let fs ← Decoder.object v
  match ← Decoder.required "invocation" Decoder.string fs with
  | "completed" => (Decoder.required "result" ExecutionResult.decode fs).map .completed
  | "dispatched" => (Decoder.required "job" JobHandle.decode fs).map .dispatched
  | _ => none

end Invocation

end PlaybookEngine
