import PlaybookEngine.Artifact.Error
import PlaybookEngine.Binding.Pattern
import PlaybookEngine.Playbook.Error
import PlaybookEngine.Text.Parts
import PlaybookEngine.Tool.Error

namespace PlaybookEngine

inductive ErrorKind
  | definition | notFound | validation | retryable | stepFailure | schemaMismatch | storage
  deriving DecidableEq

instance : Named ErrorKind where
  all := [.definition, .notFound, .validation, .retryable, .stepFailure, .schemaMismatch, .storage]
  text
    | .definition => "definition"
    | .notFound => "not_found"
    | .validation => "validation"
    | .retryable => "retryable"
    | .stepFailure => "step_failure"
    | .schemaMismatch => "schema_mismatch"
    | .storage => "storage"

inductive EngineError
  | playbook (e : PlaybookError)
  | validation (e : BindingError)
  | step (e : StepError)
  /-- The output does not satisfy its schema in the named fields. -/
  | schemaMismatch (fields : List String)
  | storage (e : StorageError)
  | jobNotFound (job : String)
  | jobConflict (job : String)
  | batchUnsupported (reason : String)
  | timeout (after : Span)
  deriving DecidableEq

def schemaMismatchMessage (fields : List String) : String :=
  "Output does not satisfy output_schema: " ++ Text.join ", " fields

/-- Why an execution failed, and where. -/
@[ext] structure Failure where
  kind : ErrorKind
  message : String
  traceId : Option String
  executionId : Option String
  stepId : Option String
  fields : List String
  deriving DecidableEq

namespace EngineError

def message : EngineError → String
  | .playbook e => e.message
  | .validation e => "Invalid input: " ++ e.message
  | .step e => e.message
  | .schemaMismatch fields => schemaMismatchMessage fields
  | .storage e => e.message
  | .jobNotFound job => "Job not found: " ++ job
  | .jobConflict job => "Job id already in use: " ++ job
  | .batchUnsupported reason => "Batch mode is not supported: " ++ reason
  | .timeout d => "Timed out after " ++ d.text

def kind : EngineError → ErrorKind
  | .playbook (.notFound _) => .notFound
  | .playbook _ => .definition
  | .validation _ => .validation
  | .step _ => .stepFailure
  | .schemaMismatch _ => .schemaMismatch
  | .storage _ => .storage
  | .jobNotFound _ => .notFound
  | .jobConflict _ => .stepFailure
  | .batchUnsupported _ => .validation
  | .timeout _ => .retryable

def fields : EngineError → List String
  | .validation e => [e.field]
  | .schemaMismatch fields => fields
  | .batchUnsupported _ => ["run_mode"]
  | _ => []

def stepId? : EngineError → Option String
  | .step e => some e.stepId
  | _ => none

def toFailure (e : EngineError) (traceId : Option String) : Failure :=
  ⟨e.kind, e.message, traceId, none, e.stepId?, e.fields⟩

end EngineError

namespace Failure

def withExecution (f : Failure) (id : String) : Failure := { f with executionId := some id }

def text (f : Failure) : String := Named.text f.kind ++ ": " ++ f.message

def encode (f : Failure) : Json :=
  .ofObject (Json.entry "error_kind" (.named f.kind) ++ Json.entry "message" (.str f.message)
    ++ Json.entry? "trace_id" (f.traceId.map .str)
    ++ Json.entry? "execution_id" (f.executionId.map .str)
    ++ Json.entry? "step_id" (f.stepId.map .str)
    ++ Json.entryList "fields" (f.fields.map .str))

def decode : Decoder Failure := fun v => do
  let fs ← Decoder.record 2
    ["error_kind", "message", "trace_id", "execution_id", "step_id", "fields"] v
  some {
    kind := ← Decoder.required "error_kind" Decoder.named fs
    message := ← Decoder.required "message" Decoder.string fs
    traceId := ← Decoder.optional "trace_id" Decoder.string fs
    executionId := ← Decoder.optional "execution_id" Decoder.string fs
    stepId := ← Decoder.optional "step_id" Decoder.string fs
    fields := ← Decoder.defaulted "fields" [] (Decoder.list Decoder.string) fs }

end Failure

end PlaybookEngine
