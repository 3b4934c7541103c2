import PlaybookEngine.Artifact.Basic
import PlaybookEngine.Engine.Failure
import PlaybookEngine.Json.Printer
import PlaybookEngine.Output.Reduction

namespace PlaybookEngine

structure BatchSettings where
  /-- How many items may be in progress at once; at least one may. -/
  concurrency : Nat
  itemTimeout : Span
  batchTimeout : Span
  deriving DecidableEq

def BatchSettings.default : BatchSettings := ⟨4, Span.ofSecs 120, Span.ofSecs 600⟩

/-- Why a call panics and has no answer. -/
inductive Panic
  /-- A deadline lies beyond the end of the clock. -/
  | clock
  /-- There are more slots than a semaphore can have permits. -/
  | slots
  deriving DecidableEq

/-- The most slots that there can be. -/
def Batch.maxSlots : Nat := 0x1FFF_FFFF_FFFF_FFFF

def Panic.message : Panic → String
  | .clock => "overflow when adding duration to instant"
  | .slots => "a semaphore may not have more than MAX_PERMITS permits (" ++
      toString Batch.maxSlots ++ ")"

inductive ItemStatus
  | success
  /-- Every step was skipped. -/
  | skipped
  | failed
  deriving DecidableEq

instance : Named ItemStatus where
  all := [.success, .skipped, .failed]
  text
    | .success => "success"
    | .skipped => "skipped"
    | .failed => "failed"

structure ItemResult where
  index : Nat
  status : ItemStatus
  executionId : Option String
  output : Option (Fields Json)
  score : Option Binary64
  artifacts : List Artifact
  error : Option Failure

namespace ItemResult

def success (index : Nat) (executionId : String) (output : Fields Json) (score : Option Binary64)
    (artifacts : List Artifact) : ItemResult :=
  ⟨index, .success, some executionId, some output, score, artifacts, none⟩

def skipped (index : Nat) (executionId : String) : ItemResult :=
  ⟨index, .skipped, some executionId, none, none, [], none⟩

def failed (index : Nat) (executionId : Option String) (error : Failure) : ItemResult :=
  ⟨index, .failed, executionId, none, none, [], some error⟩

def encode (r : ItemResult) : Json :=
  .ofObject (Json.entry "item_index" (.nat r.index) ++ Json.entry "status" (.named r.status)
    ++ Json.entry? "execution_id" (r.executionId.map .str)
    ++ Json.entry? "output" (r.output.map .obj)
    ++ Json.entry? "score" (r.score.map Json.ofBinary64)
    ++ Json.entryList "artifacts" (r.artifacts.map Artifact.encode)
    ++ Json.entry? "error" (r.error.map Failure.encode))

def decode : Decoder ItemResult := fun v => do
  let fs ← Decoder.record 2
    ["item_index", "status", "execution_id", "output", "score", "artifacts", "error"] v
  some {
    index := ← Decoder.required "item_index" Decoder.nat64 fs
    status := ← Decoder.required "status" Decoder.named fs
    executionId := ← Decoder.optional "execution_id" Decoder.string fs
    output := ← Decoder.optional "output" Decoder.object fs
    score := ← Decoder.optional "score" Decoder.number fs
    artifacts := ← Decoder.defaulted "artifacts" [] (Decoder.list Artifact.decode) fs
    error := ← Decoder.optional "error" Failure.decode fs }

end ItemResult

/-- A failed item, as the summary lists it. -/
structure ItemError where
  index : Nat
  kind : ErrorKind
  message : String
  deriving DecidableEq

structure BatchSummary where
  total : Nat
  success : Nat
  failed : Nat
  skipped : Nat
  /-- The mean score of the successful items that have one. -/
  avgScore : Option Binary64
  errors : List ItemError
  deriving DecidableEq

namespace ItemError

def ofResult? (r : ItemResult) : Option ItemError :=
  if r.status = .failed then r.error.map fun e => ⟨r.index, e.kind, e.message⟩ else none

def encode (e : ItemError) : Json :=
  .ofObject (Json.entry "item_index" (.nat e.index) ++ Json.entry "error_kind" (.named e.kind)
    ++ Json.entry "message" (.str e.message))

def decode : Decoder ItemError := fun v => do
  let fs ← Decoder.record 3 ["item_index", "error_kind", "message"] v
  some {
    index := ← Decoder.required "item_index" Decoder.nat64 fs
    kind := ← Decoder.required "error_kind" Decoder.named fs
    message := ← Decoder.required "message" Decoder.string fs }

end ItemError

namespace BatchSummary

def count (s : ItemStatus) (items : List ItemResult) : Nat := items.countP (·.status == s)

def scores (items : List ItemResult) : List Binary64 :=
  items.filterMap fun r => if r.status = .success then r.score else none

def ofItems (items : List ItemResult) : BatchSummary where
  total := items.length
  success := count .success items
  failed := count .failed items
  skipped := count .skipped items
  avgScore := Reducer.mean.reduce? (scores items)
  errors := items.filterMap ItemError.ofResult?

def encode (s : BatchSummary) : Json :=
  .ofObject (Json.entry "total" (.nat s.total) ++ Json.entry "success" (.nat s.success)
    ++ Json.entry "failed" (.nat s.failed) ++ Json.entry "skipped" (.nat s.skipped)
    ++ Json.entry "avg_score" (Json.ofOption (s.avgScore.map Json.ofBinary64))
    ++ Json.entry "errors" (.arr (s.errors.map ItemError.encode)))

def decode : Decoder BatchSummary := fun v => do
  let fs ← Decoder.record 6 ["total", "success", "failed", "skipped", "avg_score", "errors"] v
  some {
    total := ← Decoder.required "total" Decoder.nat64 fs
    success := ← Decoder.required "success" Decoder.nat64 fs
    failed := ← Decoder.required "failed" Decoder.nat64 fs
    skipped := ← Decoder.required "skipped" Decoder.nat64 fs
    avgScore := ← Decoder.optional "avg_score" Decoder.number fs
    errors := ← Decoder.required "errors" (Decoder.list ItemError.decode) fs }

end BatchSummary

namespace Batch

def itemsField : String := "items"

/-- Items always run in single mode, so that no batch starts another one. -/
def singleMode (inputs : Fields Json) : Fields Json :=
  Fields.insert "run_mode" (.named RunMode.single) inputs

/-- The inputs of one item: an object is laid over the shared inputs, a text is the source of the
content. -/
def itemInputs? (shared : Fields Json) : Json → Option (Fields Json)
  | .obj own => some (singleMode (Fields.overlay shared own))
  | .str source => some (singleMode (Fields.insert ContentSource.field (.str source) shared))
  | _ => none

def expandFrom (shared : Fields Json) (index : Nat) :
    List Json → Except BindingError (List (Fields Json))
  | [] => .ok []
  | v :: vs =>
    match itemInputs? shared v with
    | none => .error (.invalidValue (itemsField ++ "[" ++ toString index ++ "]")
        "expected an object or a content source string")
    | some inputs => (expandFrom shared (index + 1) vs).map (inputs :: ·)

/-- The inputs of each item of a batch. -/
def expandItems (raw : Fields Json) : Except BindingError (List (Fields Json)) :=
  match Fields.get? itemsField raw with
  | none => .error (.missingField itemsField)
  | some (.arr []) => .error (.invalidValue itemsField "batch requires at least one item")
  | some (.arr items) => expandFrom (singleMode (Fields.erase itemsField raw)) 0 items
  | some _ => .error (.invalidValue itemsField "expected an array")

end Batch

end PlaybookEngine
