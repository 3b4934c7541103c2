import PlaybookEngine.Batch.Slots
import PlaybookEngine.Engine.Run

namespace PlaybookEngine

/-- What an invocation comes to: an answer, or items to be processed and what their results make. -/
inductive Plan
  | answered (r : Except Failure Invocation)
  | batch (items : List (Activity Working ItemResult))
      (conclude : List ItemResult → Timestamp → ExecutionResult)

namespace Engine

/-- The mode that the raw inputs ask for. -/
def requestedMode (raw : Fields Json) : Except BindingError RunMode :=
  match (Fields.get? (Pattern.field RunMode) raw).bind Json.str? with
  | some text => Pattern.read RunMode text
  | none => .ok .single

/-- The result of a batch: the outputs of the items in order and their summary. -/
def batchResult (p : Playbook) (e : Execution) (items : List ItemResult) (now : Timestamp) :
    ExecutionResult :=
  let summary := BatchSummary.ofItems items
  let output : Fields Json := Fields.ofList [
    ("results", .arr (items.map fun r => Json.ofOption (r.output.map .obj))),
    (Finalization.batchSummaryField, summary.encode)]
  let status := if summary.failed = 0 then .success else .partialFailure
  let e := { e.advance status now with batchSummary := some summary }
  let artifacts := items.flatMap (·.artifacts)
  let flags := .derive (BoundInputs.contentStatus e.inputs) artifacts.length output
  e.result p output flags artifacts items

def planBatch (settings : StepSettings) (p : Playbook) (raw : Fields Json) (traceId : String) :
    Activity Working (Except EngineError Plan) := do
  if p.hasAsyncSteps then
    return .error (.batchUnsupported ("playbook '" ++ p.code ++ "' has async steps"))
  else
    match Batch.expandItems raw with
    | .error err => return .error (.validation err)
    | .ok items =>
      match bind [] raw with
      | .error err => return .error (.validation err)
      | .ok shared =>
        let e := Execution.begin (← Working.freshId) traceId p shared (← Working.now)
        return .ok (.batch (items.mapIdx (runItem settings p traceId)) (batchResult p e))

/-- The errors of an invocation that has no execution yet carry the trace only. -/
def refused (traceId : String) (err : EngineError) : Plan :=
  .answered (.error (err.toFailure (some traceId)))

def execute (g : Engine) (code locale : String) (raw : Fields Json) : Activity Working Plan := do
  let traceId ← Working.freshId
  match g.registry.resolve code locale with
  | .error err => return refused traceId (.playbook err)
  | .ok p =>
    match requestedMode raw with
    | .error err => return refused traceId (.validation err)
    | .ok .batch =>
      match ← planBatch g.steps p raw traceId with
      | .error err => return refused traceId err
      | .ok plan => return plan
    | .ok .single =>
      match bind p.inputSchema raw with
      | .error err => return refused traceId (.validation err)
      | .ok inputs =>
        let e := Execution.begin (← Working.freshId) traceId p inputs (← Working.now)
        return .answered (← drive g.steps p e)

end Engine

end PlaybookEngine
