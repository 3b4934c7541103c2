import PlaybookEngine.Engine.Result

namespace PlaybookEngine

namespace Json

def without (keys : List String) : Json → Json
  | .obj fs => .obj (fs.filter fun p => !keys.contains p.1)
  | v => v

/-- Changes the value of one key. -/
def inside (k : String) (f : Json → Json) : Json → Json
  | .obj fs => .obj (fs.map fun p => if p.1 = k then (k, f p.2) else p)
  | v => v

/-- Changes each element of an array. -/
def each (f : Json → Json) : Json → Json
  | .arr vs => .arr (vs.map f)
  | v => v

end Json

def StepResult.timeless (r : StepResult) : Json :=
  r.encode.without ["started_at", "completed_at", "duration_ms"]

def Artifact.timeless (a : Artifact) : Json := a.encode.without ["created_at"]

def ItemResult.timeless (r : ItemResult) : Json :=
  r.encode.inside "artifacts" (.each (.without ["created_at"]))

def JobHandle.timeless (j : JobHandle) : Json := j.encode.without ["dispatched_at"]

/-- A result tells only whether it has a time of completion. -/
def ExecutionResult.timeless (r : ExecutionResult) : Json :=
  let replace := fun k (vs : List Json) => Json.inside k fun _ => .arr vs
  let v := r.encode.without ["started_at", "completed_at"]
  let v := replace "step_results" (r.stepResults.map StepResult.timeless) v
  let v := replace "artifacts" (r.artifacts.map Artifact.timeless) v
  match replace "items" (r.items.map ItemResult.timeless) v, r.completedAt with
  | .obj fs, some _ => .obj (Fields.insert "completed" (.bool true) fs)
  | v, _ => v

def JobStatus.timeless : JobStatus → Json
  | .pending job => .ofObject [("status", .str "pending"), ("job", job.timeless)]
  | .completed r => .ofObject [("status", .str "completed"), ("result", r.timeless)]
  | .failed f => JobStatus.encode (.failed f)

def Invocation.timeless : Invocation → Json
  | .completed r => .ofObject [("invocation", .str "completed"), ("result", r.timeless)]
  | .dispatched job => .ofObject [("invocation", .str "dispatched"), ("job", job.timeless)]

/-- A written result, job or artifact without the times in it; any other value as it is. -/
def Json.timeless (v : Json) : Json :=
  match ExecutionResult.decode v, JobHandle.decode v, Artifact.decode v with
  | some r, _, _ => r.timeless
  | none, some j, _ => j.timeless
  | none, none, some a => a.timeless
  | none, none, none => v

end PlaybookEngine
