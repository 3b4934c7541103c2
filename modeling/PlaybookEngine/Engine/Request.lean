import PlaybookEngine.Artifact.Provenance
import PlaybookEngine.Engine.Jobs
import PlaybookEngine.Tool.Basic

namespace PlaybookEngine

inductive JobRequest
  /-- Answers whether the id was free. -/
  | suspend (s : Suspended)
  | release (s : Suspended)
  | forward (id next : String)
  | finish (id : String) (status : JobStatus)

def JobRequest.Reply : JobRequest → Type
  | .suspend _ => Bool
  | _ => Unit

inductive EngineRequest
  | freshId
  | tool (r : ToolRequest)
  | store (r : StoreRequest)
  | job (r : JobRequest)

def EngineRequest.Reply : EngineRequest → Type
  | .freshId => String
  | .tool r => r.Reply
  | .store r => r.Reply
  | .job r => r.Reply

def Working : Interface := ⟨EngineRequest, EngineRequest.Reply⟩

namespace Working

def freshId : Activity Working String := Activity.request (I := Working) .freshId

/-- An activity that only calls tools. -/
def tooling {α : Type} (p : Activity Tooling α) : Activity Working α :=
  p.through (J := Working) .tool fun _ x => x

def now : Activity Working Timestamp := tooling Tooling.now

/-- How a request to keep artifacts is made. -/
def sendStorage : StorageRequest → EngineRequest
  | .now => .tool .now
  | .store r => .store r

def receiveStorage : (r : StorageRequest) → (sendStorage r).Reply → r.Reply
  | .now, x => x
  | .store _, x => x

/-- An activity that only keeps artifacts. -/
def storage {α : Type} (p : Activity Storage α) : Activity Working α :=
  p.through (J := Working) sendStorage receiveStorage

def suspend (s : Suspended) : Activity Working Bool :=
  Activity.request (I := Working) (.job (.suspend s))

def release (s : Suspended) : Activity Working Unit :=
  Activity.request (I := Working) (.job (.release s))

def forward (id next : String) : Activity Working Unit :=
  Activity.request (I := Working) (.job (.forward id next))

def finish (id : String) (status : JobStatus) : Activity Working Unit :=
  Activity.request (I := Working) (.job (.finish id status))

end Working

end PlaybookEngine
