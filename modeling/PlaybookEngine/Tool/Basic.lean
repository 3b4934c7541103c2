import PlaybookEngine.Activity.Timed
import PlaybookEngine.Json.Basic
import PlaybookEngine.Playbook.ToolRef
import PlaybookEngine.Time.Timestamp
import PlaybookEngine.Tool.Error

namespace PlaybookEngine

inductive ToolResponse
  | completed (output : Json)
  | dispatched (job : String)

inductive JobState
  | running
  | completed (output : Json)
  | failed (reason : String)

inductive ToolRequest
  | now
  | sleep (d : Span)
  /-- A call that is given up after `limit`. -/
  | call (tool : ToolRef) (params : Json) (limit : Span)
  | poll (tool : ToolRef) (job : String)

def ToolRequest.Reply : ToolRequest → Type
  | .now => Timestamp
  | .sleep _ => Unit
  | .call _ _ _ => Except ToolError ToolResponse
  | .poll _ _ => Except ToolError JobState

def Tooling : Interface := ⟨ToolRequest, ToolRequest.Reply⟩

namespace Tooling

def now : Activity Tooling Timestamp := Activity.request (I := Tooling) .now

def sleep (d : Span) : Activity Tooling Unit := Activity.request (I := Tooling) (.sleep d)

def call (tool : ToolRef) (params : Json) (limit : Span) :
    Activity Tooling (Except ToolError ToolResponse) :=
  Activity.request (I := Tooling) (.call tool params limit)

def poll (tool : ToolRef) (job : String) : Activity Tooling (Except ToolError JobState) :=
  Activity.request (I := Tooling) (.poll tool job)

end Tooling

end PlaybookEngine
