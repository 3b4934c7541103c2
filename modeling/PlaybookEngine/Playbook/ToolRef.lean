import PlaybookEngine.Text.Blank
import PlaybookEngine.Text.Parts

namespace PlaybookEngine

structure ToolRef where
  capability : String
  tool : String
  deriving DecidableEq

namespace ToolRef

def text (t : ToolRef) : String := t.capability ++ "." ++ t.tool

/-- Two parts around one point, each trimmed and not blank. -/
def ofText? (s : String) : Option ToolRef :=
  match Text.splitOn '.' s.toList with
  | [capability, tool] =>
    let capability := Text.trim capability
    let tool := Text.trim tool
    if capability = [] ∨ tool = [] then none
    else some ⟨String.ofList capability, String.ofList tool⟩
  | _ => none

end ToolRef

end PlaybookEngine
