import PlaybookEngine.Json.Codec
import PlaybookEngine.Tool.Set

namespace PlaybookEngine

/-- An error of an unknown kind is a rejection. -/
def ToolError.decode : Decoder ToolError := fun v => do
  let fs ← Decoder.object v
  let kind ← Decoder.required "kind" Decoder.string fs
  let text := (← Decoder.optional "message" Decoder.string fs).getD ""
  let after := (← Decoder.optional "nanos" Decoder.nat64 fs).getD 0
  some (match kind with
    | "transient" => .transient text
    | "timeout" => .timeout after
    | "not_registered" => .notRegistered text
    | "unknown_job" => .unknownJob text
    | _ => .rejected text)

namespace Scripted

/-- The answer and its delay stand in one record. -/
def decode {α : Type} (answer : Fields Json → Option α) : Decoder (Scripted α) := fun v => do
  let fs ← Decoder.object v
  some ⟨Span.ofMillis ((← Decoder.optional "delay_ms" Decoder.nat64 fs).getD 0), ← answer fs⟩

end Scripted

def ScriptedCall.ofFields (fs : Fields Json) : Option ScriptedCall := do
  match ← Decoder.optional "error" ToolError.decode fs with
  | some e => some (.error e)
  | none =>
    match ← Decoder.optional "dispatch" Decoder.string fs with
    | some job => some (.dispatch job)
    | none => some ((Fields.get? "output" fs).elim .echo .output)

def ScriptedPoll.ofFields (fs : Fields Json) : Option ScriptedPoll := do
  match ← Decoder.optional "error" ToolError.decode fs with
  | some e => some (.error e)
  | none =>
    match ← Decoder.optional "failed" Decoder.string fs with
    | some reason => some (.failed reason)
    | none => some ((Fields.get? "completed" fs).elim .running .completed)

def ScriptRule.decode : Decoder ScriptRule := fun v => do
  let fs ← Decoder.object v
  some ⟨← Decoder.required "field" Decoder.string fs, Json.ofOption (Fields.get? "equals" fs),
    ← Scripted.decode ScriptedCall.ofFields v⟩

def Script.decode : Decoder Script := fun v => do
  let fs ← Decoder.object v
  let calls := Decoder.list (Scripted.decode ScriptedCall.ofFields)
  let polls := Decoder.list (Scripted.decode ScriptedPoll.ofFields)
  some {
    rules := ← Decoder.defaulted "rules" [] (Decoder.list ScriptRule.decode) fs
    calls := ← Decoder.defaulted "calls" [] calls fs
    polls := ← Decoder.defaulted "polls" [] polls fs }

/-- A tool without a type is a script. -/
def Tool.decode : Decoder Tool := fun v => do
  let fs ← Decoder.object v
  match Fields.get? "type" fs with
  | some (.str "echo") => some .echo
  | some (.str "static") => some (.static (Json.ofOption (Fields.get? "output" fs)))
  | _ => (Script.decode v).map .script

end PlaybookEngine
