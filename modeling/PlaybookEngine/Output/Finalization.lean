import PlaybookEngine.Output.Aggregation
import PlaybookEngine.Workflow.Execution

namespace PlaybookEngine

/-- Flags that later systems go by. -/
@[ext] structure GovernanceFlags where
  isArtifact : Bool
  hasStructuredOutput : Bool
  shouldEmbed : Bool
  isFinal : Bool
  deriving DecidableEq

namespace GovernanceFlags

/-- A list or an object with something in it. -/
def isPopulated : Json → Bool
  | .arr items => items ≠ []
  | .obj fields => fields ≠ []
  | _ => false

def derive (status : ContentStatus) (artifacts : Nat) (output : Fields Json) : GovernanceFlags where
  isArtifact := 0 < artifacts
  hasStructuredOutput := output.any fun p => isPopulated p.2
  shouldEmbed := status == .published
  isFinal := status == .published || status == .archived

def entries (f : GovernanceFlags) : List (String × Bool) :=
  [("is_artifact", f.isArtifact), ("has_structured_output", f.hasStructuredOutput),
    ("should_embed", f.shouldEmbed), ("is_final", f.isFinal)]

def encode (f : GovernanceFlags) : Json := .ofObject (f.entries.map fun p => (p.1, .bool p.2))

def decode : Decoder GovernanceFlags := fun v => do
  let fs ← Decoder.record 4 ["is_artifact", "has_structured_output", "should_embed", "is_final"] v
  some {
    isArtifact := ← Decoder.required "is_artifact" Decoder.bool fs
    hasStructuredOutput := ← Decoder.required "has_structured_output" Decoder.bool fs
    shouldEmbed := ← Decoder.required "should_embed" Decoder.bool fs
    isFinal := ← Decoder.required "is_final" Decoder.bool fs }

end GovernanceFlags

structure FinalResult where
  /-- The output, with exactly the declared keys. -/
  output : Fields Json
  status : ExecutionStatus
  flags : GovernanceFlags
  artifacts : List ArtifactDraft

namespace FinalResult

def encode (r : FinalResult) : Json :=
  .ofObject (Json.entry "output" (.obj r.output) ++ Json.entry "status" (.named r.status)
    ++ Json.entry "flags" r.flags.encode
    ++ Json.entryList "artifacts" (r.artifacts.map ArtifactDraft.encode))

def decode : Decoder FinalResult := fun v => do
  let fs ← Decoder.record 3 ["output", "status", "flags", "artifacts"] v
  some {
    output := ← Decoder.required "output" Decoder.object fs
    status := ← Decoder.required "status" Decoder.named fs
    flags := ← Decoder.required "flags" GovernanceFlags.decode fs
    artifacts := ← Decoder.defaulted "artifacts" [] (Decoder.list ArtifactDraft.decode) fs }

end FinalResult

namespace Finalization

def resultStatusField : String := "result_status"
def batchSummaryField : String := "batch_summary"
def claimsField : String := "claims_to_sources"
def anchorField : String := "anchor"

/-- The text that a value is stored as: a text that is not empty, or an object or a list in
readable JSON. -/
def contentOf? : Json → Option String
  | .str s => if s = "" then none else some s
  | .arr items => some (Json.arr items).pretty
  | .obj fields => some (Json.obj fields).pretty
  | _ => none

/-- The draft of a step's artifact, none when the step declares none or did not succeed; the error
names the field that has no content. -/
def draftOf (p : Playbook) (e : Execution) (s : Step) : Option (Except String ArtifactDraft) := do
  let spec ← s.artifact
  let r ← e.result? s.id
  if r.status ≠ .success then none
  match (r.output.bind (Json.get? spec.contentField)).bind contentOf? with
  | none => some (.error (s.id ++ "." ++ spec.contentField ++ " (no artifact content)"))
  | some content => some (.ok {
      capability := p.artifactCapability
      name := spec.name
      extension := spec.extension
      content := content
      contentStatus := BoundInputs.contentStatus e.inputs
      executionId := e.id
      stepId := s.id })

def draftResults (p : Playbook) (e : Execution) : List (Except String ArtifactDraft) :=
  p.steps.filterMap (draftOf p e)

def drafts (p : Playbook) (e : Execution) : List ArtifactDraft :=
  (draftResults p e).filterMap Except.toOption

def draftFaults (p : Playbook) (e : Execution) : List String :=
  (draftResults p e).filterMap fun
    | .error fault => some fault
    | .ok _ => none

/-- The aggregated fields with the engine's own put in. -/
def withEngineFields (e : Execution) (aggregated : Fields Json) : Fields Json :=
  let fields := Fields.insert resultStatusField (.named e.outcome) aggregated
  match e.batchSummary with
  | some s => Fields.insert batchSummaryField s.encode fields
  | none => fields

/-- The declared fields only; a missing one is null. -/
def project (schema : Fields OutputField) (fields : Fields Json) : Fields Json :=
  schema.map fun p => (p.1, Json.ofOption (Fields.get? p.1 fields))

/-- The value of a declared field once the flags are known. -/
def withFlags (flags : GovernanceFlags) (output : Fields Json) : Fields Json :=
  output.map fun p =>
    match Fields.get? p.1 flags.entries with
    | some b => (p.1, .bool b)
    | none => p

def fieldFault? (output : Fields Json) (name : String) (f : OutputField) : Option String :=
  let v := Json.ofOption (Fields.get? name output)
  if v.isNull then if f.required then some (name ++ " (missing)") else none
  else if f.type.accepts v then none
  else some (name ++ " (expected " ++ Named.text f.type ++ ")")

def schemaFaults (schema : Fields OutputField) (output : Fields Json) : List String :=
  schema.filterMap fun p => fieldFault? output p.1 p.2

/-- A claim carries an anchor that is not blank. -/
def isAnchored (claim : Json) : Bool :=
  match (claim.get? anchorField).bind Json.str? with
  | some s => !Text.isBlankText s
  | none => false

/-- Strict citation: a declared field of claims holds at least one, and each is anchored. -/
def citationFaults (schema : Fields OutputField) (output : Fields Json) : List String :=
  if Fields.contains claimsField schema then
    match Json.ofOption (Fields.get? claimsField output) with
    | .arr [] => [claimsField ++ " (claims required by strict citation)"]
    | .null => [claimsField ++ " (claims required by strict citation)"]
    | .arr claims =>
      if claims.all isAnchored then []
      else [claimsField ++ " (anchor required by strict citation)"]
    | _ => []
  else []

end Finalization

open Finalization in
/-- Finalizes an execution; the error lists every fault of the output. -/
def finalize (p : Playbook) (e : Execution) (aggregated : Fields Json) :
    Except (List String) FinalResult :=
  let projected := project p.outputSchema (withEngineFields e aggregated)
  let drafts := drafts p e
  let flags := .derive (BoundInputs.contentStatus e.inputs) drafts.length projected
  let output := withFlags flags projected
  let citation := if BoundInputs.citationMode e.inputs = .strict
    then citationFaults p.outputSchema output else []
  match draftFaults p e ++ schemaFaults p.outputSchema output ++ citation with
  | [] => .ok ⟨output, e.outcome, flags, drafts⟩
  | faults => .error faults

end PlaybookEngine
