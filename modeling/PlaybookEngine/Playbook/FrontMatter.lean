import PlaybookEngine.Playbook.Codec
import PlaybookEngine.Playbook.Document
import PlaybookEngine.Playbook.Validation
import PlaybookEngine.Yaml.Schema

namespace PlaybookEngine

namespace Condition

open Yaml

/-- A condition that holds no further conditions. -/
def leafOfNode (k : String) (n : Node) : Option Condition :=
  match k with
  | "not_skipped" => n.text.map .notSkipped
  | "input_present" => n.text.map .inputPresent
  | "flag" => n.text.map .flag
  | "step_succeeded" => n.text.map .stepSucceeded
  | "input_equals" => do
    let fs ← n.record false ["field", "value"]
    some (.inputEquals (← Node.required "field" Node.text fs)
      (← Node.required "value" Node.value fs))
  | "input_in" => do
    let fs ← n.record false ["field", "values"]
    some (.inputIn (← Node.required "field" Node.text fs)
      (← Node.required "values" (Node.list Node.value) fs))
  | "step_output_equals" => do
    let fs ← n.record false ["step", "field", "value"]
    some (.stepOutputEquals (← Node.required "step" Node.text fs)
      (← Node.required "field" Node.text fs) (← Node.required "value" Node.value fs))
  | _ => none

mutual

def ofNode : Node → Option Condition
  | .scalar tag style s =>
    if (Node.scalarValue tag style s).bind Json.str? = some "always" then some .always else none
  | .mapping tag [(k, n)] =>
    if Node.isCustomTag tag then none
    else match k.text with
      | some "not" => (ofNode n).map .not
      | some "all" => (ofListNode n).map .all
      | some "any" => (ofListNode n).map .any
      | some k => leafOfNode k n
      | none => none
  | _ => none

def ofListNode : Node → Option (List Condition)
  | .sequence _ items => ofNodes items
  | n => if n.isNothing then some [] else none

def ofNodes : List Node → Option (List Condition)
  | [] => some []
  | n :: ns => do
    let c ← ofNode n
    let cs ← ofNodes ns
    some (c :: cs)

end

end Condition

namespace FrontMatter

open Yaml

def toolRef (n : Node) : Option ToolRef := n.text.bind ToolRef.ofText?

def texts : Node → Option (List String) := Node.list Node.text

def artifact (n : Node) : Option ArtifactSpec := do
  let fs ← n.record true ["name", "content_field", "extension"]
  some {
    name := ← Node.required "name" Node.text fs
    contentField := ← Node.required "content_field" Node.text fs
    extension := ← Node.defaulted "extension" ArtifactSpec.defaultExtension Node.text fs }

def step (n : Node) : Option Step := do
  let fs ← n.record true ["id", "action", "tool", "condition", "async", "params", "artifact"]
  some {
    id := ← Node.required "id" Node.text fs
    action := ← Node.required "action" Node.text fs
    tool := ← Node.required "tool" toolRef fs
    condition := ← Node.optionalField "condition" Condition.ofNode fs
    isAsync := ← Node.defaulted "async" false Node.bool fs
    params := ← Node.defaulted "params" [] (Node.fields Node.value) fs
    artifact := ← Node.optionalField "artifact" artifact fs }

def param (n : Node) : Option Param := do
  let fs ← n.record true ["type", "required", "default", "values", "description"]
  some {
    type := ← Node.required "type" Node.named fs
    required := ← Node.defaulted "required" false Node.bool fs
    default := ← Node.optionalField "default" Node.value fs
    values := ← Node.defaulted "values" [] texts fs
    description := ← Node.optionalField "description" Node.text fs }

def mergePolicy (n : Node) : Option MergePolicy :=
  match n.variant? with
  | some ("union_by_key", v) => do
    let fs ← v.record false ["key", "dedup", "max"]
    some (.unionByKey (← Node.required "key" Node.text fs)
      (← Node.defaulted "dedup" [] texts fs) (← Node.optionalField "max" Node.text fs))
  | some ("reduce", v) => do
    let fs ← v.record false ["reducer", "from"]
    some (.reduce (← Node.defaulted "reducer" .mean Node.named fs)
      (← Node.defaulted "from" [] texts fs))
  | _ => if n.name = some "overwrite_last" then some .overwriteLast else none

def outputField (n : Node) : Option OutputField := do
  let fs ← n.record true ["type", "required", "merge"]
  some {
    type := ← Node.defaulted "type" .any Node.named fs
    required := ← Node.defaulted "required" true Node.bool fs
    merge := ← Node.defaulted "merge" .overwriteLast mergePolicy fs }

/-- The text of the first goal section that there is, its first line only. -/
def goal? (sections : Fields String) : Option String :=
  (["目標", "Goal", "Goals"].findSome? fun h => Fields.get? h sections).map fun s =>
    String.ofList (Text.trim ((Document.lines s.toList).headD []))

def known : List String :=
  ["playbook_code", "version", "name", "kind", "description", "capability_code", "locale",
    "supported_locales", "default_locale", "required_tools", "optional_tools", "steps",
    "input_schema", "output_schema", "primary_score", "tags"]

/-- The playbook of a front matter and the sections of the body. -/
def playbook (sections : Fields String) (n : Node) : Option Playbook := do
  let fs ← n.record true known
  let given := fun k => Node.optionalField k Node.text fs
  let locale? ← given "locale"
  let default? ← given "default_locale"
  let defaultLocale := default?.getD (locale?.getD "en")
  let supported ← Node.defaulted "supported_locales" [] texts fs
  some {
    code := ← Node.required "playbook_code" Node.text fs
    version := ← Node.required "version" Node.text fs
    name := ← Node.required "name" Node.text fs
    description := (← given "description").getD ((goal? sections).getD "")
    kind := ← Node.required "kind" Node.named fs
    capabilityCode := ← given "capability_code"
    locale := locale?.getD defaultLocale
    supportedLocales := if supported = [] then [defaultLocale] else supported
    defaultLocale := defaultLocale
    requiredTools := ← Node.defaulted "required_tools" [] (Node.list toolRef) fs
    optionalTools := ← Node.defaulted "optional_tools" [] (Node.list toolRef) fs
    steps := ← Node.defaulted "steps" [] (Node.list step) fs
    inputSchema := ← Node.defaulted "input_schema" [] (Node.fields param) fs
    outputSchema := ← Node.defaulted "output_schema" [] (Node.fields outputField) fs
    primaryScore := (← given "primary_score").getD "overall_score"
    tags := ← Node.defaulted "tags" [] texts fs
    sections := sections }

end FrontMatter

namespace Playbook

/-- The playbook that a document declares. -/
def ofDocument (text : String) : Except PlaybookError Playbook := do
  let (front, body) ← match Document.split text.toList with
    | .ok parts => .ok parts
    | .error fault => .error (.invalidFrontMatter fault.message)
  match (Yaml.read (String.ofList front)).bind (FrontMatter.playbook (Document.sections body)) with
  | none => .error (.malformed none)
  | some p => do
    p.validate
    .ok p

/-- The playbook in a file; the path is part of what is reported. -/
def ofFile (path : String) (content : ByteArray) : Except PlaybookError Playbook :=
  match String.fromUTF8? content with
  | none => .error (.unreadable path "stream did not contain valid UTF-8")
  | some text =>
    match ofDocument text with
    | .error (.malformed _) => .error (.malformed (some path))
    | r => r

end Playbook

end PlaybookEngine
