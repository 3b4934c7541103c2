import PlaybookEngine.Playbook.Basic

namespace PlaybookEngine

namespace ToolRef

def encode (t : ToolRef) : Json := .str t.text

def decode : Decoder ToolRef := Decoder.stringWith ToolRef.ofText?

end ToolRef

namespace Param

def encode (p : Param) : Json :=
  .ofObject (Json.entry "type" (.named p.type)
    ++ Json.entry "required" (.bool p.required)
    ++ Json.entry? "default" p.default
    ++ Json.entryList "values" (p.values.map .str)
    ++ Json.entry? "description" (p.description.map .str))

def decode : Decoder Param := fun v => do
  let fs ← Decoder.closedRecord 1 ["type", "required", "default", "values", "description"] v
  some {
    type := ← Decoder.required "type" Decoder.named fs
    required := ← Decoder.defaulted "required" false Decoder.bool fs
    default := ← Decoder.optional "default" Decoder.value fs
    values := ← Decoder.defaulted "values" [] (Decoder.list Decoder.string) fs
    description := ← Decoder.optional "description" Decoder.string fs }

end Param

namespace MergePolicy

def encode : MergePolicy → Json
  | .overwriteLast => .str "overwrite_last"
  | .unionByKey key dedup max =>
    .obj [("union_by_key", .obj [("dedup", Json.strings dedup), ("key", .str key),
      ("max", Json.ofOption (max.map .str))])]
  | .reduce reducer source =>
    .obj [("reduce", .obj [("from", Json.strings source), ("reducer", .named reducer)])]

def decode : Decoder MergePolicy
  | .str "overwrite_last" => some .overwriteLast
  | .obj [("overwrite_last", .null)] => some .overwriteLast
  | .obj [("union_by_key", v)] => do
    let fs ← Decoder.object v
    some (.unionByKey (← Decoder.required "key" Decoder.string fs)
      (← Decoder.defaulted "dedup" [] (Decoder.list Decoder.string) fs)
      (← Decoder.optional "max" Decoder.string fs))
  | .obj [("reduce", v)] => do
    let fs ← Decoder.object v
    some (.reduce (← Decoder.defaulted "reducer" .mean Decoder.named fs)
      (← Decoder.defaulted "from" [] (Decoder.list Decoder.string) fs))
  | _ => none

end MergePolicy

namespace OutputField

def encode (f : OutputField) : Json :=
  .ofObject (Json.entry "type" (.named f.type) ++ Json.entry "required" (.bool f.required)
    ++ Json.entry "merge" f.merge.encode)

def decode : Decoder OutputField := fun v => do
  let fs ← Decoder.closedRecord 0 ["type", "required", "merge"] v
  some {
    type := ← Decoder.defaulted "type" .any Decoder.named fs
    required := ← Decoder.defaulted "required" true Decoder.bool fs
    merge := ← Decoder.defaulted "merge" .overwriteLast MergePolicy.decode fs }

end OutputField

namespace ArtifactSpec

def defaultExtension : String := "md"

def encode (a : ArtifactSpec) : Json :=
  .ofObject (Json.entry "name" (.str a.name) ++ Json.entry "content_field" (.str a.contentField)
    ++ Json.entry "extension" (.str a.extension))

def decode : Decoder ArtifactSpec := fun v => do
  let fs ← Decoder.closedRecord 2 ["name", "content_field", "extension"] v
  some {
    name := ← Decoder.required "name" Decoder.string fs
    contentField := ← Decoder.required "content_field" Decoder.string fs
    extension := ← Decoder.defaulted "extension" defaultExtension Decoder.string fs }

end ArtifactSpec

namespace Step

def encode (s : Step) : Json :=
  .ofObject (Json.entry "id" (.str s.id) ++ Json.entry "action" (.str s.action)
    ++ Json.entry "tool" s.tool.encode
    ++ Json.entry? "condition" (s.condition.map Condition.encode)
    ++ Json.entry "async" (.bool s.isAsync)
    ++ (if s.params = [] then [] else Json.entry "params" (.obj s.params))
    ++ Json.entry? "artifact" (s.artifact.map ArtifactSpec.encode))

def decode : Decoder Step := fun v => do
  let fs ← Decoder.closedRecord 3
    ["id", "action", "tool", "condition", "async", "params", "artifact"] v
  some {
    id := ← Decoder.required "id" Decoder.string fs
    action := ← Decoder.required "action" Decoder.string fs
    tool := ← Decoder.required "tool" ToolRef.decode fs
    condition := ← Decoder.optional "condition" Condition.decode fs
    isAsync := ← Decoder.defaulted "async" false Decoder.bool fs
    params := ← Decoder.defaulted "params" [] Decoder.object fs
    artifact := ← Decoder.optional "artifact" ArtifactSpec.decode fs }

end Step

namespace Playbook

def encode (p : Playbook) : Json :=
  .ofObject (Json.entry "code" (.str p.code)
    ++ Json.entry "version" (.str p.version)
    ++ Json.entry "name" (.str p.name)
    ++ Json.entry "description" (.str p.description)
    ++ Json.entry "kind" (.named p.kind)
    ++ Json.entry? "capability_code" (p.capabilityCode.map .str)
    ++ Json.entry "locale" (.str p.locale)
    ++ Json.entry "supported_locales" (Json.strings p.supportedLocales)
    ++ Json.entry "default_locale" (.str p.defaultLocale)
    ++ Json.entry "required_tools" (.arr (p.requiredTools.map ToolRef.encode))
    ++ Json.entry "optional_tools" (.arr (p.optionalTools.map ToolRef.encode))
    ++ Json.entry "steps" (.arr (p.steps.map Step.encode))
    ++ Json.entry "input_schema" (.obj (Fields.mapValues Param.encode p.inputSchema))
    ++ Json.entry "output_schema" (.obj (Fields.mapValues OutputField.encode p.outputSchema))
    ++ Json.entry "primary_score" (.str p.primaryScore)
    ++ Json.entry "tags" (Json.strings p.tags)
    ++ Json.entry "sections" (.obj (Fields.mapValues .str p.sections)))

def decode : Decoder Playbook := fun v => do
  let fs ← Decoder.record 15
    ["code", "version", "name", "description", "kind", "capability_code", "locale",
      "supported_locales", "default_locale", "required_tools", "optional_tools", "steps",
      "input_schema", "output_schema", "primary_score", "tags", "sections"] v
  some {
    code := ← Decoder.required "code" Decoder.string fs
    version := ← Decoder.required "version" Decoder.string fs
    name := ← Decoder.required "name" Decoder.string fs
    description := ← Decoder.defaulted "description" "" Decoder.string fs
    kind := ← Decoder.required "kind" Decoder.named fs
    capabilityCode := ← Decoder.optional "capability_code" Decoder.string fs
    locale := ← Decoder.required "locale" Decoder.string fs
    supportedLocales := ← Decoder.required "supported_locales" (Decoder.list Decoder.string) fs
    defaultLocale := ← Decoder.required "default_locale" Decoder.string fs
    requiredTools := ← Decoder.defaulted "required_tools" [] (Decoder.list ToolRef.decode) fs
    optionalTools := ← Decoder.defaulted "optional_tools" [] (Decoder.list ToolRef.decode) fs
    steps := ← Decoder.defaulted "steps" [] (Decoder.list Step.decode) fs
    inputSchema := ← Decoder.defaulted "input_schema" [] (Decoder.fields Param.decode) fs
    outputSchema := ← Decoder.defaulted "output_schema" [] (Decoder.fields OutputField.decode) fs
    primaryScore := ← Decoder.required "primary_score" Decoder.string fs
    tags := ← Decoder.defaulted "tags" [] (Decoder.list Decoder.string) fs
    sections := ← Decoder.defaulted "sections" [] (Decoder.fields Decoder.string) fs }

end Playbook

end PlaybookEngine
