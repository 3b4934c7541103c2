import PlaybookEngine.CommandLine.Style
import PlaybookEngine.Engine.Result
import PlaybookEngine.Json.Printer
import PlaybookEngine.Number.Fixed
import PlaybookEngine.Playbook.Registry

namespace PlaybookEngine.CommandLine.Report

def locales (r : Registry) (code : String) : List String := (r.variants code).map (·.locale)

def summary (r : Registry) (p : Playbook) : Json :=
  .ofObject [("code", .str p.code), ("name", .str p.name), ("version", .str p.version),
    ("kind", .named p.kind), ("default_locale", .str p.defaultLocale),
    ("locales", .strings (locales r p.code)), ("tags", .strings p.tags),
    ("steps", .nat p.steps.length), ("has_async_steps", .bool p.hasAsyncSteps)]

def listing (r : Registry) : Json := .ofObject [("playbooks", .arr (r.list.map (summary r)))]

def row (code version kind locales name : String) : String :=
  code ++ " " ++ padded 10 version ++ " " ++ padded 14 kind ++ " " ++ padded 16 locales ++ " "
    ++ name

def playbookRow (ink : Ink) (r : Registry) (p : Playbook) : String :=
  let code := if p.hasAsyncSteps then p.code ++ " " ++ ink.paint [.dimmed] "(async)" else p.code
  row (ink.column [.brightBlue] 28 code) p.version (Named.text p.kind)
    (Text.join "," (locales r p.code)) p.name

def rejectionNote (ink : Ink) (rejected : Nat) : List String :=
  if rejected = 0 then []
  else ["", ink.paint [.yellow] "!" ++ " " ++ toString rejected ++ " definition(s) rejected; run "
    ++ ink.paint [.brightBlue] "tess validate" ++ " for details"]

def list (ink : Ink) (dir : String) (r : Registry) : List String :=
  match r.list with
  | [] => ["No playbooks found in " ++ dir ++ "."]
  | ps =>
    [ink.paint [.bold] "Playbooks", "=========", "",
      row (padded 28 "Code") "Version" "Kind" "Locales" "Name",
      String.ofList (List.replicate 96 '-')]
    ++ ps.map (playbookRow ink r) ++ rejectionNote ink r.rejected.length

def stepNotes (s : Step) : List String :=
  (if s.isAsync then ["async"] else []) ++ (if s.condition.isSome then ["conditional"] else [])
    ++ (s.artifact.map fun a => "artifact: " ++ a.name).toList

def stepLine (ink : Ink) (index : Nat) (s : Step) : String :=
  let notes := match stepNotes s with
    | [] => ""
    | notes => "[" ++ Text.join ", " notes ++ "]"
  "  " ++ toString (index + 1) ++ ". " ++ ink.paint [.brightBlue] s.id ++ " → " ++ s.tool.text
    ++ " " ++ ink.paint [.dimmed] notes

def inputLine (ink : Ink) (input : String × Param) : String :=
  let need := if input.2.required then ink.paint [.red] "required"
    else ink.paint [.dimmed] "optional"
  "  " ++ padded 20 input.1 ++ " " ++ padded 16 (Named.text input.2.type) ++ " " ++ need

def mergeText : MergePolicy → String
  | .overwriteLast => ""
  | .unionByKey key _ _ => "union by " ++ key
  | .reduce reducer [] => Named.text reducer
  | .reduce reducer source => Named.text reducer ++ " of " ++ Text.join ", " source

def outputLine (ink : Ink) (output : String × OutputField) : String :=
  "  " ++ padded 20 output.1 ++ " " ++ padded 10 (Named.text output.2.type) ++ " "
    ++ ink.paint [.dimmed] (mergeText output.2.merge)

/-- A heading with lines, left out when there are none; an empty line follows if `gap` says so. -/
def part (ink : Ink) (heading : String) (gap : Bool) : List String → List String
  | [] => []
  | ls => ink.paint [.bold] heading :: ls ++ if gap then [""] else []

def playbook (ink : Ink) (p : Playbook) : List String :=
  let required := p.requiredTools.map fun t => "  " ++ ink.paint [.green] "•" ++ " " ++ t.text
  let optional := p.optionalTools.map fun t =>
    "  " ++ ink.paint [.yellow] "•" ++ " " ++ t.text ++ " " ++ ink.paint [.dimmed] "(optional)"
  [ink.paint [.bold, .cyan] p.code ++ " " ++ ink.paint [.dimmed] ("v" ++ p.version),
    "  Name:    " ++ p.name, "  Kind:    " ++ Named.text p.kind,
    "  Locale:  " ++ p.locale ++ " (default " ++ p.defaultLocale ++ ")"]
  ++ (if p.tags = [] then [] else ["  Tags:    " ++ Text.join ", " p.tags])
  ++ ["", ink.paint [.bold] "Tools"] ++ required ++ optional
  ++ ["", ink.paint [.bold] "Steps"] ++ p.steps.mapIdx (stepLine ink) ++ [""]
  ++ part ink "Inputs" true (p.inputSchema.map (inputLine ink))
  ++ part ink "Outputs" false (p.outputSchema.map (outputLine ink))

def validationJson (dir : String) (r : Registry) : Json :=
  .ofObject [("directory", .str dir),
    ("valid", .arr (r.codes.map fun code =>
      .ofObject [("code", .str code), ("locales", .strings (locales r code))])),
    ("rejected", .arr (r.rejected.map fun j =>
      .ofObject [("source", .str j.source), ("error", .str j.reason.message)])),
    ("all_valid", .bool r.rejected.isEmpty)]

def validation (ink : Ink) (dir : String) (r : Registry) : List String :=
  let valid := r.codes.map fun code => "  " ++ ink.paint [.bold, .green] "✓" ++ " " ++ code ++ " "
    ++ ink.paint [.dimmed] ("[" ++ Text.join ", " (locales r code) ++ "]")
  let rejected := r.rejected.flatMap fun j =>
    ["  " ++ ink.paint [.bold, .red] "✗" ++ " " ++ j.source,
      "    " ++ ink.paint [.red] "Error" ++ ": " ++ ink.paint [.dimmed] j.reason.message]
  let verdict := if r.rejected.isEmpty then
      ink.paint [.bold, .green] ("✓ " ++ toString r.codes.length ++ " playbook(s) valid")
    else ink.paint [.bold, .red] ("✗ " ++ toString r.rejected.length ++ " definition(s) rejected")
  [ink.paint [.bold, .cyan] "tess validate", "  Directory: " ++ ink.paint [.dimmed] dir, ""]
  ++ valid ++ rejected ++ ["", verdict]

def statusText (ink : Ink) (s : ExecutionStatus) : String :=
  match s with
  | .success => ink.paint [.green] (Named.text s)
  | .partialFailure => ink.paint [.yellow] (Named.text s)
  | _ => ink.paint [.red] (Named.text s)

def stepMarker (ink : Ink) : StepStatus → String
  | .success => ink.paint [.green] "✓"
  | .skipped => ink.paint [.dimmed] "-"
  | .dispatched => ink.paint [.cyan] "…"
  | .failed => ink.paint [.red] "✗"

def stepLines (ink : Ink) (r : StepResult) : List String :=
  ("  " ++ stepMarker ink r.status ++ " " ++ r.stepId ++ " "
    ++ ink.paint [.dimmed] ("(" ++ toString r.durationMillis ++ " ms)"))
  :: (r.error.map fun e => "    " ++ ink.paint [.red] e).toList

def batchLines (ink : Ink) (s : BatchSummary) : List String :=
  ["  Total:   " ++ toString s.total, "  Success: " ++ ink.paint [.green] (toString s.success),
    "  Skipped: " ++ toString s.skipped, "  Failed:  " ++ ink.paint [.red] (toString s.failed)]
  ++ (s.avgScore.map fun a => "  Average: " ++ a.fixed 2).toList

def artifactLine (ink : Ink) (a : Artifact) : String :=
  "  " ++ ink.paint [.brightBlue] a.storageKey ++ " "
    ++ ink.paint [.dimmed] ("v" ++ toString a.version)

def result (ink : Ink) (r : ExecutionResult) : List String :=
  [ink.paint [.bold, .cyan] r.playbookCode ++ " " ++ ink.paint [.dimmed] r.locale ++ " ["
      ++ statusText ink r.status ++ "]",
    "  Execution: " ++ ink.paint [.dimmed] r.executionId,
    "  Trace:     " ++ ink.paint [.dimmed] r.traceId, ""]
  ++ part ink "Steps" true (r.stepResults.flatMap (stepLines ink))
  ++ part ink "Batch" true ((r.batchSummary.map (batchLines ink)).getD [])
  ++ part ink "Artifacts" true (r.artifacts.map (artifactLine ink))
  ++ [ink.paint [.bold] "Output", (Json.obj r.output).pretty]

def dispatched (ink : Ink) (j : JobHandle) : List String :=
  [ink.paint [.bold, .cyan] j.playbookCode ++ " dispatched job " ++ ink.paint [.brightBlue] j.jobId,
    "  Step: " ++ j.stepId ++ " (" ++ j.tool.text ++ ")"]

def failure (ink : Ink) (f : Failure) : List String :=
  [ink.paint [.bold, .red] "✗" ++ " " ++ ink.paint [.red] (Named.text f.kind) ++ ": " ++ f.message]
  ++ (f.stepId.map fun s => "  Step:  " ++ s).toList
  ++ (if f.fields = [] then [] else ["  Fields: " ++ Text.join ", " f.fields])
  ++ (f.traceId.map fun t => "  Trace: " ++ ink.paint [.dimmed] t).toList

end PlaybookEngine.CommandLine.Report
