import PlaybookEngine.CommandLine.Basic
import PlaybookEngine.CommandLine.Report
import PlaybookEngine.Json.Reader
import PlaybookEngine.Settings.Codec

namespace PlaybookEngine.CommandLine

/-- The variables of the environment. -/
abbrev Environment := String → Option String

def version : String := "0.1.0"

def usage : String := lines [
  "Markdown playbook engine", "",
  "Usage: tess [OPTIONS] [COMMAND]", "",
  "Commands:",
  "  list      List available playbooks",
  "  show      Show a playbook definition",
  "  validate  Validate every playbook in a directory",
  "  run       Dry-run a playbook",
  "  help      Print this message", "",
  "Options:",
  "  -l, --log-level <LOG_LEVEL>          Log level (trace, debug, info, warn, error)",
  "  -p, --playbooks-dir <PLAYBOOKS_DIR>  Playbook directory",
  "  -c, --config <CONFIG>                Configuration file",
  "  -h, --help                           Print help",
  "  -V, --version                        Print version"]

/-- Reads a file of settings. -/
def readSettings (path : String) : Activity Console (Except SettingsError Settings) := do
  match ← Console.look path with
  | .file content => return Settings.ofFile path (some content)
  | .directory => return .error (.unreadable path)
  | .missing => return .error (.notFound path)
  | .blocked => return .error (.notFound path)

/-- The words of the system and of the reader of settings do not belong to the causes. -/
def settingsComplaint (path : String) (e : SettingsError) : Complaint :=
  ⟨"Failed to load configuration from " ++ path,
    match e with
    | .notFound _ => [e.message]
    | .invalid _ => [e.message]
    | .unreadable _ => []
    | .malformed _ => []⟩

/-- The settings of the user with those of the working directory on top. A file that cannot be used
counts for nothing. -/
def discoverSettings (home : Option String) : Activity Console Settings := do
  let user ← readSettings (Discovery.below (Settings.homeDir home) "config.toml")
  let here ← readSettings ".tesserarc"
  return [user, here].foldl (fun s layer => layer.toOption.elim s s.merge) {}

def loadSettings (env : Environment) (args : Arguments) :
    Activity Console (Except Complaint Settings) := do
  let complete := fun (s : Settings) =>
    let s := s.withEnvironment env
    { s with playbooksDir := args.playbooksDir <|> s.playbooksDir }
  match args.config with
  | none => return .ok (complete (← discoverSettings (env "HOME")))
  | some path =>
    match ← readSettings path with
    | .ok s => return .ok (complete s)
    | .error e => return .error (settingsComplaint path e)

/-- The registry of a directory, with the files that were rejected. -/
def readRegistry (s : Settings) (dir : String) : Activity Console (Except PlaybookError Registry) :=
  return Registry.ofDirectory dir s.fallback (← Console.files dir)

/-- What has led to an error about playbooks. -/
def playbookCauses : PlaybookError → List String
  | .unreadable _ reason => [reason]
  | _ => []

def loadRegistry (s : Settings) (dir : String) : Activity Console (Except Complaint Registry) := do
  match ← readRegistry s dir with
  | .ok r => return .ok r
  | .error e =>
    return .error ⟨"Failed to load playbooks from " ++ dir, e.message :: playbookCauses e⟩

def report (json : Bool) (value : Json) (text : List String) : String :=
  lines (if json then [value.pretty] else text)

def list (ink : Ink) (s : Settings) (home : Option String) (json : Bool) :
    Activity Console Outcome := do
  let dir := s.playbooksDirOr home
  match ← loadRegistry s dir with
  | .error c => return .complaint c
  | .ok r => return .success (report json (Report.listing r) (Report.list ink dir r))

def describe (ink : Ink) (s : Settings) (home : Option String) (code : String)
    (locale : Option String) (json : Bool) : Activity Console Outcome := do
  match ← loadRegistry s (s.playbooksDirOr home) with
  | .error c => return .complaint c
  | .ok r =>
    match r.resolve code (locale.getD s.fallback) with
    | .error e => return .complaint ⟨e.message, playbookCauses e⟩
    | .ok p => return .success (report json p.encode (Report.playbook ink p))

/-- Fails when a definition is rejected, after the report. -/
def validate (ink : Ink) (s : Settings) (home : Option String) (dir : Option String) (json : Bool) :
    Activity Console Outcome := do
  let dir := dir.getD (s.playbooksDirOr home)
  match ← readRegistry s dir with
  | .error e => return .complaint ⟨e.message, playbookCauses e⟩
  | .ok r =>
    let output := report json (Report.validationJson dir r) (Report.validation ink dir r)
    match r.rejected with
    | [] => return .success output
    | rejected =>
      let c : Complaint := ⟨toString rejected.length ++ " playbook definition(s) rejected", []⟩
      return ⟨1, output, c.text⟩

def inputsOfText (text : String) : Except Complaint (Fields Json) :=
  match Json.read text with
  | some (.obj fs) => .ok fs
  | some v => .error ⟨"Inputs must be a JSON object, got " ++ v.compact, []⟩
  | none => .error ⟨"Inputs are not valid JSON", []⟩

def readInputs : InputSource → Activity Console (Except Complaint (Fields Json))
  | .none => return .ok []
  | .text s => return inputsOfText s
  | .file path => do
    let unreadable : Complaint := ⟨"Failed to read inputs from " ++ path, []⟩
    match ← Console.look path with
    | .file content =>
      match String.fromUTF8? content with
      | some text => return inputsOfText text
      | none => return .error unreadable
    | _ => return .error unreadable

/-- A failure goes to the errors, but to the output when it is written as a value. -/
def invocationOutcome (ink : Ink) (json : Bool) :
    Except Panic (Except Failure Invocation) → Outcome
  | .error why => .panicked why
  | .ok (.ok (.completed r)) => .success (report json r.encode (Report.result ink r))
  | .ok (.ok (.dispatched j)) => .success (report json j.encode (Report.dispatched ink j))
  | .ok (.error f) =>
    if json then ⟨1, lines [f.encode.pretty], ""⟩ else ⟨1, "", lines (Report.failure ink f)⟩

def run (ink : Ink) (s : Settings) (home : Option String) (code : String) (locale : Option String)
    (source : InputSource) (json : Bool) : Activity Console Outcome := do
  match ← readInputs source with
  | .error c => return .complaint c
  | .ok inputs =>
    match ← loadRegistry s (s.playbooksDirOr home) with
    | .error c => return .complaint c
    | .ok r =>
      let answer ← Console.execute ⟨r, s.steps, s.batch⟩ (s.artifactsDirOr home) code
        (locale.getD s.fallback) inputs
      return invocationOutcome ink json answer

def perform (ink : Ink) (s : Settings) (home : Option String) :
    Option Command → Activity Console Outcome
  | none => return .success usage
  | some (.list json) => list ink s home json
  | some (.describe code locale json) => describe ink s home code locale json
  | some (.validate dir json) => validate ink s home dir json
  | some (.run code locale inputs json) => run ink s home code locale inputs json

/-- The whole command line: its arguments, the environment, and whether it writes to a terminal. -/
def program (args : List String) (env : Environment) (terminal : Bool) :
    Activity Console Outcome := do
  match Arguments.read args with
  | .error .misuse => return ⟨2, "", usage⟩
  | .error .help => return .success usage
  | .error .version => return .success (lines ["tess " ++ version])
  | .ok args =>
    match ← loadSettings env args with
    | .error c => return .complaint c
    | .ok s => perform (Ink.ofEnvironment env terminal) s (env "HOME") args.command

end PlaybookEngine.CommandLine
