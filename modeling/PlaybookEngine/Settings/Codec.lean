import PlaybookEngine.Settings.Basic
import PlaybookEngine.Toml.Printer
import PlaybookEngine.Toml.Reader

namespace PlaybookEngine

namespace Settings

/-- The groups and their keys in the order of writing. -/
def groups : List (String × List String) :=
  [("paths", ["playbooks_dir", "artifacts_dir"]),
    ("locale", ["fallback"]),
    ("steps", ["timeout_secs"]),
    ("retry", ["max_attempts", "initial_delay_ms", "max_delay_ms", "multiplier"]),
    ("batch", ["concurrency", "item_timeout_secs", "timeout_secs"]),
    ("jobs", ["result_ttl_secs"])]

/-- The value of a setting. -/
inductive Value
  | text (s : String)
  | integer (i : Int)
  | float (x : Binary64)

namespace Value

def text? : Value → Option String
  | .text s => some s
  | _ => none

def natBelow? (limit : Nat) : Value → Option Nat
  | .integer i => if 0 ≤ i ∧ i < limit then some i.toNat else none
  | _ => none

def number? : Value → Option Binary64
  | .integer i => some (.ofInt i)
  | .float x => some x
  | .text _ => none

def toJson : Value → Json
  | .text s => .str s
  | .integer i => .int i
  | .float x => .ofBinary64 x

def toToml : Value → String
  | .text s => Toml.Printer.string s
  | .integer i => toString i
  | .float x => Toml.Printer.float x

end Value

/-- What is set, by group and key; the log level stands alone. -/
structure Entries where
  logLevel : Option Value
  groups : Fields (Fields Value)

/-- Reads a setting that may be unset. -/
def reading {α : Type} (read : Value → Option α) : Option Value → Option (Option α)
  | none => some none
  | some v => (read v).map some

def ofEntries (e : Entries) : Option Settings := do
  let get := fun group key => ((Fields.get? group e.groups).bind (Fields.get? key))
  let nat64 := fun group key => reading (Value.natBelow? 0x1_0000_0000_0000_0000) (get group key)
  some {
    logLevel := ← reading Value.text? e.logLevel
    playbooksDir := ← reading Value.text? (get "paths" "playbooks_dir")
    artifactsDir := ← reading Value.text? (get "paths" "artifacts_dir")
    fallbackLocale := ← reading Value.text? (get "locale" "fallback")
    stepTimeoutSecs := ← nat64 "steps" "timeout_secs"
    maxAttempts := ← reading (Value.natBelow? 0x1_0000_0000) (get "retry" "max_attempts")
    initialDelayMs := ← nat64 "retry" "initial_delay_ms"
    maxDelayMs := ← nat64 "retry" "max_delay_ms"
    multiplier := ← reading Value.number? (get "retry" "multiplier")
    concurrency := ← nat64 "batch" "concurrency"
    itemTimeoutSecs := ← nat64 "batch" "item_timeout_secs"
    batchTimeoutSecs := ← nat64 "batch" "timeout_secs"
    resultTtlSecs := ← nat64 "jobs" "result_ttl_secs" }

/-- The value of a setting by group and key. -/
def value? (s : Settings) (group key : String) : Option Value :=
  let nat := Option.map fun n : Nat => Value.integer n
  match group, key with
  | "paths", "playbooks_dir" => s.playbooksDir.map .text
  | "paths", "artifacts_dir" => s.artifactsDir.map .text
  | "locale", _ => s.fallbackLocale.map .text
  | "steps", _ => nat s.stepTimeoutSecs
  | "retry", "max_attempts" => nat s.maxAttempts
  | "retry", "initial_delay_ms" => nat s.initialDelayMs
  | "retry", "max_delay_ms" => nat s.maxDelayMs
  | "retry", _ => s.multiplier.map .float
  | "batch", "concurrency" => nat s.concurrency
  | "batch", "item_timeout_secs" => nat s.itemTimeoutSecs
  | "batch", _ => nat s.batchTimeoutSecs
  | "jobs", _ => nat s.resultTtlSecs
  | _, _ => none

def encode (s : Settings) : Json :=
  .ofObject (("log_level", Json.ofOption (s.logLevel.map .str)) ::
    groups.map fun g => (g.1, .ofObject (g.2.map fun k =>
      (k, Json.ofOption ((s.value? g.1 k).map Value.toJson)))))

def valueOfJson : Json → Option (Option Value)
  | .null => some none
  | .str s => some (some (.text s))
  | .int i => some (some (.integer i))
  | .float x => some (some (.float (.finite x)))
  | _ => none

/-- The fields with values that are set. -/
def fieldsOfJson (fs : Fields Json) : Option (Fields Value) :=
  (fs.mapM fun p => (valueOfJson p.2).map fun v => (p.1, v)).map fun vs =>
    vs.filterMap fun p => p.2.map fun v => (p.1, v)

def groupOfJson (keys : List String) (v : Json) : Option (Fields Value) := do
  fieldsOfJson (← Decoder.closedRecord 0 keys v)

def decode : Decoder Settings := fun v => do
  let fs ← Decoder.closedRecord 0 ("log_level" :: groups.map (·.1)) v
  let logLevel ← valueOfJson (Json.ofOption (Fields.get? "log_level" fs))
  let present := groups.filter fun g => Fields.contains g.1 fs
  let entries ← present.mapM fun g =>
    (Decoder.required g.1 (groupOfJson g.2) fs).map fun vs => (g.1, vs)
  ofEntries ⟨logLevel, entries⟩

def valueOfToml : Toml → Option Value
  | .string s => some (.text s)
  | .integer i => some (.integer i)
  | .float x => some (.float x)
  | _ => none

/-- A group is a table, or a list of values in the order of the keys. -/
def groupOfToml (keys : List String) : Toml → Option (Fields Value)
  | .table _ es =>
    if es.all fun e => keys.contains e.1 then
      es.mapM fun e => (valueOfToml e.2).map fun v => (e.1, v)
    else none
  | .array items => (keys.zip items).mapM fun e => (valueOfToml e.2).map fun v => (e.1, v)
  | _ => none

def ofToml (text : String) : Option Settings := do
  let es ← Toml.read text
  if !es.all fun e => e.1 = "log_level" || groups.any (·.1 = e.1) then none
  let logLevel ← match es.lookup "log_level" with
    | some v => (valueOfToml v).map some
    | none => some none
  let present := groups.filterMap fun g => (es.lookup g.1).map fun v => (g, v)
  let entries ← present.mapM fun (g, v) => (groupOfToml g.2 v).map fun vs => (g.1, vs)
  ofEntries ⟨logLevel, entries⟩

/-- A group with what is set in it. -/
def groupText (s : Settings) (g : String × List String) : String :=
  "[" ++ g.1 ++ "]\n" ++ String.join (g.2.filterMap fun k =>
    (s.value? g.1 k).map fun v => k ++ " = " ++ v.toToml ++ "\n")

/-- The settings as a file: every group stands there, what is unset does not. -/
def toToml (s : Settings) : String :=
  let level := s.logLevel.elim "" fun l => "log_level = " ++ Toml.Printer.string l ++ "\n\n"
  level ++ Text.join "\n" (groups.map s.groupText)

/-- Reads a file of settings, which is missing when it has no content. -/
def ofFile (path : String) (content : Option ByteArray) : Except SettingsError Settings :=
  match content with
  | none => .error (.notFound path)
  | some bytes =>
    match String.fromUTF8? bytes with
    | none => .error (.unreadable (path ++ ": stream did not contain valid UTF-8"))
    | some text =>
      match ofToml text with
      | none => .error (.malformed path)
      | some s => s.validate.map fun _ => s

end Settings

end PlaybookEngine
