import PlaybookEngine.Batch.Basic
import PlaybookEngine.Engine.Jobs
import PlaybookEngine.Playbook.Registry
import PlaybookEngine.Workflow.Attempts

namespace PlaybookEngine

structure Settings where
  logLevel : Option String := none
  playbooksDir : Option String := none
  artifactsDir : Option String := none
  fallbackLocale : Option String := none
  stepTimeoutSecs : Option Nat := none
  maxAttempts : Option Nat := none
  initialDelayMs : Option Nat := none
  maxDelayMs : Option Nat := none
  multiplier : Option Binary64 := none
  concurrency : Option Nat := none
  itemTimeoutSecs : Option Nat := none
  batchTimeoutSecs : Option Nat := none
  resultTtlSecs : Option Nat := none
  deriving DecidableEq

inductive SettingsError
  | notFound (path : String)
  | unreadable (reason : String)
  | malformed (reason : String)
  | invalid (reason : String)

namespace SettingsError

def message : SettingsError → String
  | .notFound path => "Configuration file not found: " ++ path
  | .unreadable reason => "Failed to access configuration file: " ++ reason
  | .malformed reason => "Failed to parse configuration file: " ++ reason
  | .invalid reason => "Invalid configuration value: " ++ reason

end SettingsError

namespace Settings

/-- The settings with those of a later layer on top. -/
def merge (s later : Settings) : Settings where
  logLevel := later.logLevel <|> s.logLevel
  playbooksDir := later.playbooksDir <|> s.playbooksDir
  artifactsDir := later.artifactsDir <|> s.artifactsDir
  fallbackLocale := later.fallbackLocale <|> s.fallbackLocale
  stepTimeoutSecs := later.stepTimeoutSecs <|> s.stepTimeoutSecs
  maxAttempts := later.maxAttempts <|> s.maxAttempts
  initialDelayMs := later.initialDelayMs <|> s.initialDelayMs
  maxDelayMs := later.maxDelayMs <|> s.maxDelayMs
  multiplier := later.multiplier <|> s.multiplier
  concurrency := later.concurrency <|> s.concurrency
  itemTimeoutSecs := later.itemTimeoutSecs <|> s.itemTimeoutSecs
  batchTimeoutSecs := later.batchTimeoutSecs <|> s.batchTimeoutSecs
  resultTtlSecs := later.resultTtlSecs <|> s.resultTtlSecs

/-- The variables of the environment that set directories; an empty one sets nothing. -/
def withEnvironment (s : Settings) (env : String → Option String) : Settings :=
  let dir := fun name => (env name).filter (· ≠ "")
  { s with
    playbooksDir := dir "TESSERA_PLAYBOOKS_DIR" <|> s.playbooksDir
    artifactsDir := dir "TESSERA_ARTIFACTS_DIR" <|> s.artifactsDir }

/-- A multiplier of at least one that is finite. -/
def multiplierFits (m : Binary64) : Bool := m.isFinite && !m.lt (.ofNat 1)

/-- The first setting that would stall or disable the engine. -/
def fault? (s : Settings) : Option String :=
  if s.maxAttempts = some 0 then some "retry.max_attempts must be at least 1"
  else if s.concurrency = some 0 then some "batch.concurrency must be at least 1"
  else if s.multiplier.any fun m => !multiplierFits m then some "retry.multiplier must be >= 1.0"
  else
    ([("steps.timeout_secs", s.stepTimeoutSecs), ("batch.item_timeout_secs", s.itemTimeoutSecs),
      ("batch.timeout_secs", s.batchTimeoutSecs), ("jobs.result_ttl_secs", s.resultTtlSecs)].find?
      fun p => p.2 = some 0).map fun p => p.1 ++ " must be positive"

def validate (s : Settings) : Except SettingsError Unit :=
  match s.fault? with
  | some reason => .error (.invalid reason)
  | none => .ok ()

/-- Where files are kept when no directory is set: below the home directory, or here. -/
def homeDir (home : Option String) : String := Discovery.below (home.getD ".") ".tessera"

def playbooksDirOr (s : Settings) (home : Option String) : String :=
  s.playbooksDir.getD (Discovery.below (homeDir home) "playbooks")

def artifactsDirOr (s : Settings) (home : Option String) : String :=
  s.artifactsDir.getD (Discovery.below (homeDir home) "artifacts")

def fallback (s : Settings) : String := s.fallbackLocale.getD Registry.defaultFallback

def retry (s : Settings) : RetryPolicy :=
  let d := RetryPolicy.default
  .make (s.maxAttempts.getD d.maxAttempts) (s.initialDelayMs.elim d.initialDelay Span.ofMillis)
    (s.maxDelayMs.elim d.maxDelay Span.ofMillis) (s.multiplier.getD d.multiplier)

def steps (s : Settings) : StepSettings :=
  ⟨s.retry, s.stepTimeoutSecs.elim StepSettings.default.timeout Span.ofSecs⟩

def batch (s : Settings) : BatchSettings :=
  let d := BatchSettings.default
  ⟨max (s.concurrency.getD d.concurrency) 1, s.itemTimeoutSecs.elim d.itemTimeout Span.ofSecs,
    s.batchTimeoutSecs.elim d.batchTimeout Span.ofSecs⟩

def resultTtl (s : Settings) : Span := s.resultTtlSecs.elim JobTable.defaultTtl Span.ofSecs

end Settings

end PlaybookEngine
