import PlaybookEngine.Json.Codec
import PlaybookEngine.Text.Blank
import PlaybookEngine.Text.Parts

namespace PlaybookEngine

/-- Why inputs were refused; both kinds name the input. -/
inductive BindingError
  | missingField (field : String)
  | invalidValue (field reason : String)
  deriving DecidableEq

namespace BindingError

def field : BindingError → String
  | .missingField f => f
  | .invalidValue f _ => f

def message : BindingError → String
  | .missingField f => "Missing required input '" ++ f ++ "'"
  | .invalidValue f reason => "Invalid value for input '" ++ f ++ "': " ++ reason

end BindingError

/-- The reason for a text that is none of the allowed ones. -/
def notOneOf (text : String) (allowed : List String) : String :=
  "'" ++ text ++ "' is not one of [" ++ Text.join ", " allowed ++ "]"

/-- A choice of names that an input of a fixed name carries. -/
class Pattern (α : Type) extends Named α where
  field : String
  fallback : α

namespace Pattern

variable (α : Type) [Pattern α]

def read (text : String) : Except BindingError α :=
  match Named.ofText? (α := α) text with
  | some a => .ok a
  | none => .error (.invalidValue (field α)
      (notOneOf text ((Named.all (α := α)).map Named.text)))

end Pattern

inductive RunMode
  | single | batch
  deriving DecidableEq

instance : Pattern RunMode where
  all := [.single, .batch]
  text
    | .single => "single"
    | .batch => "batch"
  field := "run_mode"
  fallback := .single

/-- How far generated content is on its way to readers. -/
inductive ContentStatus
  | draft | inReview | published | archived
  deriving DecidableEq

instance : Pattern ContentStatus where
  all := [.draft, .inReview, .published, .archived]
  text
    | .draft => "draft"
    | .inReview => "in_review"
    | .published => "published"
    | .archived => "archived"
  field := "content_status"
  fallback := .draft

/-- How strictly claims are tied to sources. -/
inductive CitationMode
  | none | light | strict
  deriving DecidableEq

instance : Pattern CitationMode where
  all := [.none, .light, .strict]
  text
    | .none => "none"
    | .light => "light"
    | .strict => "strict"
  field := "citation_mode"
  fallback := .none

inductive ContentSource
  | obsidian (location : String)
  | workspace (location : String)
  | url (location : String)
  | pastedText
  deriving DecidableEq

namespace ContentSource

def field : String := "content_source"

/-- A location is not empty and holds no blanks. -/
def isLocation (cs : List Char) : Bool := cs ≠ [] && cs.all fun c => !Text.isBlank c

/-- The location after `scheme` and `://`. -/
def location? (scheme : String) (s : String) : Option String :=
  match Text.after? (scheme ++ "://").toList s.toList with
  | some rest => if isLocation rest then some (String.ofList rest) else none
  | none => none

def ofText? (s : String) : Option ContentSource :=
  if s = "pasted_text" then some .pastedText
  else ((location? "obsidian" s).map .obsidian).or
    (((location? "workspace" s).map .workspace).or ((location? "url" s).map .url))

def fault (s : String) : String :=
  "'" ++ s ++ "' must start with obsidian://, workspace:// or url://, or be 'pasted_text'"

def read (s : String) : Except BindingError ContentSource :=
  match ofText? s with
  | some source => .ok source
  | none => .error (.invalidValue field (fault s))

end ContentSource

end PlaybookEngine
