namespace PlaybookEngine

inductive PlaybookError
  | unreadable (path reason : String)
  /-- The front matter is no valid document; the reason is that of the reader. -/
  | malformed (path : Option String)
  | invalidFrontMatter (reason : String)
  | missingField (field : String)
  | invalidVersion (version reason : String)
  | invalidLocale (reason : String)
  | invalidToolRef (text : String)
  | undeclaredTool (step tool : String)
  | duplicateStep (step : String)
  | duplicateCode (code locale : String)
  | notFound (code : String)
  deriving DecidableEq

namespace PlaybookError

def message : PlaybookError → String
  | .unreadable path reason => "Failed to load playbook file at " ++ path ++ ": " ++ reason
  | .malformed none => "Failed to parse playbook frontmatter: <yaml>"
  | .malformed (some path) => "Failed to parse playbook frontmatter at " ++ path ++ ": <yaml>"
  | .invalidFrontMatter reason => "Invalid frontmatter format: " ++ reason
  | .missingField field => "Missing required field in playbook: " ++ field
  | .invalidVersion version reason => "Invalid version '" ++ version ++ "': " ++ reason
  | .invalidLocale reason => "Invalid locale configuration: " ++ reason
  | .invalidToolRef text =>
    "Invalid tool reference '" ++ text ++ "', expected 'capability.tool_name'"
  | .undeclaredTool step tool => "Step '" ++ step ++ "' references undeclared tool '" ++ tool ++ "'"
  | .duplicateStep step => "Duplicate step id: " ++ step
  | .duplicateCode code locale =>
    "Duplicate playbook code '" ++ code ++ "' for locale '" ++ locale ++ "'"
  | .notFound code => "Playbook not found: " ++ code

/-- The fault lies in a definition, not in what was asked for. -/
def isDefinitionError : PlaybookError → Bool
  | .notFound _ => false
  | _ => true

end PlaybookError

end PlaybookEngine
