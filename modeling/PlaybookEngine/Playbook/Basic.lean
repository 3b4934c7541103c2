import PlaybookEngine.Playbook.Condition
import PlaybookEngine.Playbook.ToolRef

namespace PlaybookEngine

/-- A playbook is run for a user, or is a tool of other playbooks. -/
inductive PlaybookKind
  | userWorkflow | systemTool
  deriving DecidableEq

instance : Named PlaybookKind where
  all := [.userWorkflow, .systemTool]
  text
    | .userWorkflow => "user_workflow"
    | .systemTool => "system_tool"

/-- The type of an input. -/
inductive ParamType
  | string | integer | number | boolean | array | object | contentSource | enumeration
  deriving DecidableEq

instance : Named ParamType where
  all := [.string, .integer, .number, .boolean, .array, .object, .contentSource, .enumeration]
  text
    | .string => "string"
    | .integer => "integer"
    | .number => "number"
    | .boolean => "boolean"
    | .array => "array"
    | .object => "object"
    | .contentSource => "content_source"
    | .enumeration => "enum"

/-- The declaration of an input. `values` lists what an enumeration allows. -/
structure Param where
  type : ParamType
  required : Bool
  default : Option Json
  values : List String
  description : Option String

/-- The type of an output field. -/
inductive FieldType
  | string | number | boolean | array | object | any
  deriving DecidableEq

instance : Named FieldType where
  all := [.string, .number, .boolean, .array, .object, .any]
  text
    | .string => "string"
    | .number => "number"
    | .boolean => "boolean"
    | .array => "array"
    | .object => "object"
    | .any => "any"

namespace FieldType

/-- Null conforms to no type. -/
def accepts : FieldType → Json → Bool
  | .string, .str _ => true
  | .number, .int _ => true
  | .number, .float _ => true
  | .boolean, .bool _ => true
  | .array, .arr _ => true
  | .object, .obj _ => true
  | .any, v => !v.isNull
  | _, _ => false

def isStructured (t : FieldType) : Bool := t == .array || t == .object

theorem accepts_null (t : FieldType) : t.accepts .null = false := by cases t <;> rfl

end FieldType

inductive Reducer
  | mean | sum | min | max
  deriving DecidableEq

instance : Named Reducer where
  all := [.mean, .sum, .min, .max]
  text
    | .mean => "mean"
    | .sum => "sum"
    | .min => "min"
    | .max => "max"

/-- How the values that several steps give for one output field become one. -/
inductive MergePolicy
  | overwriteLast
  /-- Lists of objects, united by the field `key`. -/
  | unionByKey (key : String) (dedup : List String) (max : Option String)
  /-- The numbers of the fields in `source`, or of the field itself when it is empty. -/
  | reduce (reducer : Reducer) (source : List String)
  deriving DecidableEq

structure OutputField where
  type : FieldType
  required : Bool
  merge : MergePolicy
  deriving DecidableEq

/-- The output field of a step that is stored as an artifact. -/
structure ArtifactSpec where
  name : String
  contentField : String
  extension : String
  deriving DecidableEq

structure Step where
  id : String
  action : String
  tool : ToolRef
  condition : Option Condition
  /-- The tool hands out a job that is asked for later. -/
  isAsync : Bool
  params : Fields Json
  artifact : Option ArtifactSpec

structure Playbook where
  code : String
  version : String
  name : String
  description : String
  kind : PlaybookKind
  capabilityCode : Option String
  locale : String
  supportedLocales : List String
  defaultLocale : String
  requiredTools : List ToolRef
  optionalTools : List ToolRef
  steps : List Step
  inputSchema : Fields Param
  outputSchema : Fields OutputField
  /-- The output field that a batch averages. -/
  primaryScore : String
  tags : List String
  sections : Fields String

namespace Playbook

def declaresTool (p : Playbook) (t : ToolRef) : Bool :=
  p.requiredTools.contains t || p.optionalTools.contains t

/-- A failure of the tool does not end the execution. -/
def isOptionalTool (p : Playbook) (t : ToolRef) : Bool :=
  p.optionalTools.contains t && !p.requiredTools.contains t

def hasAsyncSteps (p : Playbook) : Bool := p.steps.any (·.isAsync)

/-- The capability under which artifacts are stored. -/
def artifactCapability (p : Playbook) : String := p.capabilityCode.getD p.code

def section? (p : Playbook) (heading : String) : Option String := Fields.get? heading p.sections

end Playbook

end PlaybookEngine
