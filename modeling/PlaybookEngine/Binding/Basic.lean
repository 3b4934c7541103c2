import PlaybookEngine.Binding.Coercion

namespace PlaybookEngine

/-- Inputs that passed binding. -/
abbrev BoundInputs := Fields Json

namespace BoundInputs

/-- The value of a pattern, or its fallback when there is none that can be read. -/
def pattern (α : Type) [Pattern α] (b : BoundInputs) : α :=
  (((Fields.get? (Pattern.field α) b).bind Json.str?).bind Named.ofText?).getD (Pattern.fallback)

def runMode (b : BoundInputs) : RunMode := b.pattern RunMode

def contentStatus (b : BoundInputs) : ContentStatus := b.pattern ContentStatus

def citationMode (b : BoundInputs) : CitationMode := b.pattern CitationMode

/-- The steps that the caller asks to skip. -/
def skipSteps (b : BoundInputs) : List String :=
  match (Fields.get? "skip_steps" b).bind Json.arr? with
  | some items => items.filterMap Json.str?
  | none => []

def contentSource (b : BoundInputs) : Option ContentSource :=
  ((Fields.get? ContentSource.field b).bind Json.str?).bind ContentSource.ofText?

end BoundInputs

namespace Binding

/-- What is supplied for an input; null counts as nothing. -/
def supplied? (name : String) (raw : Fields Json) : Option Json :=
  (Fields.get? name raw).filter fun v => !v.isNull

/-- The inputs that the schema does not declare. -/
def undeclared (schema : Fields Param) (raw : Fields Json) : Fields Json :=
  raw.filter fun p => !Fields.contains p.1 schema && !p.2.isNull

/-- The bound value of a declared input, none when it stays absent. -/
def declared (name : String) (p : Param) (raw : Fields Json) : Except BindingError (Option Json) :=
  match supplied? name raw with
  | some v => (p.coerce name v).map some
  | none =>
    if p.required then .error (.missingField name)
    else match p.default with
      | some v => (p.coerce name v).map some
      | none => .ok none

/-- Binds the declared inputs in the order of the schema, on top of `bound`. -/
def bindDeclared (raw bound : Fields Json) : Fields Param → Except BindingError (Fields Json)
  | [] => .ok bound
  | (name, p) :: rest => do
    match ← declared name p raw with
    | some v => bindDeclared raw (Fields.insert name v bound) rest
    | none => bindDeclared raw bound rest

/-- A pattern that is bound is a text, and one of its names. -/
def checkPattern (α : Type) [Pattern α] (bound : Fields Json) : Except BindingError Unit :=
  match Fields.get? (Pattern.field α) bound with
  | none => .ok ()
  | some (.str s) => (Pattern.read α s).map fun _ => ()
  | some _ => .error (.invalidValue (Pattern.field α) "expected a string")

def checkSkipSteps (bound : Fields Json) : Except BindingError Unit :=
  match Fields.get? "skip_steps" bound with
  | none => .ok ()
  | some v =>
    if (v.arr?.getD [.null]).all (·.str?.isSome) then .ok ()
    else .error (.invalidValue "skip_steps" "expected a list of step ids")

def checkPatterns (bound : Fields Json) : Except BindingError Unit := do
  checkPattern RunMode bound
  checkPattern ContentStatus bound
  checkPattern CitationMode bound
  checkSkipSteps bound

end Binding

/-- Binds inputs to a schema; the error names the first offending input. -/
def bind (schema : Fields Param) (raw : Fields Json) : Except BindingError BoundInputs := do
  let bound ← Binding.bindDeclared raw (Binding.undeclared schema raw) schema
  Binding.checkPatterns bound
  .ok bound

end PlaybookEngine
