import PlaybookEngine.Playbook.Basic
import PlaybookEngine.Workflow.Execution

namespace PlaybookEngine

namespace Condition

mutual

def holds (e : Execution) : Condition → Bool
  | .always => true
  | .notSkipped step => !(BoundInputs.skipSteps e.inputs).contains step
  | .inputPresent field =>
    match Fields.get? field e.inputs with
    | some v => !v.isNull
    | none => false
  | .inputEquals field value =>
    match Fields.get? field e.inputs with
    | some v => v == value
    | none => false
  | .inputIn field values =>
    match Fields.get? field e.inputs with
    | some v => values.contains v
    | none => false
  | .flag field => ((Fields.get? field e.inputs).bind Json.bool?).getD false
  | .stepSucceeded step =>
    match e.result? step with
    | some r => r.status == .success
    | none => false
  | .stepOutputEquals step field value =>
    match ((e.result? step).bind (·.output)).bind (Json.get? field) with
    | some v => v == value
    | none => false
  | .all conditions => holdsAll e conditions
  | .any conditions => holdsAny e conditions
  | .not inner => !holds e inner

def holdsAll (e : Execution) : List Condition → Bool
  | [] => true
  | c :: cs => holds e c && holdsAll e cs

def holdsAny (e : Execution) : List Condition → Bool
  | [] => false
  | c :: cs => holds e c || holdsAny e cs

end

theorem holdsAll_eq (e : Execution) (cs : List Condition) : holdsAll e cs = cs.all (holds e) := by
  induction cs with
  | nil => rfl
  | cons c cs ih => simp [holdsAll, ih]

theorem holdsAny_eq (e : Execution) (cs : List Condition) : holdsAny e cs = cs.any (holds e) := by
  induction cs with
  | nil => rfl
  | cons c cs ih => simp [holdsAny, ih]

end Condition

/-- A step without a condition always runs. -/
def Step.shouldRun (s : Step) (e : Execution) : Bool :=
  match s.condition with
  | none => true
  | some c => c.holds e

end PlaybookEngine
