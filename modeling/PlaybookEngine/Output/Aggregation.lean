import PlaybookEngine.Output.Reduction
import PlaybookEngine.Output.Union

namespace PlaybookEngine

/-- The merged fields so far, and for each reduced field the numbers seen. -/
structure Aggregation where
  merged : Fields Json
  samples : Fields (List Binary64)

namespace Aggregation

def init : Aggregation := ⟨[], []⟩

/-- The numbers that a value contributes to a reduction. -/
def numbersOf : Json → List Binary64
  | .arr items => items.filterMap Json.number?
  | v => v.number?.toList

/-- The fields that a reduction reads. -/
def sourcesOf (name : String) (source : List String) : List String :=
  if source = [] then [name] else source

/-- The numbers of the source fields in one output. -/
def sample (fields : Fields Json) (sources : List String) : List Binary64 :=
  sources.flatMap fun s => ((Fields.get? s fields).map numbersOf).getD []

def addSamples (schema : Fields OutputField) (fields : Fields Json)
    (samples : Fields (List Binary64)) : Fields (List Binary64) :=
  schema.foldl (fun samples p =>
    match p.2.merge with
    | .reduce _ source =>
      let seen := (Fields.get? p.1 samples).getD []
      Fields.insert p.1 (seen ++ sample fields (sourcesOf p.1 source)) samples
    | _ => samples) samples

/-- The value of one field after a further value that is not null. -/
def mergeField (schema : Fields OutputField) (merged : Fields Json) (name : String) (v : Json) :
    Fields Json :=
  match (Fields.get? name schema).map OutputField.merge with
  | some (.unionByKey key dedup max) =>
    let existing := ((Fields.get? name merged).bind Json.arr?).getD []
    Fields.insert name (.arr (UnionRule.union ⟨key, dedup, max⟩ existing v)) merged
  | some (.reduce _ _) => merged
  | _ => Fields.insert name v merged

def mergeFields (schema : Fields OutputField) (merged fields : Fields Json) : Fields Json :=
  fields.foldl (fun merged p =>
    if p.2.isNull then merged else mergeField schema merged p.1 p.2) merged

/-- Merges the output of one step. -/
def merge (schema : Fields OutputField) (a : Aggregation) : Json → Aggregation
  | .obj fields => ⟨mergeFields schema a.merged fields, addSamples schema fields a.samples⟩
  | _ => a

/-- The reduced value of a field, none when there are no numbers or the result is not finite. -/
def reduction? (a : Aggregation) (name : String) (r : Reducer) : Option Json :=
  match r.reduce? ((Fields.get? name a.samples).getD []) with
  | some (.finite x) => some (.float x)
  | _ => none

/-- The merged fields with the reductions put in. -/
def finish (schema : Fields OutputField) (a : Aggregation) : Fields Json :=
  schema.foldl (fun merged p =>
    match p.2.merge with
    | .reduce r _ =>
      match a.reduction? p.1 r with
      | some v => Fields.insert p.1 v merged
      | none => merged
    | _ => merged) a.merged

end Aggregation

def aggregate (schema : Fields OutputField) (outputs : List Json) : Fields Json :=
  (outputs.foldl (Aggregation.merge schema) .init).finish schema

end PlaybookEngine
