import PlaybookEngine.Json.Codec

namespace PlaybookEngine

inductive Condition
  | always
  /-- The caller's list of steps to skip does not hold the step. -/
  | notSkipped (step : String)
  /-- The input is there and not null. -/
  | inputPresent (field : String)
  | inputEquals (field : String) (value : Json)
  | inputIn (field : String) (values : List Json)
  /-- The input is `true`. -/
  | flag (field : String)
  | stepSucceeded (step : String)
  | stepOutputEquals (step field : String) (value : Json)
  | all (conditions : List Condition)
  | any (conditions : List Condition)
  | not (inner : Condition)

namespace Condition

def tagged (k : String) (v : Json) : Json := .obj [(k, v)]

mutual

def encode : Condition → Json
  | .always => .str "always"
  | .notSkipped s => tagged "not_skipped" (.str s)
  | .inputPresent f => tagged "input_present" (.str f)
  | .inputEquals f v => tagged "input_equals" (.obj [("field", .str f), ("value", v)])
  | .inputIn f vs => tagged "input_in" (.obj [("field", .str f), ("values", .arr vs)])
  | .flag f => tagged "flag" (.str f)
  | .stepSucceeded s => tagged "step_succeeded" (.str s)
  | .stepOutputEquals s f v =>
    tagged "step_output_equals" (.obj [("field", .str f), ("step", .str s), ("value", v)])
  | .all cs => tagged "all" (.arr (encodeList cs))
  | .any cs => tagged "any" (.arr (encodeList cs))
  | .not c => tagged "not" (encode c)

def encodeList : List Condition → List Json
  | [] => []
  | c :: cs => encode c :: encodeList cs

end

/-- A condition that holds no further conditions. -/
def decodeLeaf (k : String) (v : Json) : Option Condition :=
  match k with
  | "always" => if v.isNull then some .always else none
  | "not_skipped" => v.str?.map .notSkipped
  | "input_present" => v.str?.map .inputPresent
  | "flag" => v.str?.map .flag
  | "step_succeeded" => v.str?.map .stepSucceeded
  | "input_equals" => do
    let fs ← v.obj?
    some (.inputEquals (← Decoder.required "field" Decoder.string fs)
      (← Decoder.required "value" Decoder.value fs))
  | "input_in" => do
    let fs ← v.obj?
    some (.inputIn (← Decoder.required "field" Decoder.string fs)
      (← Decoder.required "values" Json.arr? fs))
  | "step_output_equals" => do
    let fs ← v.obj?
    some (.stepOutputEquals (← Decoder.required "step" Decoder.string fs)
      (← Decoder.required "field" Decoder.string fs)
      (← Decoder.required "value" Decoder.value fs))
  | _ => none

mutual

def decode : Json → Option Condition
  | .str s => if s = "always" then some .always else none
  | .obj [(k, v)] =>
    if k = "not" then (decode v).map .not
    else if k = "all" then (decodeArray v).map .all
    else if k = "any" then (decodeArray v).map .any
    else decodeLeaf k v
  | _ => none

def decodeArray : Json → Option (List Condition)
  | .arr vs => decodeList vs
  | _ => none

def decodeList : List Json → Option (List Condition)
  | [] => some []
  | v :: vs => do
    let c ← decode v
    let cs ← decodeList vs
    some (c :: cs)

end

end Condition

end PlaybookEngine
