import PlaybookEngine.Json.Printer
import PlaybookEngine.Playbook.Basic
import PlaybookEngine.Workflow.Execution

namespace PlaybookEngine

namespace Template

/-- What a placeholder refers to: an input or the output of a step, or one field of it. -/
structure Reference where
  /-- The reference is to an input, not to a step. -/
  toInput : Bool
  name : String
  field : Option String
  deriving DecidableEq

inductive Segment
  | text (c : Char)
  | hole (r : Reference)
  deriving DecidableEq

def isNameChar (c : Char) : Bool := c.isAlphanum || c = '_' || c = '-'

def isFieldChar (c : Char) : Bool := isNameChar c || c = '@'

/-- The source of a reference and the point after it. -/
def source? (cs : List Char) : Option (Bool × List Char) :=
  match Text.after? "inputs.".toList cs with
  | some rest => some (true, rest)
  | none => (Text.after? "steps.".toList cs).map (false, ·)

/-- The field of a reference, when a point stands before it. -/
def field? : List Char → Option (Option String × List Char)
  | '.' :: cs =>
    let name := cs.takeWhile isFieldChar
    if name = [] then none else some (some (String.ofList name), cs.dropWhile isFieldChar)
  | cs => some (none, cs)

/-- The placeholder at the start of a text and what follows it. -/
def hole? (cs : List Char) : Option (Reference × List Char) := do
  let cs ← Text.after? ['\x7b', '\x7b'] cs
  let (toInput, cs) ← source? (Text.trimStart cs)
  let name := cs.takeWhile isNameChar
  if name = [] then none
  let (field, cs) ← field? (cs.dropWhile isNameChar)
  let rest ← Text.after? ['\x7d', '\x7d'] (Text.trimStart cs)
  some (⟨toInput, String.ofList name, field⟩, rest)

/-- Cuts a text; `skip` characters at its start belong to the placeholder before. -/
def segmentsFrom : (skip : Nat) → List Char → List Segment
  | _, [] => []
  | skip + 1, _ :: cs => segmentsFrom skip cs
  | 0, c :: cs =>
    match hole? (c :: cs) with
    | some (r, rest) => .hole r :: segmentsFrom (cs.length - rest.length) cs
    | none => .text c :: segmentsFrom 0 cs

def segments (text : String) : List Segment := segmentsFrom 0 text.toList

/-- The value that a reference stands for. -/
def Reference.value? (r : Reference) (e : Execution) : Option Json :=
  let base :=
    if r.toInput then Fields.get? r.name e.inputs else (e.result? r.name).bind (·.output)
  match r.field with
  | none => base
  | some field => base.bind (Json.get? field)

/-- A value inside a text: a text as it is, nothing for null, compact JSON else. -/
def spliced : Option Json → String
  | none => ""
  | some .null => ""
  | some (.str s) => s
  | some v => v.compact

def Segment.render (e : Execution) : Segment → String
  | .text c => c.toString
  | .hole r => spliced (r.value? e)

/-- A text that is one placeholder keeps the type of the value; blanks around it do not count. -/
def renderText (e : Execution) (text : String) : Json :=
  match segments (Text.trimmed text) with
  | [.hole r] => Json.ofOption (r.value? e)
  | _ => .str ((segments text).foldl (fun out s => out ++ s.render e) "")

mutual

def render (e : Execution) : Json → Json
  | .str s => renderText e s
  | .arr items => .arr (renderItems e items)
  | .obj fields => .obj (renderFields e fields)
  | v => v

def renderItems (e : Execution) : List Json → List Json
  | [] => []
  | v :: vs => render e v :: renderItems e vs

def renderFields (e : Execution) : List (String × Json) → List (String × Json)
  | [] => []
  | (k, v) :: fs => (k, render e v) :: renderFields e fs

end

end Template

/-- The parameters of a step: the inputs, overlaid by the rendered parameters. -/
def Step.renderedParams (s : Step) (e : Execution) : Fields Json :=
  Fields.overlay e.inputs (Template.renderFields e s.params)

end PlaybookEngine
