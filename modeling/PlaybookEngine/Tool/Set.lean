import PlaybookEngine.Tool.Basic

namespace PlaybookEngine

/-- A scripted answer, and how long it takes. -/
structure Scripted (α : Type) where
  delay : Span
  answer : α

inductive ScriptedCall
  | error (e : ToolError)
  | dispatch (job : String)
  | output (v : Json)
  | echo

inductive ScriptedPoll
  | error (e : ToolError)
  | failed (reason : String)
  | completed (v : Json)
  | running

/-- An answer to the calls in which a parameter has a value. -/
structure ScriptRule where
  field : String
  value : Json
  answer : Scripted ScriptedCall

/-- The first rule that applies answers; else the next of the calls, of which the last repeats. -/
structure Script where
  rules : List ScriptRule
  calls : List (Scripted ScriptedCall)
  polls : List (Scripted ScriptedPoll)

inductive Tool
  | echo
  | static (output : Json)
  | script (s : Script)

/-- A tool in its place, with the name it is recorded under. -/
structure ToolSlot where
  name : String
  tool : Tool
  callsMade : Nat
  pollsMade : Nat

/-- One call that a tool received. -/
inductive ToolRecord
  | call (name : String) (params : Json)
  | poll (name job : String)

structure ToolSet where
  slots : List (ToolRef × ToolSlot)
  /-- Answers for tools that are not in the set. -/
  fallback : Option ToolSlot
  records : List ToolRecord

namespace Tool

/-- An object as it is, any other value as the only parameter. -/
def echoed : Json → Json
  | .obj fields => .obj fields
  | v => .obj [("params", v)]

end Tool

namespace Script

/-- The element in turn; the last one repeats. -/
def inTurn {α : Type} (n : Nat) (entries : List α) : Option α :=
  match entries[n]? with
  | some a => some a
  | none => entries.getLast?

def rule? (s : Script) (params : Json) : Option (Scripted ScriptedCall) :=
  (s.rules.find? fun r => (params.get? r.field).elim false (· == r.value)).map (·.answer)

end Script

namespace ScriptedCall

def response (params : Json) : ScriptedCall → Except ToolError ToolResponse
  | .error e => .error e
  | .dispatch job => .ok (.dispatched job)
  | .output v => .ok (.completed v)
  | .echo => .ok (.completed (Tool.echoed params))

end ScriptedCall

namespace ScriptedPoll

def response : ScriptedPoll → Except ToolError JobState
  | .error e => .error e
  | .failed reason => .ok (.failed reason)
  | .completed v => .ok (.completed v)
  | .running => .ok .running

end ScriptedPoll

namespace ToolSlot

def call (slot : ToolSlot) (params : Json) :
    Scripted (Except ToolError ToolResponse) × ToolSlot :=
  match slot.tool with
  | .echo => (⟨0, .ok (.completed (Tool.echoed params))⟩, slot)
  | .static v => (⟨0, .ok (.completed v)⟩, slot)
  | .script s =>
    match s.rule? params with
    | some a => (⟨a.delay, a.answer.response params⟩, slot)
    | none =>
      let a := (Script.inTurn slot.callsMade s.calls).getD ⟨0, .echo⟩
      (⟨a.delay, a.answer.response params⟩, { slot with callsMade := slot.callsMade + 1 })

def poll (slot : ToolSlot) (job : String) : Scripted (Except ToolError JobState) × ToolSlot :=
  match slot.tool with
  | .script s =>
    match Script.inTurn slot.pollsMade s.polls with
    | some a => (⟨a.delay, a.answer.response⟩, { slot with pollsMade := slot.pollsMade + 1 })
    | none => (⟨0, .error (.unknownJob job)⟩, slot)
  | _ => (⟨0, .error (.unknownJob job)⟩, slot)

end ToolSlot

namespace ToolSet

def empty : ToolSet := ⟨[], none, []⟩

/-- Puts a tool in its place; an earlier one there goes. -/
def register (t : ToolSet) (ref : ToolRef) (slot : ToolSlot) : ToolSet :=
  { t with slots := t.slots.filter (·.1 ≠ ref) ++ [(ref, slot)] }

def contains (t : ToolSet) (ref : ToolRef) : Bool := t.slots.any (·.1 == ref)

def slot? (t : ToolSet) (ref : ToolRef) : Option ToolSlot :=
  match t.slots.lookup ref with
  | some slot => some slot
  | none => t.fallback

/-- Puts a tool back after it was used. -/
def update (t : ToolSet) (ref : ToolRef) (slot : ToolSlot) (record : ToolRecord) : ToolSet :=
  let records := t.records ++ [record]
  if t.contains ref then
    { t with
      slots := t.slots.map fun p => if p.1 = ref then (p.1, slot) else p
      records := records }
  else { t with fallback := some slot, records := records }

def call (t : ToolSet) (ref : ToolRef) (params : Json) :
    Scripted (Except ToolError ToolResponse) × ToolSet :=
  match t.slot? ref with
  | none => (⟨0, .error (.notRegistered ref.text)⟩, t)
  | some slot =>
    let (a, slot') := slot.call params
    (a, t.update ref slot' (.call slot.name params))

def poll (t : ToolSet) (ref : ToolRef) (job : String) :
    Scripted (Except ToolError JobState) × ToolSet :=
  match t.slot? ref with
  | none => (⟨0, .error (.notRegistered ref.text)⟩, t)
  | some slot =>
    let (a, slot') := slot.poll job
    (a, t.update ref slot' (.poll slot.name job))

end ToolSet

end PlaybookEngine
