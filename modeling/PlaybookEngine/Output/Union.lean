import PlaybookEngine.Json.Basic

namespace PlaybookEngine

/-- The identity field, the list fields that are united without repetition, and the field that
keeps its largest number. -/
structure UnionRule where
  key : String
  dedup : List String
  max : Option String

namespace UnionRule

/-- Appends the values that are not there yet. -/
def addMissing (items values : List Json) : List Json :=
  values.foldl (fun items v => if items.contains v then items else items ++ [v]) items

/-- The second value when it is the larger number, else the first. -/
def larger (a b : Json) : Json :=
  match a.number?, b.number? with
  | some x, some y => if x.lt y then b else a
  | _, _ => a

/-- The value of a field that both entries have. -/
def mergeValue (r : UnionRule) (field : String) (current incoming : Json) : Json :=
  match current with
  | .null => incoming
  | .arr items =>
    if r.dedup.contains field then .arr (addMissing items incoming.elements) else .arr items
  | v => if r.max = some field then larger v incoming else v

/-- Merges one field into an entry. -/
def mergeField (r : UnionRule) (target : Fields Json) (field : String) (v : Json) : Fields Json :=
  match Fields.get? field target with
  | some current => Fields.insert field (r.mergeValue field current v) target
  | none => Fields.insert field v target

def mergeFields (r : UnionRule) (target incoming : Fields Json) : Fields Json :=
  incoming.foldl (fun target p => r.mergeField target p.1 p.2) target

/-- What identifies an entry; null does not. -/
def identity? (r : UnionRule) (entry : Json) : Option Json :=
  (entry.get? r.key).filter fun id => !id.isNull

/-- The entry carries this identity. -/
def hasIdentity (r : UnionRule) (id entry : Json) : Bool :=
  match entry.get? r.key with
  | some j => j == id
  | none => false

def mergeEntry (r : UnionRule) (target entry : Json) : Json :=
  match target, entry with
  | .obj t, .obj e => .obj (r.mergeFields t e)
  | t, _ => t

/-- Merges an entry into the first one that carries its identity. -/
def mergeFirst (r : UnionRule) (id entry : Json) : List Json → List Json
  | [] => []
  | t :: ts =>
    if r.hasIdentity id t then r.mergeEntry t entry :: ts else t :: mergeFirst r id entry ts

def addEntry (r : UnionRule) (existing : List Json) (entry : Json) : List Json :=
  match r.identity? entry with
  | some id =>
    if existing.any (r.hasIdentity id) then r.mergeFirst id entry existing
    else addMissing existing [entry]
  | none => addMissing existing [entry]

/-- The union of a list with one entry or a list of them. -/
def union (r : UnionRule) (existing : List Json) (incoming : Json) : List Json :=
  incoming.elements.foldl r.addEntry existing

end UnionRule

end PlaybookEngine
