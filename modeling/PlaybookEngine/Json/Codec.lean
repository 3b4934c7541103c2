import PlaybookEngine.Json.Basic
import PlaybookEngine.Number.Decimal

namespace PlaybookEngine

/-- A closed choice of names, each written as one text. -/
class Named (α : Type) where
  all : List α
  text : α → String

namespace Named

variable {α : Type} [Named α]

def ofText? (s : String) : Option α := (all (α := α)).find? fun a => text a == s

theorem text_of_ofText? {s : String} {a : α} (h : ofText? s = some a) : text a = s := by
  have := List.find?_some h
  simpa using this

end Named

abbrev Decoder (α : Type) := Json → Option α

namespace Decoder

variable {α : Type}

def value : Decoder Json := some

def string : Decoder String := Json.str?

def bool : Decoder Bool := Json.bool?

/-- A natural number below a limit. -/
def natBelow (limit : Nat) : Decoder Nat
  | .int i => if 0 ≤ i ∧ i < limit then some i.toNat else none
  | _ => none

def nat32 : Decoder Nat := natBelow 0x1_0000_0000

def nat64 : Decoder Nat := natBelow 0x1_0000_0000_0000_0000

def number : Decoder Binary64 := Json.number?

def list (d : Decoder α) : Decoder (List α)
  | .arr items => items.mapM d
  | _ => none

def fields (d : Decoder α) : Decoder (Fields α)
  | .obj fs => fs.mapM fun p => (d p.2).map fun a => (p.1, a)
  | _ => none

def object : Decoder (Fields Json) := Json.obj?

/-- The fields of a record: those of an object, or a list of the values of `keys` in their order,
which may end after the first `needed` of them. -/
def record (needed : Nat) (keys : List String) : Decoder (Fields Json)
  | .obj fs => some fs
  | .arr vs => if needed ≤ vs.length ∧ vs.length ≤ keys.length then some (keys.zip vs) else none
  | _ => none

@[simp] theorem record_obj (needed : Nat) (keys : List String) (fs : Fields Json) :
    record needed keys (.obj fs) = some fs := rfl

/-- The fields of a record that has no others than `keys`. -/
def closedRecord (needed : Nat) (keys : List String) : Decoder (Fields Json) := fun v => do
  let fs ← record needed keys v
  if fs.all fun p => keys.contains p.1 then some fs else none

/-- A name, or an object with the name as its only key and null as the value. -/
def name : Decoder String
  | .str s => some s
  | .obj [(k, .null)] => some k
  | _ => none

def named [Named α] : Decoder α := fun v => (name v).bind Named.ofText?

/-- A text, read further. -/
def stringWith (read : String → Option α) : Decoder α := fun v => (string v).bind read

def required (k : String) (d : Decoder α) (fs : Fields Json) : Option α :=
  (Fields.get? k fs).bind d

/-- A field that may be absent or null. -/
def optional (k : String) (d : Decoder α) (fs : Fields Json) : Option (Option α) :=
  match Fields.get? k fs with
  | none => some none
  | some .null => some none
  | some v => (d v).map some

def defaulted (k : String) (a : α) (d : Decoder α) (fs : Fields Json) : Option α :=
  match Fields.get? k fs with
  | none => some a
  | some v => d v

end Decoder

namespace Json

/-- A field that is always written. -/
def entry (k : String) (v : Json) : List (String × Json) := [(k, v)]

/-- A field that is left out when there is no value. -/
def entry? (k : String) : Option Json → List (String × Json)
  | some v => [(k, v)]
  | none => []

/-- A list that is left out when it is empty. -/
def entryList (k : String) : List Json → List (String × Json)
  | [] => []
  | v :: vs => [(k, .arr (v :: vs))]

def named {α : Type} [Named α] (a : α) : Json := .str (Named.text a)

def nat (n : Nat) : Json := .int n

end Json

end PlaybookEngine
