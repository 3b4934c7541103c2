import PlaybookEngine.Engine.Identifier
import PlaybookEngine.Json.Basic

namespace PlaybookEngine

/-- The identifiers that were met, in order. -/
structure Numbering where
  met : List String

namespace Numbering

def init : Numbering := ⟨[]⟩

/-- The number of an identifier, counted from one. -/
def number (s : Numbering) (id : String) : Nat × Numbering :=
  match s.met.idxOf? id with
  | some i => (i + 1, s)
  | none => (s.met.length + 1, ⟨s.met ++ [id]⟩)

/-- An identifier keeps its number. -/
theorem number_number (s : Numbering) (id : String) :
    (s.number id).2.number id = s.number id := by
  cases h : s.met.idxOf? id with
  | some i => simp [number, h]
  | none =>
    have next : (s.met ++ [id]).idxOf? id = some s.met.length := by
      have : s.met.findIdx? (· == id) = none := h
      simp [List.idxOf?, List.findIdx?_append, this]
    simp [number, h, next]

/-- A text after `skip` characters, with the name of its number for each identifier. -/
def characters (name : Nat → String) : (skip : Nat) → List Char → Numbering → List Char × Numbering
  | _, [], s => ([], s)
  | skip + 1, _ :: cs, s => characters name skip cs s
  | 0, c :: cs, s =>
    match Identifier.at? (c :: cs) with
    | some (id, _) =>
      let (n, s) := s.number id
      let (rest, s) := characters name (id.length - 1) cs s
      ((name n).toList ++ rest, s)
    | none =>
      let (rest, s) := characters name 0 cs s
      (c :: rest, s)

def text (name : Nat → String) (t : String) (s : Numbering) : String × Numbering :=
  let (cs, s) := characters name 0 t.toList s
  (String.ofList cs, s)

mutual

/-- A value, its texts and keys in the order in which they stand. -/
def value (name : Nat → String) : Json → Numbering → Json × Numbering
  | .str t, s =>
    let (t, s) := text name t s
    (.str t, s)
  | .arr vs, s =>
    let (vs, s) := items name vs s
    (.arr vs, s)
  | .obj fs, s =>
    let (fs, s) := fields name fs s
    (.obj fs, s)
  | v, s => (v, s)

def items (name : Nat → String) : List Json → Numbering → List Json × Numbering
  | [], s => ([], s)
  | v :: vs, s =>
    let (v, s) := value name v s
    let (vs, s) := items name vs s
    (v :: vs, s)

def fields (name : Nat → String) :
    List (String × Json) → Numbering → List (String × Json) × Numbering
  | [], s => ([], s)
  | (k, v) :: fs, s =>
    let (k, s) := text name k s
    let (v, s) := value name v s
    let (fs, s) := fields name fs s
    ((k, v) :: fs, s)

end

end Numbering

end PlaybookEngine
