import PlaybookEngine.Number.Binary64

namespace PlaybookEngine

namespace Toml

/-- How a table came to be. -/
inductive Origin
  /-- On the way to a table that a header opened. -/
  | implicit
  | header
  /-- On the way to a value under keys joined by points. -/
  | dotted
  /-- Written in braces, and complete. -/
  | inline
  deriving DecidableEq

end Toml

inductive Toml
  | string (s : String)
  | integer (i : Int)
  | float (x : Binary64)
  | boolean (b : Bool)
  | array (items : List Toml)
  | table (origin : Toml.Origin) (entries : List (String × Toml))

namespace Toml

/-- The entries of a table in the order of writing. -/
abbrev Entries := List (String × Toml)

def replace (k : String) (v : Toml) (es : Entries) : Entries :=
  es.map fun e => if e.1 = k then (k, v) else e

/-- Adds a value under keys joined by points; no key is set twice. -/
def assign : (keys : List String) → Toml → Entries → Option Entries
  | [], _, _ => none
  | [k], v, es => if (es.lookup k).isSome then none else some (es ++ [(k, v)])
  | k :: ks, v, es =>
    match es.lookup k with
    | none => (assign ks v []).map fun sub => es ++ [(k, .table .dotted sub)]
    | some (.table .dotted sub) =>
      (assign ks v sub).map fun sub => replace k (.table .dotted sub) es
    | some _ => none

/-- Opens the table of a header. -/
def openTable : (path : List String) → Entries → Option Entries
  | [], _ => none
  | [k], es =>
    match es.lookup k with
    | none => some (es ++ [(k, .table .header [])])
    | some (.table .implicit sub) => some (replace k (.table .header sub) es)
    | some _ => none
  | k :: ks, es =>
    match es.lookup k with
    | none => (openTable ks []).map fun sub => es ++ [(k, .table .implicit sub)]
    | some (.table .inline _) => none
    | some (.table origin sub) => (openTable ks sub).map fun sub => replace k (.table origin sub) es
    | some _ => none

/-- Adds a value inside the table that a header opened. -/
def assignUnder : (path : List String) → (keys : List String) → Toml → Entries → Option Entries
  | [], keys, v, es => assign keys v es
  | k :: ks, keys, v, es =>
    match es.lookup k with
    | some (.table origin sub) =>
      (assignUnder ks keys v sub).map fun sub => replace k (.table origin sub) es
    | _ => none

/-- A line with something on it. -/
inductive Line
  | header (path : List String)
  | assignment (keys : List String) (value : Toml)

/-- Takes in one line below the header `path`. -/
def addLine (path : List String) (es : Entries) : Line → Option (List String × Entries)
  | .header path => (openTable path es).map fun es => (path, es)
  | .assignment keys v => (assignUnder path keys v es).map fun es => (path, es)

/-- The table that lines build. -/
def build (lines : List Line) : Option Entries :=
  (lines.foldlM (fun (s : List String × Entries) line => addLine s.1 s.2 line) ([], [])).map (·.2)

end Toml

end PlaybookEngine
