import PlaybookEngine.Binding.Pattern
import PlaybookEngine.Json.Printer
import PlaybookEngine.Playbook.Basic

namespace PlaybookEngine.Param

/-- A number or a truth value as text. -/
def toText? : Json → Option Json
  | .str s => some (.str s)
  | .int i => some (.str (Json.compact (.int i)))
  | .float x => some (.str (Json.compact (.float x)))
  | .bool b => some (.str (Json.compact (.bool b)))
  | _ => none

/-- An integer, a float without a fraction, or the text of an integer. -/
def toInteger? : Json → Option Json
  | .int i => some (.int i)
  | .float x =>
    let limit := 0x8000_0000_0000_0000
    if x.isIntegral then some (.int (Binary64.truncateClamped (-limit) (limit - 1) (.finite x)))
    else none
  | .str s =>
    match readInt (Text.trim s.toList) with
    | some i => if inInt64 i then some (.int i) else none
    | none => none
  | _ => none

/-- A number or the text of a finite one. -/
def toNumber? : Json → Option Json
  | .int i => some (.int i)
  | .float x => some (.float x)
  | .str s =>
    match Binary64.read (Text.trim s.toList) with
    | some (.finite x) => some (.float x)
    | _ => none
  | _ => none

def toBoolean? : Json → Option Json
  | .bool b => some (.bool b)
  | .str s =>
    if Text.lowerAscii s = "true" then some (.bool true)
    else if Text.lowerAscii s = "false" then some (.bool false)
    else none
  | _ => none

/-- A value that is neither an array nor an object becomes the only element. -/
def toArray? : Json → Option Json
  | .arr items => some (.arr items)
  | .obj _ => none
  | v => some (.arr [v])

def coerce? (p : Param) (v : Json) : Option Json :=
  match p.type with
  | .string => toText? v
  | .integer => toInteger? v
  | .number => toNumber? v
  | .boolean => toBoolean? v
  | .array => toArray? v
  | .object => v.obj?.map .obj
  | .contentSource => v.str?.bind fun s => (ContentSource.ofText? s).map fun _ => .str s
  | .enumeration => v.str?.bind fun s => if p.values.contains s then some (.str s) else none

/-- Why the value is not of the declared type. -/
def mismatch (p : Param) (v : Json) : String :=
  match p.type, v with
  | .contentSource, .str s => ContentSource.fault s
  | .enumeration, .str s => notOneOf s p.values
  | _, _ => "expected " ++ Named.text p.type ++ ", got " ++ v.compact

def coerce (name : String) (p : Param) (v : Json) : Except BindingError Json :=
  match p.coerce? v with
  | some w => .ok w
  | none => .error (.invalidValue name (p.mismatch v))

theorem coerce_eq_ok {name : String} {p : Param} {v w : Json} :
    p.coerce name v = .ok w ↔ p.coerce? v = some w := by
  unfold coerce
  split <;> simp_all

end PlaybookEngine.Param
