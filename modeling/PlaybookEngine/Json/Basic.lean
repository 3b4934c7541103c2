import PlaybookEngine.Fields
import PlaybookEngine.Number.Binary64

namespace PlaybookEngine

/-- Integers and floats are two kinds of number, and objects hold their keys in increasing order. -/
inductive Json
  | null
  | bool (b : Bool)
  | int (i : Int)
  | float (x : Binary64.Finite)
  | str (s : String)
  | arr (items : List Json)
  | obj (fields : List (String × Json))

namespace Json

instance : Inhabited Json := ⟨.null⟩

mutual

/-- Equality of values. -/
def beq : Json → Json → Bool
  | .null, .null => true
  | .bool a, .bool b => a == b
  | .int a, .int b => a == b
  | .float a, .float b => a == b
  | .str a, .str b => a == b
  | .arr a, .arr b => beqItems a b
  | .obj a, .obj b => beqFields a b
  | _, _ => false

def beqItems : List Json → List Json → Bool
  | [], [] => true
  | a :: as, b :: bs => beq a b && beqItems as bs
  | _, _ => false

def beqFields : List (String × Json) → List (String × Json) → Bool
  | [], [] => true
  | (k, a) :: as, (j, b) :: bs => k == j && beq a b && beqFields as bs
  | _, _ => false

end

instance : BEq Json := ⟨beq⟩

def isNull : Json → Bool
  | .null => true
  | _ => false

def str? : Json → Option String
  | .str s => some s
  | _ => none

def bool? : Json → Option Bool
  | .bool b => some b
  | _ => none

def arr? : Json → Option (List Json)
  | .arr items => some items
  | _ => none

def obj? : Json → Option (Fields Json)
  | .obj fields => some fields
  | _ => none

/-- The number a value holds, integers rounded to binary64. -/
def number? : Json → Option Binary64
  | .int i => some (.ofInt i)
  | .float x => some (.finite x)
  | _ => none

/-- The value of a key; none in anything but an object. -/
def get? (k : String) : Json → Option Json
  | .obj fields => Fields.get? k fields
  | _ => none

/-- A number as a JSON value; what is not finite becomes null. -/
def ofBinary64 : Binary64 → Json
  | .finite x => .float x
  | _ => .null

def ofObject (pairs : List (String × Json)) : Json := .obj (Fields.ofList pairs)

/-- The value, or null for none. -/
def ofOption : Option Json → Json := (·.getD .null)

def strings (ss : List String) : Json := .arr (ss.map .str)

/-- The elements of an array, or a value that is no array as the only element. -/
def elements : Json → List Json
  | .arr items => items
  | v => [v]

mutual

theorem beq_refl : (v : Json) → beq v v = true
  | .null => rfl
  | .bool _ => by simp [beq]
  | .int _ => by simp [beq]
  | .float x => by rw [beq, Binary64.Finite.beq_iff]
  | .str _ => by simp [beq]
  | .arr items => by rw [beq]; exact beqItems_refl items
  | .obj fields => by rw [beq]; exact beqFields_refl fields

theorem beqItems_refl : (vs : List Json) → beqItems vs vs = true
  | [] => rfl
  | v :: vs => by simp [beqItems, beq_refl v, beqItems_refl vs]

theorem beqFields_refl : (fs : List (String × Json)) → beqFields fs fs = true
  | [] => rfl
  | (k, v) :: fs => by simp [beqFields, beq_refl v, beqFields_refl fs]

end

@[simp] theorem beq_self (v : Json) : (v == v) = true := beq_refl v

@[simp] theorem isNull_iff (v : Json) : v.isNull = true ↔ v = .null := by
  cases v <;> simp [isNull]

end Json

end PlaybookEngine
