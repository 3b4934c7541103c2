import PlaybookEngine.Json.Codec
import PlaybookEngine.Yaml.Node

namespace PlaybookEngine.Yaml

namespace Plain

def isNullWord (s : String) : Bool := ["null", "Null", "NULL", "~"].contains s

def bool? (s : String) : Option Bool :=
  if ["true", "True", "TRUE"].contains s then some true
  else if ["false", "False", "FALSE"].contains s then some false
  else none

def digit? (radix : Nat) (c : Char) : Option Nat :=
  (Json.Reader.hexDigit? c).filter (· < radix)

/-- Digits of a radix, at least one. -/
def natInRadix (radix : Nat) (cs : List Char) : Option Nat :=
  if cs = [] then none else cs.foldlM (fun n c => (digit? radix c).map (n * radix + ·)) 0

/-- A number of a radix that its mark announces. -/
def marked? (cs : List Char) : Option Nat :=
  match cs with
  | '0' :: 'x' :: ds => natInRadix 16 ds
  | '0' :: 'o' :: ds => natInRadix 8 ds
  | '0' :: 'b' :: ds => natInRadix 2 ds
  | _ => none

/-- Digits with a leading zero are no number. -/
def hasLeadingZero : List Char → Bool
  | '0' :: d :: ds => (d :: ds).all Char.isDigit
  | _ => false

def unsigned? (cs : List Char) : Option Nat :=
  (marked? cs).or (if hasLeadingZero cs then none else natInRadix 10 cs)

def int? (s : String) : Option Int :=
  match s.toList with
  | '-' :: cs => (unsigned? cs).map fun n => -(n : Int)
  | '+' :: cs => (unsigned? cs).map Int.ofNat
  | cs => (unsigned? cs).map Int.ofNat

def isSigned : List Char → Bool
  | '+' :: _ => true
  | '-' :: _ => true
  | _ => false

/-- A float; infinities and not-a-number have names of their own, and no other is too large. -/
def float? (s : String) : Option Binary64 :=
  let cs := s.toList
  let body := match cs with
    | '+' :: rest => rest
    | _ => cs
  if cs.head? = some '+' ∧ isSigned body then none
  else if [".inf", ".Inf", ".INF"].contains (String.ofList body) then some (.inf false)
  else if ["-.inf", "-.Inf", "-.INF"].contains s then some (.inf true)
  else if [".nan", ".NaN", ".NAN"].contains s then some .nan
  else (Binary64.read body).filter Binary64.isFinite

/-- Integers fit 64 bits; those of up to 128 bits that do not are refused, and longer ones are
floats. -/
def integer? (i : Int) : Option (Option Json) :=
  if inInt64 i || inNat64 i then some (some (.int i))
  else if -(Nat.pow 2 127 : Int) ≤ i ∧ i < Nat.pow 2 128 then some none
  else none

/-- The value of a plain scalar; none when it is an integer that does not fit. -/
def value (s : String) : Option Json :=
  if s = "" || isNullWord s then some .null
  else match bool? s with
    | some b => some (.bool b)
    | none =>
      match (int? s).bind integer? with
      | some v => v
      | none =>
        let unsignedText := if isSigned s.toList then s.toList.drop 1 else s.toList
        if hasLeadingZero unsignedText then some (.str s)
        else match float? s with
          | some x => some (.ofBinary64 x)
          | none => some (.str s)

end Plain

namespace Node

def coreTag (name : String) : String := "tag:yaml.org,2002:" ++ name

/-- The tag names a type of the application. -/
def isCustomTag (tag : Option String) : Bool := tag.any fun t => t.toList.head? == some '!'

/-- The node is written as nothing at all. -/
def isNothing : Node → Bool
  | .scalar _ .plain "" => true
  | _ => false

def text : Node → Option String
  | .scalar _ _ s => some s
  | _ => none

/-- The value of a scalar. A tag of the core schema says the type; a custom one is refused. -/
def scalarValue (tag : Option String) (style : Style) (s : String) : Option Json :=
  match tag with
  | none => if style = .plain then Plain.value s else some (.str s)
  | some t =>
    if isCustomTag (some t) then none
    else if t = coreTag "bool" then (Plain.bool? s).map .bool
    else if t = coreTag "int" then ((Plain.int? s).bind Plain.integer?).bind id
    else if t = coreTag "float" then (Plain.float? s).map Json.ofBinary64
    else if t = coreTag "null" then if Plain.isNullWord s then some .null else none
    else some (.str s)

mutual

/-- A free value. Of keys written twice the last one counts. -/
def value : Node → Option Json
  | .scalar tag style s => scalarValue tag style s
  | .sequence tag items => if isCustomTag tag then none else (valueItems items).map .arr
  | .mapping tag pairs => if isCustomTag tag then none else (valuePairs pairs []).map .obj

def valueItems : List Node → Option (List Json)
  | [] => some []
  | n :: ns => do
    let v ← value n
    let vs ← valueItems ns
    some (v :: vs)

def valuePairs : List (Node × Node) → Fields Json → Option (Fields Json)
  | [], out => some out
  | (k, n) :: ps, out => do
    let k ← text k
    let v ← value n
    valuePairs ps (Fields.insert k v out)

end

def bool : Node → Option Bool
  | .scalar tag style s =>
    if style = .plain || (style = .literal && tag = some (coreTag "bool")) then Plain.bool? s
    else none
  | _ => none

def optional {α : Type} (read : Node → Option α) (n : Node) : Option (Option α) :=
  match n with
  | .scalar none .plain s => if s = "" || Plain.isNullWord s then some none else (read n).map some
  | .scalar (some t) .plain s =>
    if t = coreTag "null" then if Plain.isNullWord s then some none else none
    else (read n).map some
  | _ => (read n).map some

def items? : Node → Option (List Node)
  | .sequence _ items => some items
  | n => if n.isNothing then some [] else none

def pairs? : Node → Option (List (Node × Node))
  | .mapping _ pairs => some pairs
  | n => if n.isNothing then some [] else none

def list {α : Type} (read : Node → Option α) (n : Node) : Option (List α) := do
  (← n.items?).mapM read

/-- The pairs of a map with their keys as text. -/
def entries (n : Node) : Option (List (String × Node)) := do
  (← n.pairs?).mapM fun p => p.1.text.map (·, p.2)

/-- A map; of keys written twice the last one counts. -/
def fields {α : Type} (read : Node → Option α) (n : Node) : Option (Fields α) := do
  let pairs ← (← n.entries).mapM fun p => (read p.2).map (p.1, ·)
  some (Fields.ofList pairs)

/-- A record: known keys are written once each. Unknown ones are refused when `strict`. -/
def record (strict : Bool) (known : List String) (n : Node) : Option (Fields Node) := do
  let es ← n.entries
  let ours := es.filter fun p => known.contains p.1
  let once := decide (ours.map (·.1)).Nodup
  if once && (!strict || ours.length == es.length) then some (Fields.ofList ours) else none

/-- A name of a choice: a scalar that reads as text. -/
def name (n : Node) : Option String := (n.value).bind Json.str?

def named {α : Type} [Named α] (n : Node) : Option α := n.name.bind Named.ofText?

/-- A mapping with one key, which names the variant of a choice. -/
def variant? : Node → Option (String × Node)
  | .mapping tag [(k, v)] => if isCustomTag tag then none else k.text.map (·, v)
  | _ => none

def required {α : Type} (k : String) (read : Node → Option α) (fs : Fields Node) : Option α :=
  (Fields.get? k fs).bind read

def defaulted {α : Type} (k : String) (a : α) (read : Node → Option α) (fs : Fields Node) :
    Option α :=
  match Fields.get? k fs with
  | none => some a
  | some n => read n

def optionalField {α : Type} (k : String) (read : Node → Option α) (fs : Fields Node) :
    Option (Option α) :=
  defaulted k none (optional read) fs

end Node

end PlaybookEngine.Yaml
