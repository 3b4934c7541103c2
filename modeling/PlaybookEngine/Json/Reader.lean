import PlaybookEngine.Json.Basic
import PlaybookEngine.Number.Decimal

namespace PlaybookEngine.Json.Reader

def skipBlanks : List Char → List Char :=
  List.dropWhile fun c => c = ' ' || c = '\n' || c = '\t' || c = '\r'

/-- The significand of a float numeral while digits are read; digits that do not fit 64 bits are
dropped, and `full` says that one was. -/
structure Significand where
  value : Nat
  exponent : Int
  full : Bool

def Significand.wholeDigit (s : Significand) (c : Char) : Significand :=
  let next := s.value * 10 + (c.toNat - '0'.toNat)
  if s.full || 0x1_0000_0000_0000_0000 ≤ next then
    { s with exponent := s.exponent + 1, full := true }
  else { s with value := next }

def Significand.fractionDigit (s : Significand) (c : Char) : Significand :=
  let next := s.value * 10 + (c.toNat - '0'.toNat)
  if s.full || 0x1_0000_0000_0000_0000 ≤ next then { s with full := true }
  else { s with value := next, exponent := s.exponent - 1 }

/-- The power of ten nearest to `10 ^ n`. -/
def powerOfTen (n : Nat) : Binary64 := Binary64.ofDecimal false 1 n

/-- `x * 10 ^ e`, where an exponent below -308 takes two divisions. None when too large. -/
def scale (x : Binary64) (e : Int) : Option Binary64.Finite :=
  let y :=
    if 308 < e then x.mul (.inf false)
    else if 0 ≤ e then x.mul (powerOfTen e.toNat)
    else if -308 ≤ e then x.div (powerOfTen (-e).toNat)
    else if -616 ≤ e then (x.div (powerOfTen 308)).div (powerOfTen (-e - 308).toNat)
    else .zero
  match y with
  | .finite z => some z
  | _ => if x = .zero then some (.zero false) else none

/-- The digits that are kept are rounded and then scaled, so a long numeral may miss the nearest
float by its last bit. -/
def float (neg : Bool) (n : Numeral) : Option Json :=
  let s := n.whole.foldl Significand.wholeDigit ⟨0, 0, false⟩
  let s := n.fraction.foldl Significand.fractionDigit { s with full := false }
  (scale (.ofNat s.value) (s.exponent + n.exponent)).map fun x =>
    .float (if neg then x.negate else x)

def number (cs : List Char) : Option (Json × List Char) := do
  let (neg, cs) := match cs with
    | '-' :: cs => (true, cs)
    | cs => (false, cs)
  let (n, rest) ← Numeral.scan cs
  if n.whole = [] ∨ (n.pointed ∧ n.fraction = []) then none
  else if n.whole.head? = some '0' ∧ n.whole.length ≠ 1 then none
  else
    let i : Int := digitsValue n.whole
    if n.pointed || n.scaled then (float neg n).map (·, rest)
    else if neg then
      if i ≠ 0 ∧ inInt64 (-i) then some (.int (-i), rest) else (float neg n).map (·, rest)
    else if inNat64 i then some (.int i, rest)
    else (float neg n).map (·, rest)

def hexDigit? (c : Char) : Option Nat :=
  if c.isDigit then some (c.toNat - '0'.toNat)
  else if 'a' ≤ c ∧ c ≤ 'f' then some (c.toNat - 'a'.toNat + 10)
  else if 'A' ≤ c ∧ c ≤ 'F' then some (c.toNat - 'A'.toNat + 10)
  else none

/-- Four hexadecimal digits. -/
def hexUnit : List Char → Option (Nat × List Char)
  | a :: b :: c :: d :: rest => do
    let a ← hexDigit? a
    let b ← hexDigit? b
    let c ← hexDigit? c
    let d ← hexDigit? d
    some (((a * 16 + b) * 16 + c) * 16 + d, rest)
  | _ => none

/-- The character after `\u`: one unit, or a high and a low surrogate. -/
def unicodeEscape (cs : List Char) : Option (Char × List Char) := do
  let (u, rest) ← hexUnit cs
  if 0xD800 ≤ u ∧ u < 0xDC00 then
    match rest with
    | '\\' :: 'u' :: rest => do
      let (v, rest) ← hexUnit rest
      if 0xDC00 ≤ v ∧ v < 0xE000 then
        some (Char.ofNat (0x10000 + (u - 0xD800) * 0x400 + (v - 0xDC00)), rest)
      else none
    | _ => none
  else if 0xDC00 ≤ u ∧ u < 0xE000 then none
  else some (Char.ofNat u, rest)

def simpleEscape : Char → Option Char
  | '"' => some '"'
  | '\\' => some '\\'
  | '/' => some '/'
  | 'b' => some '\x08'
  | 'f' => some '\x0c'
  | 'n' => some '\n'
  | 'r' => some '\r'
  | 't' => some '\t'
  | _ => none

/-- The rest of a string after its opening quote; `out` holds the characters read so far, last
first. -/
def string : (fuel : Nat) → List Char → (out : List Char) → Option (String × List Char)
  | 0, _, _ => none
  | fuel + 1, cs, out =>
    match cs with
    | [] => none
    | '"' :: rest => some (String.ofList out.reverse, rest)
    | '\\' :: 'u' :: rest => do
      let (c, rest) ← unicodeEscape rest
      string fuel rest (c :: out)
    | '\\' :: e :: rest => do
      let c ← simpleEscape e
      string fuel rest (c :: out)
    | c :: rest => if c.toNat < 0x20 || c = '\\' then none else string fuel rest (c :: out)

/-- What follows a keyword at the start of a text. -/
def keyword : (word cs : List Char) → Option (List Char)
  | [], cs => some cs
  | w :: ws, c :: cs => if w = c then keyword ws cs else none
  | _ :: _, [] => none

mutual

/-- A value at the start of a text. `fuel` bounds the steps and `depth` the levels left. -/
def value : (fuel depth : Nat) → List Char → Option (Json × List Char)
  | 0, _, _ => none
  | fuel + 1, depth, cs =>
    match skipBlanks cs with
    | 'n' :: rest => (keyword "ull".toList rest).map (Json.null, ·)
    | 't' :: rest => (keyword "rue".toList rest).map (Json.bool true, ·)
    | 'f' :: rest => (keyword "alse".toList rest).map (Json.bool false, ·)
    | '"' :: rest => (string (rest.length + 1) rest []).map fun (s, rest) => (.str s, rest)
    | '[' :: rest =>
      if depth = 0 then none
      else match skipBlanks rest with
        | ']' :: rest => some (.arr [], rest)
        | rest => items fuel (depth - 1) rest []
    | '\x7b' :: rest =>
      if depth = 0 then none
      else match skipBlanks rest with
        | '\x7d' :: rest => some (.obj [], rest)
        | rest => fields fuel (depth - 1) rest []
    | rest => number rest

/-- The elements of an array up to its bracket. -/
def items : (fuel depth : Nat) → List Char → List Json → Option (Json × List Char)
  | 0, _, _, _ => none
  | fuel + 1, depth, cs, out => do
    let (v, rest) ← value fuel depth cs
    match skipBlanks rest with
    | ',' :: rest => items fuel depth rest (v :: out)
    | ']' :: rest => some (.arr (v :: out).reverse, rest)
    | _ => none

/-- The fields of an object up to its brace. -/
def fields : (fuel depth : Nat) → List Char → Fields Json → Option (Json × List Char)
  | 0, _, _, _ => none
  | fuel + 1, depth, cs, out => do
    match skipBlanks cs with
    | '"' :: rest =>
      let (k, rest) ← string (rest.length + 1) rest []
      match skipBlanks rest with
      | ':' :: rest =>
        let (v, rest) ← value fuel depth rest
        match skipBlanks rest with
        | ',' :: rest => fields fuel depth rest (Fields.insert k v out)
        | '\x7d' :: rest => some (.obj (Fields.insert k v out), rest)
        | _ => none
      | _ => none
    | _ => none

end

end Reader

/-- The value that a whole text holds. -/
def read (text : String) : Option Json :=
  let cs := text.toList
  match Reader.value (2 * cs.length + 2) 127 cs with
  | some (v, rest) => if Reader.skipBlanks rest = [] then some v else none
  | none => none

end PlaybookEngine.Json
