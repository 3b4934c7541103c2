import PlaybookEngine.Json.Reader
import PlaybookEngine.Number.Decimal
import PlaybookEngine.Text.Parts
import PlaybookEngine.Toml.Basic

namespace PlaybookEngine.Toml

namespace Reader

abbrev Chars := List Char

def isGap (c : Char) : Bool := c = ' ' || c = '\t'

def skipGap (cs : Chars) : Chars := cs.dropWhile isGap

/-- A character that may stand as it is: no control character but the tab. -/
def isPlain (c : Char) : Bool := c = '\t' || (0x20 ≤ c.toNat && c.toNat ≠ 0x7f)

def newline? : Chars → Option Chars
  | '\n' :: cs => some cs
  | '\r' :: '\n' :: cs => some cs
  | _ => none

def skipComment : Chars → Chars
  | '#' :: cs => cs.dropWhile isPlain
  | cs => cs

def lineEnd? (cs : Chars) : Option Chars :=
  match skipComment (skipGap cs) with
  | [] => some []
  | cs => newline? cs

def skipLines : (fuel : Nat) → Chars → Chars
  | 0, cs => cs
  | fuel + 1, cs =>
    let cs := skipComment (skipGap cs)
    match newline? cs with
    | some rest => skipLines fuel rest
    | none => cs

def codePoint? (width : Nat) (cs : Chars) : Option (Char × Chars) := do
  if cs.length < width then none
  let ds ← (cs.take width).mapM Json.Reader.hexDigit?
  let n := ds.foldl (fun n d => n * 16 + d) 0
  if n.isValidChar then some (Char.ofNat n, cs.drop width) else none

/-- The character that an escape stands for; the backslash has been read. -/
def escape? : Chars → Option (Char × Chars)
  | 'b' :: cs => some ('\x08', cs)
  | 't' :: cs => some ('\t', cs)
  | 'n' :: cs => some ('\n', cs)
  | 'f' :: cs => some ('\x0c', cs)
  | 'r' :: cs => some ('\r', cs)
  | '"' :: cs => some ('"', cs)
  | '\\' :: cs => some ('\\', cs)
  | 'u' :: cs => codePoint? 4 cs
  | 'U' :: cs => codePoint? 8 cs
  | _ => none

def prepend (c : Char) : Option (Chars × Chars) → Option (Chars × Chars) :=
  Option.map fun r => (c :: r.1, r.2)

def basic : (fuel : Nat) → Chars → Option (Chars × Chars)
  | 0, _ => none
  | fuel + 1, cs =>
    match cs with
    | '"' :: cs => some ([], cs)
    | '\\' :: cs => do
      let (c, cs) ← escape? cs
      prepend c (basic fuel cs)
    | c :: cs => if isPlain c then prepend c (basic fuel cs) else none
    | [] => none

def literal : Chars → Option (Chars × Chars)
  | '\'' :: cs => some ([], cs)
  | c :: cs => if isPlain c then prepend c (literal cs) else none
  | [] => none

/-- Up to two quotes may stand before the three that close a text. -/
def closing? (quote : Char) (cs : Chars) : Option (Chars × Chars) :=
  let run := (cs.takeWhile (· = quote)).length
  if run < 3 then none
  else
    let n := min run 5
    some (List.replicate (n - 3) quote, cs.drop n)

/-- A backslash at the end of a line joins it with the next text. -/
def joined? (cs : Chars) : Option Chars :=
  (newline? (skipGap cs)).map fun rest => rest.dropWhile fun c => isGap c || c = '\n' || c = '\r'

/-- The rest of a text between three double quotes. -/
def multiBasic : (fuel : Nat) → Chars → Option (Chars × Chars)
  | 0, _ => none
  | fuel + 1, cs =>
    match closing? '"' cs with
    | some r => some r
    | none =>
      match newline? cs with
      | some cs => prepend '\n' (multiBasic fuel cs)
      | none =>
        match cs with
        | '\\' :: cs =>
          match joined? cs with
          | some cs => multiBasic fuel cs
          | none => do
            let (c, cs) ← escape? cs
            prepend c (multiBasic fuel cs)
        | c :: cs => if isPlain c then prepend c (multiBasic fuel cs) else none
        | [] => none

def multiLiteral : (fuel : Nat) → Chars → Option (Chars × Chars)
  | 0, _ => none
  | fuel + 1, cs =>
    match closing? '\'' cs with
    | some r => some r
    | none =>
      match newline? cs with
      | some cs => prepend '\n' (multiLiteral fuel cs)
      | none =>
        match cs with
        | c :: cs => if isPlain c then prepend c (multiLiteral fuel cs) else none
        | [] => none

/-- A line end right after the opening quotes does not count. -/
def afterOpening (cs : Chars) : Chars := (newline? cs).getD cs

def text? (cs : Chars) : Option (String × Chars) :=
  let fuel := cs.length + 1
  let r := match cs with
    | '"' :: '"' :: '"' :: cs => multiBasic fuel (afterOpening cs)
    | '\'' :: '\'' :: '\'' :: cs => multiLiteral fuel (afterOpening cs)
    | '"' :: cs => basic fuel cs
    | '\'' :: cs => literal cs
    | _ => none
  r.map fun r => (String.ofList r.1, r.2)

def isBare (c : Char) : Bool := c.isAlphanum || c = '_' || c = '-'

def simpleKey? (cs : Chars) : Option (String × Chars) :=
  match cs with
  | '"' :: rest => (basic (cs.length + 1) rest).map fun r => (String.ofList r.1, r.2)
  | '\'' :: rest => (literal rest).map fun r => (String.ofList r.1, r.2)
  | _ =>
    let name := cs.takeWhile isBare
    if name = [] then none else some (String.ofList name, cs.dropWhile isBare)

/-- Keys joined by points, with gaps around the points and at both ends. -/
def keys? : (fuel : Nat) → Chars → Option (List String × Chars)
  | 0, _ => none
  | fuel + 1, cs => do
    let (k, cs) ← simpleKey? (skipGap cs)
    match skipGap cs with
    | '.' :: cs => do
      let (ks, cs) ← keys? fuel cs
      some (k :: ks, cs)
    | cs => some ([k], cs)

/-- Digits without the underscores between them. -/
def digits? (isDigit : Char → Bool) (cs : Chars) : Option Chars :=
  let groups := Text.splitOn '_' cs
  if groups.all fun g => g ≠ [] && g.all isDigit then some groups.flatten else none

/-- Decimal digits that start with zero only when they are zero. -/
def whole? (cs : Chars) : Option Chars := do
  let ds ← digits? Char.isDigit cs
  match ds with
  | '0' :: _ :: _ => none
  | ds => some ds

def hexDigitValue (c : Char) : Nat := (Json.Reader.hexDigit? c).getD 0

/-- An unsigned integer with a base in front. -/
def based? : Chars → Option Nat
  | '0' :: 'x' :: cs => (digits? (fun c => (Json.Reader.hexDigit? c).isSome) cs).map (value 16)
  | '0' :: 'o' :: cs => (digits? (fun c => '0' ≤ c && c ≤ '7') cs).map (value 8)
  | '0' :: 'b' :: cs => (digits? (fun c => c = '0' || c = '1') cs).map (value 2)
  | _ => none
where
  value (base : Nat) (ds : Chars) : Nat := ds.foldl (fun n c => n * base + hexDigitValue c) 0

def split (stop : Char → Bool) (cs : Chars) : Chars × Option Chars :=
  (cs.takeWhile fun c => !stop c, ((cs.dropWhile fun c => !stop c).tail?))

def exponent? : Chars → Option Int
  | '-' :: cs => (digits? Char.isDigit cs).map fun ds => -(digitsValue ds : Int)
  | '+' :: cs => (digits? Char.isDigit cs).map fun ds => (digitsValue ds : Int)
  | cs => (digits? Char.isDigit cs).map fun ds => (digitsValue ds : Int)

/-- A number with a fraction or an exponent. -/
def float? (neg : Bool) (cs : Chars) : Option Binary64 := do
  let (body, scale) := split (fun c => c = 'e' || c = 'E') cs
  let (whole, fraction) := split (· = '.') body
  if scale.isNone && fraction.isNone then none
  let exponent ← match scale with
    | some s => exponent? s
    | none => some 0
  let fraction ← match fraction with
    | some f => digits? Char.isDigit f
    | none => some []
  let whole ← whole? whole
  let x := Binary64.ofDecimal neg (digitsValue (whole ++ fraction)) (exponent - fraction.length)
  if x = .inf false then none else some x

def signed (neg : Bool) (n : Nat) : Int := if neg then -(n : Int) else n

def word? (cs : Chars) : Option Toml := do
  match String.ofList cs with
  | "true" => some (.boolean true)
  | "false" => some (.boolean false)
  | _ =>
    let (neg, unsigned, isSigned) := match cs with
      | '-' :: cs => (true, cs, true)
      | '+' :: cs => (false, cs, true)
      | cs => (false, cs, false)
    if unsigned = "inf".toList then some (.float (.inf neg))
    else if unsigned = "nan".toList then some (.float .nan)
    else
      let n := match (whole? unsigned).map digitsValue with
        | some n => some n
        | none => if isSigned then none else based? unsigned
      match n with
      | some n => if inInt64 (signed neg n) then some (.integer (signed neg n)) else none
      | none => (float? neg unsigned).map .float

def isWordChar (c : Char) : Bool := isBare c || c = '+' || c = '.'

mutual

def value? : (fuel : Nat) → Chars → Option (Toml × Chars)
  | 0, _ => none
  | fuel + 1, cs =>
    match cs with
    | '[' :: cs => (items? fuel cs).map fun r => (.array r.1, r.2)
    | '{' :: cs =>
      match skipGap cs with
      | '}' :: cs => some (.table .inline [], cs)
      | cs => (pairs? fuel [] cs).map fun r => (.table .inline r.1, r.2)
    | '"' :: _ => (text? cs).map fun r => (.string r.1, r.2)
    | '\'' :: _ => (text? cs).map fun r => (.string r.1, r.2)
    | _ => (word? (cs.takeWhile isWordChar)).map fun v => (v, cs.dropWhile isWordChar)

def items? : (fuel : Nat) → Chars → Option (List Toml × Chars)
  | 0, _ => none
  | fuel + 1, cs =>
    match skipLines cs.length cs with
    | ']' :: cs => some ([], cs)
    | cs => do
      let (v, cs) ← value? fuel cs
      match skipLines cs.length cs with
      | ']' :: cs => some ([v], cs)
      | ',' :: cs => do
        let (vs, cs) ← items? fuel cs
        some (v :: vs, cs)
      | _ => none

def pairs? : (fuel : Nat) → Entries → Chars → Option (Entries × Chars)
  | 0, _, _ => none
  | fuel + 1, es, cs => do
    let (keys, cs) ← keys? (cs.length + 1) cs
    match cs with
    | '=' :: cs => do
      let (v, cs) ← value? fuel (skipGap cs)
      let es ← assign keys v es
      match skipGap cs with
      | '}' :: cs => some (es, cs)
      | ',' :: cs => pairs? fuel es cs
      | _ => none
    | _ => none

end

/-- A header, or a key with its value. -/
def line? (cs : Chars) : Option (Line × Chars) := do
  match cs with
  | '[' :: cs =>
    let (path, cs) ← keys? (cs.length + 1) cs
    match cs with
    | ']' :: cs => some (.header path, cs)
    | _ => none
  | cs =>
    let (keys, cs) ← keys? (cs.length + 1) cs
    match cs with
    | '=' :: cs =>
      let (v, cs) ← value? (cs.length + 1) (skipGap cs)
      some (.assignment keys v, cs)
    | _ => none

def lines? : (fuel : Nat) → Chars → Option (List Line)
  | 0, _ => none
  | fuel + 1, cs =>
    match skipLines cs.length cs with
    | [] => some []
    | cs => do
      let (line, cs) ← line? cs
      let cs ← lineEnd? cs
      let rest ← lines? fuel cs
      some (line :: rest)

end Reader

/-- The table that a text writes down, without dates and without tables in lists; a byte order mark
may stand in front. -/
def read (text : String) : Option Entries :=
  let cs := match text.toList with
    | '\ufeff' :: cs => cs
    | cs => cs
  (Reader.lines? (cs.length + 1) cs).bind build

end PlaybookEngine.Toml
