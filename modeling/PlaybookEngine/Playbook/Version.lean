import PlaybookEngine.Text.Quoted

namespace PlaybookEngine.Version

inductive Part
  | major | minor | patch | preRelease | build
  deriving DecidableEq

def Part.text : Part → String
  | .major => "major version number"
  | .minor => "minor version number"
  | .patch => "patch version number"
  | .preRelease => "pre-release identifier"
  | .build => "build metadata"

inductive Fault
  | empty
  | endsIn (part : Part)
  | unexpectedIn (part : Part) (c : Char)
  | unexpectedAfter (part : Part) (c : Char)
  | leadingZero (part : Part)
  | tooLarge (part : Part)
  | emptySegment (part : Part)
  deriving DecidableEq

def Fault.message : Fault → String
  | .empty => "empty string, expected a semver version"
  | .endsIn p => "unexpected end of input while parsing " ++ p.text
  | .unexpectedIn p c => "unexpected character " ++ Text.quotedChar c ++ " while parsing " ++ p.text
  | .unexpectedAfter p c => "unexpected character " ++ Text.quotedChar c ++ " after " ++ p.text
  | .leadingZero p => "invalid leading zero in " ++ p.text
  | .tooLarge p => "value of " ++ p.text ++ " exceeds u64::MAX"
  | .emptySegment p => "empty identifier segment in " ++ p.text

/-- The digits of a number after the ones that make up `value`; `first` before any digit. -/
def digits (part : Part) (first : Bool) (value : Nat) : List Char → Except Fault (List Char)
  | [] => if first then .error (.endsIn part) else .ok []
  | c :: cs =>
    if c.isDigit then
      let next := value * 10 + (c.toNat - '0'.toNat)
      if value = 0 ∧ ¬first then .error (.leadingZero part)
      else if 0x1_0000_0000_0000_0000 ≤ next then .error (.tooLarge part)
      else digits part false next cs
    else if first then .error (.unexpectedIn part c)
    else .ok (c :: cs)

def number (part : Part) : List Char → Except Fault (List Char) := digits part true 0

/-- The point after a number. -/
def point (part : Part) : List Char → Except Fault (List Char)
  | '.' :: cs => .ok cs
  | c :: _ => .error (.unexpectedAfter part c)
  | [] => .error (.endsIn part)

def isIdentifierChar (c : Char) : Bool := c.isAlphanum || c == '-'

/-- The fault of one segment; a pre-release number has no leading zero. -/
def segmentFault? (part : Part) (segment : List Char) : Option Fault :=
  if segment = [] then some (.emptySegment part)
  else if part = .preRelease ∧ segment.all Char.isDigit ∧ 1 < segment.length
      ∧ segment.head? = some '0' then some (.leadingZero part)
  else none

/-- The segments of an identifier and what follows it. -/
def identifier (part : Part) (cs : List Char) : Except Fault (List Char) :=
  let word := cs.takeWhile fun c => isIdentifierChar c || c == '.'
  match (Text.splitOn '.' word).findSome? (segmentFault? part) with
  | some fault => .error fault
  | none => .ok (cs.drop word.length)

def check (text : String) : Except Fault Unit := do
  let cs := text.toList
  if cs = [] then .error .empty
  let cs ← point .major (← number .major cs)
  let cs ← point .minor (← number .minor cs)
  let cs ← number .patch cs
  let (part, cs) ← match cs with
    | '-' :: cs => do pure (Part.preRelease, ← identifier .preRelease cs)
    | cs => pure (Part.patch, cs)
  let (part, cs) ← match cs with
    | '+' :: cs => do pure (Part.build, ← identifier .build cs)
    | cs => pure (part, cs)
  match cs with
  | [] => pure ()
  | c :: _ => .error (.unexpectedAfter part c)

def fault? (text : String) : Option Fault :=
  match check text with
  | .ok _ => none
  | .error fault => some fault

end PlaybookEngine.Version
