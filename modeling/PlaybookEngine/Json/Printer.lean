import PlaybookEngine.Json.Basic
import PlaybookEngine.Number.Shortest

namespace PlaybookEngine.Json

/-- Two hexadecimal digits of a number below 256. -/
def hexByte (n : Nat) : String :=
  String.ofList [Nat.digitChar (n / 16 % 16), Nat.digitChar (n % 16)]

def escapeChar (c : Char) : String :=
  if c = '"' then "\\\""
  else if c = '\\' then "\\\\"
  else if c = '\n' then "\\n"
  else if c = '\r' then "\\r"
  else if c = '\t' then "\\t"
  else if c = '\x08' then "\\b"
  else if c = '\x0c' then "\\f"
  else if c.toNat < 0x20 then "\\u00" ++ hexByte c.toNat
  else c.toString

def quote (s : String) : String :=
  "\"" ++ s.toList.foldl (fun out c => out ++ escapeChar c) "" ++ "\""

mutual

def compact : Json → String
  | .null => "null"
  | .bool b => if b then "true" else "false"
  | .int i => toString i
  | .float x => x.text
  | .str s => quote s
  | .arr items => "[" ++ compactItems items ++ "]"
  | .obj fields => "\x7b" ++ compactFields fields ++ "\x7d"

def compactItems : List Json → String
  | [] => ""
  | [v] => compact v
  | v :: w :: vs => compact v ++ "," ++ compactItems (w :: vs)

def compactFields : List (String × Json) → String
  | [] => ""
  | [(k, v)] => quote k ++ ":" ++ compact v
  | (k, v) :: f :: fs => quote k ++ ":" ++ compact v ++ "," ++ compactFields (f :: fs)

end

/-- A line break followed by the indent of a nesting depth. -/
def breakLine (depth : Nat) : String := String.ofList ('\n' :: List.replicate (2 * depth) ' ')

mutual

def prettyAt (depth : Nat) : Json → String
  | .arr [] => "[]"
  | .obj [] => "\x7b\x7d"
  | .arr (v :: vs) =>
    "[" ++ breakLine (depth + 1) ++ prettyAt (depth + 1) v ++ prettyItems (depth + 1) vs
      ++ breakLine depth ++ "]"
  | .obj ((k, v) :: fs) =>
    "\x7b" ++ breakLine (depth + 1) ++ quote k ++ ": " ++ prettyAt (depth + 1) v
      ++ prettyFields (depth + 1) fs ++ breakLine depth ++ "\x7d"
  | .null => "null"
  | .bool b => if b then "true" else "false"
  | .int i => toString i
  | .float x => x.text
  | .str s => quote s

/-- The further elements, each after a comma. -/
def prettyItems (depth : Nat) : List Json → String
  | [] => ""
  | v :: vs => "," ++ breakLine depth ++ prettyAt depth v ++ prettyItems depth vs

/-- The further fields, each after a comma. -/
def prettyFields (depth : Nat) : List (String × Json) → String
  | [] => ""
  | (k, v) :: fs =>
    "," ++ breakLine depth ++ quote k ++ ": " ++ prettyAt depth v ++ prettyFields depth fs

end

def pretty (v : Json) : String := prettyAt 0 v

end PlaybookEngine.Json
