import PlaybookEngine.Text.Parts
import PlaybookEngine.Text.Invisible

namespace PlaybookEngine.Text

/-- A character inside quotes of the kind `mark`. -/
def escapeQuoted (mark c : Char) : String :=
  if c = mark then "\\" ++ c.toString
  else if c = '\\' then "\\\\"
  else if c = '\n' then "\\n"
  else if c = '\r' then "\\r"
  else if c = '\t' then "\\t"
  else if c = '\x00' then "\\0"
  else if isInvisible c then
    "\\u\x7b" ++ String.ofList (Nat.toDigits 16 c.toNat) ++ "\x7d"
  else c.toString

def quotedText (s : String) : String :=
  "\"" ++ s.toList.foldl (fun out c => out ++ escapeQuoted '"' c) "" ++ "\""

def quotedChar (c : Char) : String := "'" ++ escapeQuoted '\'' c ++ "'"

def quotedList (ss : List String) : String := "[" ++ join ", " (ss.map quotedText) ++ "]"

end PlaybookEngine.Text
