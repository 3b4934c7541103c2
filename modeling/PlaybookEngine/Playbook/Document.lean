import PlaybookEngine.Fields
import PlaybookEngine.Text.Blank
import PlaybookEngine.Text.Parts

namespace PlaybookEngine.Document

inductive Fault
  | noOpening
  | noClosing
  deriving DecidableEq

def Fault.message : Fault → String
  | .noOpening => "content does not start with '---'"
  | .noClosing => "no closing '---' delimiter found"

/-- The text before and after the first line end that is followed by three dashes. -/
def splitClosing : List Char → Option (List Char × List Char)
  | [] => none
  | '\n' :: '-' :: '-' :: '-' :: rest => some ([], rest)
  | c :: cs => (splitClosing cs).map fun (before, after) => (c :: before, after)

/-- The front matter and the trimmed body. Byte order marks and blanks may stand in front. -/
def split (text : List Char) : Except Fault (List Char × List Char) :=
  let start := Text.trimStart (text.dropWhile (· = '\ufeff'))
  match Text.after? ['-', '-', '-'] start with
  | none => .error .noOpening
  | some rest =>
    match splitClosing rest with
    | none => .error .noClosing
    | some (front, body) => .ok (front, Text.trim body)

/-- The lines of a text; a line ends at a line feed, with or without a carriage return before it. -/
def lines (text : List Char) : List (List Char) :=
  let parts := Text.splitOn '\n' text
  let parts := if parts.getLast? = some [] then parts.dropLast else parts
  let ended := parts.length - (if text.getLast? = some '\n' then 0 else 1)
  parts.mapIdx fun i line =>
    if i < ended && line.getLast? = some '\r' then line.dropLast else line

/-- The heading of a line that starts a section. -/
def heading? (line : List Char) : Option (List Char) :=
  (Text.after? ['#', '#', ' '] line).map Text.trim

/-- Lines joined by line feeds. -/
def unlines : List (List Char) → List Char
  | [] => []
  | [line] => line
  | line :: rest => line ++ '\n' :: unlines rest

/-- Sections with their lines; those before the first heading belong to none. -/
def sectionLines : List (List Char) → List (List Char) × List (List Char × List (List Char))
  | [] => ([], [])
  | line :: rest =>
    let (here, sects) := sectionLines rest
    match heading? line with
    | some h => ([], (h, here) :: sects)
    | none => (line :: here, sects)

/-- The sections of a body by heading. Of equal headings the last one counts. -/
def sections (body : List Char) : Fields String :=
  Fields.ofList ((sectionLines (lines body)).2.map fun s =>
    (String.ofList s.1, String.ofList (Text.trim (unlines s.2))))

/-- The parts of a document. -/
structure Layout where
  /-- Blanks in front, after an optional byte order mark. -/
  margin : List Char
  marked : Bool
  front : List Char
  sections : List (List Char × List Char)

namespace Layout

def sectionText (s : List Char × List Char) : List Char :=
  '#' :: '#' :: ' ' :: s.1 ++ '\n' :: s.2 ++ ['\n']

def text (l : Layout) : List Char :=
  (if l.marked then ['\ufeff'] else []) ++ l.margin ++ ['-', '-', '-', '\n'] ++ l.front
    ++ ['\n', '-', '-', '-', '\n'] ++ l.sections.flatMap sectionText

end Layout

end PlaybookEngine.Document
