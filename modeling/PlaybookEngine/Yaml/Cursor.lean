namespace PlaybookEngine.Yaml

/-- The characters that a YAML text may hold. -/
def isAllowed (c : Char) : Bool :=
  let n := c.toNat
  n == 0x09 || n == 0x0A || n == 0x0D || (0x20 ≤ n && n ≤ 0x7E) || n == 0x85
    || (0xA0 ≤ n && n ≤ 0xD7FF) || (0xE000 ≤ n && n ≤ 0xFFFD) || 0x10000 ≤ n

def isBreak (c : Char) : Bool :=
  c == '\n' || c == '\r' || c == '\u0085' || c == '\u2028' || c == '\u2029'

/-- A space or a tab. -/
def isSpace (c : Char) : Bool := c == ' ' || c == '\t'

def isWordChar (c : Char) : Bool := c.isAlphanum || c == '_' || c == '-'

structure Cursor where
  rest : List Char
  index : Nat
  line : Nat
  column : Nat

namespace Cursor

def init (text : List Char) : Cursor := ⟨text, 0, 0, 0⟩

def peek? (c : Cursor) : Option Char := c.rest.head?

def peekAt? (c : Cursor) (n : Nat) : Option Char := c.rest[n]?

def isAt (c : Cursor) (x : Char) : Bool := c.peek? == some x

/-- The text ends, or a space, a tab or a line end comes, `n` characters ahead. -/
def isBlankAt (c : Cursor) (n : Nat) : Bool :=
  match c.peekAt? n with
  | none => true
  | some x => isSpace x || isBreak x

/-- The text ends or a line end comes here. -/
def isLineEnd (c : Cursor) : Bool :=
  match c.peek? with
  | none => true
  | some x => isBreak x

/-- Moves over `n` characters of one line. -/
def skip (c : Cursor) (n : Nat) : Cursor :=
  { c with rest := c.rest.drop n, index := c.index + n, column := c.column + n }

/-- Moves over the characters of a class that has no line ends, and gives them. -/
def takeWhile (c : Cursor) (p : Char → Bool) : List Char × Cursor :=
  let taken := c.rest.takeWhile p
  (taken, c.skip taken.length)

def skipWhile (c : Cursor) (p : Char → Bool) : Cursor := (c.takeWhile p).2

/-- The start of the next line after a line end of `n` characters. -/
def nextLine (c : Cursor) (n : Nat) : Cursor :=
  ⟨c.rest.drop n, c.index + n, c.line + 1, 0⟩

/-- Moves over a line end, and gives the text it stands for: a line feed, or a separator itself. -/
def takeBreak (c : Cursor) : Option (List Char × Cursor) :=
  match c.rest with
  | '\r' :: '\n' :: _ => some (['\n'], c.nextLine 2)
  | '\u2028' :: _ => some (['\u2028'], c.nextLine 1)
  | '\u2029' :: _ => some (['\u2029'], c.nextLine 1)
  | x :: _ => if isBreak x then some (['\n'], c.nextLine 1) else none
  | [] => none

/-- A document marker stands at the start of this line. -/
def isDocumentMarker (c : Cursor) : Bool :=
  c.column == 0 && c.isBlankAt 3
    && (c.rest.take 3 == ['-', '-', '-'] || c.rest.take 3 == ['.', '.', '.'])

/-- Moves over a comment, up to the end of its line. -/
def skipComment (c : Cursor) : Cursor :=
  if c.isAt '#' then c.skipWhile fun x => !isBreak x else c

end Cursor

end PlaybookEngine.Yaml
