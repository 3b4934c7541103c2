import PlaybookEngine.Yaml.Scalar

namespace PlaybookEngine.Yaml

inductive Token
  /-- The directive that tells the version of the language. -/
  | version (major minor : Nat)
  /-- The directive that tells what a handle of tags stands for. -/
  | handle (name front : String)
  | documentStart
  | documentEnd
  | blockSequenceStart
  | blockMappingStart
  | blockEnd
  | flowSequenceStart
  | flowSequenceEnd
  | flowMappingStart
  | flowMappingEnd
  | blockEntry
  | flowEntry
  | key
  | value
  | alias (name : String)
  | anchor (name : String)
  | tag (handle suffix : String)
  | scalar (style : Style) (text : String)
  deriving DecidableEq

/-- A place where a key may turn out to have started. -/
structure KeyPlace where
  /-- The next token must be a value. -/
  required : Bool
  /-- The number of tokens before the key. -/
  number : Nat
  index : Nat
  line : Nat
  column : Nat

/-- The state of cutting a text into tokens. -/
structure Lexer where
  cursor : Cursor
  tokens : List Token
  /-- The column of the innermost block collection, one more than it, or zero outside of any. -/
  indent : Nat
  /-- The same of the collections around it. -/
  outer : List Nat
  /-- The possible key of this level. -/
  place : Option KeyPlace
  /-- The possible keys of the levels around the flow collections that are open. -/
  outerPlaces : List (Option KeyPlace)
  /-- A key may start here. -/
  keyAllowed : Bool

namespace Lexer

def init (text : List Char) : Lexer := ⟨.init text, [], 0, [], none, [], true⟩

def inFlow (l : Lexer) : Bool := l.outerPlaces ≠ []

def emit (l : Lexer) (t : Token) : Lexer := { l with tokens := l.tokens ++ [t] }

def insertAt (l : Lexer) (n : Nat) (t : Token) : Lexer :=
  { l with tokens := l.tokens.take n ++ t :: l.tokens.drop n }

def skip (l : Lexer) (n : Nat) : Lexer := { l with cursor := l.cursor.skip n }

/-- A key lies within one line and 1024 characters. -/
def refresh (c : Cursor) : Option KeyPlace → Option (Option KeyPlace)
  | none => some none
  | some k =>
    if k.line < c.line || k.index + 1024 < c.index then if k.required then none else some none
    else some (some k)

/-- Forgets the keys that can no longer be; none when one of them had to be. -/
def dropStale (l : Lexer) : Option Lexer := do
  let place ← refresh l.cursor l.place
  let outer ← l.outerPlaces.mapM (refresh l.cursor)
  some { l with place := place, outerPlaces := outer }

def forgetKey (l : Lexer) : Option Lexer :=
  match l.place with
  | some k => if k.required then none else some { l with place := none }
  | none => some l

def noteKey (l : Lexer) : Option Lexer :=
  if l.keyAllowed then do
    let l' ← l.forgetKey
    let c := l.cursor
    let required := !l.inFlow && l.indent == c.column + 1
    some { l' with place := some ⟨required, l.tokens.length, c.index, c.line, c.column⟩ }
  else some l

/-- Opens a block collection at a column that is further in. -/
def openBlock (l : Lexer) (column number : Nat) (t : Token) : Lexer :=
  if l.inFlow || column + 1 ≤ l.indent then l
  else { l.insertAt number t with indent := column + 1, outer := l.indent :: l.outer }

/-- Closes the block collections that are further in than a column, given one more than it. -/
def closeBlocks (column : Nat) : (outer : List Nat) → Lexer → Lexer
  | [], l => l
  | o :: outer, l =>
    if l.indent ≤ column then l
    else closeBlocks column outer { l.emit .blockEnd with indent := o, outer := outer }

def unroll (l : Lexer) (column : Nat) : Lexer :=
  if l.inFlow then l else closeBlocks column l.outer l

/-- Skips blanks, comments and line ends. Tabs count as blanks only where no key may start. -/
def skipBlanks : (fuel : Nat) → Lexer → Lexer
  | 0, l => l
  | fuel + 1, l =>
    let tabs := l.inFlow || !l.keyAllowed
    let c := if l.cursor.index = 0 ∧ l.cursor.isAt '\ufeff' then l.cursor.skip 1 else l.cursor
    let c := (c.skipWhile fun x => x == ' ' || (tabs && x == '\t')).skipComment
    match c.takeBreak with
    | some (_, c) => skipBlanks fuel { l with cursor := c, keyAllowed := l.keyAllowed || !l.inFlow }
    | none => { l with cursor := c }

/-- An anchor or an alias behind its mark. -/
def name (l : Lexer) (make : String → Token) : Option Lexer := do
  let l ← l.noteKey
  let (word, c) := (l.cursor.skip 1).takeWhile isWordChar
  let closed :=
    c.isBlankAt 0 || c.peek?.any ['?', ':', ',', ']', '\x7d', '%', '@', '\u0060'].contains
  if word = [] || !closed then none
  else some { l.emit (make (String.ofList word)) with cursor := c, keyAllowed := false }

def isUriChar (verbatim : Bool) (x : Char) : Bool :=
  isWordChar x ||
    [';', '/', '?', ':', '@', '&', '=', '+', '$', '.', '!', '~', '*', '\'', '(', ')'].contains x
    || (verbatim && (x == ',' || x == '[' || x == ']'))

/-- The characters of a tag; escapes are two hexadecimal digits each. -/
def uri (verbatim : Bool) : (fuel : Nat) → List Char → Cursor → Option (List Char × Cursor)
  | 0, _, _ => none
  | fuel + 1, out, c =>
    match c.peek? with
    | some '%' => do
      let ds := (c.rest.drop 1).take 2
      if ds.length ≠ 2 then none
      let x ← Quoted.hexChar ds
      uri verbatim fuel (out ++ [x]) (c.skip 3)
    | some x =>
      if isUriChar verbatim x then uri verbatim fuel (out ++ [x]) (c.skip 1) else some (out, c)
    | none => some (out, c)

/-- A tag: verbatim between angle brackets, with a named handle, or with the plain one. -/
def tagParts (c : Cursor) : Option (String × String × Cursor) := do
  let fuel := c.rest.length + 1
  if c.peekAt? 1 == some '<' then
    let (suffix, c) ← uri true fuel [] (c.skip 2)
    if suffix = [] || !c.isAt '>' then none
    else some ("", String.ofList suffix, c.skip 1)
  else
    let (word, c) := (c.skip 1).takeWhile isWordChar
    if c.isAt '!' then
      let (suffix, c) ← uri false fuel [] (c.skip 1)
      if suffix = [] then none
      else some ("!" ++ String.ofList word ++ "!", String.ofList suffix, c)
    else
      let (rest, c) ← uri false fuel [] c
      let suffix := word ++ rest
      if suffix = [] then some ("", "!", c) else some ("!", String.ofList suffix, c)

def tag (l : Lexer) : Option Lexer := do
  let l ← l.noteKey
  let (handle, suffix, c) ← tagParts l.cursor
  if !(c.isBlankAt 0 || (l.inFlow && c.isAt ',')) then none
  else some { l.emit (.tag handle suffix) with cursor := c, keyAllowed := false }

def blockScalar (l : Lexer) (literal : Bool) : Option Lexer := do
  let l ← l.forgetKey
  let (text, c) ← Block.scan literal l.indent (l.cursor.skip 1)
  let style := if literal then Style.literal else .folded
  some { l.emit (.scalar style (String.ofList text)) with cursor := c, keyAllowed := true }

def quotedScalar (l : Lexer) (single : Bool) : Option Lexer := do
  let l ← l.noteKey
  let (text, c) ← Quoted.scan single (l.cursor.rest.length + 1) [] (l.cursor.skip 1)
  some { l.emit (.scalar .quoted (String.ofList text)) with cursor := c, keyAllowed := false }

def plainScalar (l : Lexer) : Option Lexer := do
  let l ← l.noteKey
  let (text, broken, c) ← Plain.scan l.inFlow l.indent (l.cursor.rest.length + 1) [] .none l.cursor
  some { l.emit (.scalar .plain (String.ofList text)) with cursor := c, keyAllowed := broken }

def openFlow (l : Lexer) (t : Token) : Option Lexer := do
  let l ← l.noteKey
  some { (l.emit t).skip 1 with
    place := none
    outerPlaces := l.place :: l.outerPlaces
    keyAllowed := true }

def closeFlow (l : Lexer) (t : Token) : Option Lexer := do
  let l ← l.forgetKey
  let l' := { (l.emit t).skip 1 with keyAllowed := false }
  match l.outerPlaces with
  | [] => some l'
  | place :: outer => some { l' with place := place, outerPlaces := outer }

def flowEntry (l : Lexer) : Option Lexer := do
  let l ← l.forgetKey
  some { (l.emit .flowEntry).skip 1 with keyAllowed := true }

def blockEntry (l : Lexer) : Option Lexer := do
  if !l.inFlow && !l.keyAllowed then none
  let l ← (l.openBlock l.cursor.column l.tokens.length .blockSequenceStart).forgetKey
  some { (l.emit .blockEntry).skip 1 with keyAllowed := true }

/-- The mark of a key that is written out. -/
def explicitKey (l : Lexer) : Option Lexer := do
  if !l.inFlow && !l.keyAllowed then none
  let l ← (l.openBlock l.cursor.column l.tokens.length .blockMappingStart).forgetKey
  some { (l.emit .key).skip 1 with keyAllowed := !l.inFlow }

def value (l : Lexer) : Option Lexer :=
  match l.place with
  | some k =>
    let l := (l.insertAt k.number .key).openBlock k.column k.number .blockMappingStart
    some { (l.emit .value).skip 1 with place := none, keyAllowed := false }
  | none =>
    if l.inFlow then some { (l.emit .value).skip 1 with keyAllowed := false }
    else if l.keyAllowed then
      let l := l.openBlock l.cursor.column l.tokens.length .blockMappingStart
      some { (l.emit .value).skip 1 with keyAllowed := true }
    else none

def documentMarker (l : Lexer) : Option Lexer := do
  let t := if l.cursor.isAt '-' then Token.documentStart else .documentEnd
  let l ← (l.unroll 0).forgetKey
  some { (l.emit t).skip 3 with keyAllowed := false }

/-- A part of a version; it has at most nine digits. -/
def versionPart (c : Cursor) : Option (Nat × Cursor) :=
  let (ds, c) := c.takeWhile Char.isDigit
  if ds = [] || 9 < ds.length then none else some (digitsValue ds, c)

def versionDirective (c : Cursor) : Option (Token × Cursor) := do
  let (major, c) ← versionPart c
  if !c.isAt '.' then none
  let (minor, c) ← versionPart (c.skip 1)
  some (.version major minor, c)

/-- A handle of tags with what it stands for: one exclamation mark, or two around a word. -/
def handleDirective (c : Cursor) : Option (Token × Cursor) := do
  if !c.isAt '!' then none
  let (word, c) := (c.skip 1).takeWhile isWordChar
  if !c.isAt '!' && word ≠ [] then none
  let (name, c) := if c.isAt '!' then ('!' :: word ++ ['!'], c.skip 1) else (['!'], c)
  if !c.peek?.any isSpace then none
  let (front, c) ← uri true (c.rest.length + 1) [] (c.skipWhile isSpace)
  if front = [] || !c.isBlankAt 0 then none
  some (.handle (String.ofList name) (String.ofList front), c)

/-- A directive is all of its line, but for a comment. -/
def directive (l : Lexer) : Option Lexer := do
  let l ← (l.unroll 0).forgetKey
  let (word, c) := (l.cursor.skip 1).takeWhile isWordChar
  if !c.isBlankAt 0 then none
  let c := c.skipWhile isSpace
  let (t, c) ← match String.ofList word with
    | "YAML" => versionDirective c
    | "TAG" => handleDirective c
    | _ => none
  let c := (c.skipWhile isSpace).skipComment
  if !c.isLineEnd then none
  some { l.emit t with cursor := c.takeBreak.elim c (·.2), keyAllowed := false }

def isIndicator (x : Char) : Bool :=
  ['-', '?', ':', ',', '[', ']', '\x7b', '\x7d', '#', '&', '*', '!', '|', '>', '\'', '"', '%', '@',
    '\u0060'].contains x

/-- The next token, which starts with `x`. -/
def next (l : Lexer) (x : Char) : Option Lexer :=
  let c := l.cursor
  let blankAfter := c.isBlankAt 1
  if c.column = 0 && x == '%' then l.directive
  else if c.isDocumentMarker then l.documentMarker
  else if x == '[' then l.openFlow .flowSequenceStart
  else if x == '\x7b' then l.openFlow .flowMappingStart
  else if x == ']' then l.closeFlow .flowSequenceEnd
  else if x == '\x7d' then l.closeFlow .flowMappingEnd
  else if x == ',' then l.flowEntry
  else if x == '-' && blankAfter then l.blockEntry
  else if x == '?' && (l.inFlow || blankAfter) then l.explicitKey
  else if x == ':' && (l.inFlow || blankAfter) then l.value
  else if x == '*' then l.name .alias
  else if x == '&' then l.name .anchor
  else if x == '!' then l.tag
  else if x == '|' && !l.inFlow then l.blockScalar true
  else if x == '>' && !l.inFlow then l.blockScalar false
  else if x == '\'' then l.quotedScalar true
  else if x == '"' then l.quotedScalar false
  else if !isIndicator x || (x == '-' && !(c.peekAt? 1).any isSpace)
      || (!l.inFlow && (x == '?' || x == ':') && !blankAfter) then l.plainScalar
  else none

def run : (fuel : Nat) → Lexer → Option (List Token)
  | 0, _ => none
  | fuel + 1, l => do
    let l ← (skipBlanks (l.cursor.rest.length + 1) l).dropStale
    match l.cursor.peek? with
    | none =>
      let l ← (l.unroll 0).forgetKey
      some l.tokens
    | some x =>
      let l ← (l.unroll (l.cursor.column + 1)).next x
      run fuel l

end Lexer

/-- The tokens of a text, none when it cannot be cut into tokens. -/
def tokens (text : List Char) : Option (List Token) :=
  if text.all isAllowed then (Lexer.init text).run (text.length + 1) else none

end PlaybookEngine.Yaml
