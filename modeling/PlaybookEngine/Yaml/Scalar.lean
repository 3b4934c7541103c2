import PlaybookEngine.Json.Reader
import PlaybookEngine.Yaml.Cursor

namespace PlaybookEngine.Yaml

inductive Style
  | plain | quoted | literal | folded
  deriving DecidableEq

/-- Blanks and line ends between two words of a folded scalar. -/
structure Gap where
  /-- The blanks before any line end. -/
  blanks : List Char
  /-- A line end was met, or an escaped one. -/
  broken : Bool
  /-- The text of the first line end. -/
  first : List Char
  /-- The texts of the further line ends. -/
  more : List Char

namespace Gap

def none : Gap := ⟨[], false, [], []⟩

def escaped : Gap := ⟨[], true, [], []⟩

/-- The text that a gap stands for: a single line end becomes a space, further ones stay. -/
def text (g : Gap) : List Char :=
  if !g.broken then g.blanks
  else if g.first = ['\n'] then if g.more = [] then [' '] else g.more
  else g.first ++ g.more

/-- Reads blanks and line ends. After a line end no tab may stand before column `indent`. -/
def scan (indent : Nat) : (fuel : Nat) → Gap → Cursor → Option (Gap × Cursor)
  | 0, _, _ => Option.none
  | fuel + 1, g, c =>
    match c.peek? with
    | Option.none => some (g, c)
    | some x =>
      if isSpace x then
        if g.broken then
          if c.column < indent && x == '\t' then Option.none else scan indent fuel g (c.skip 1)
        else scan indent fuel { g with blanks := g.blanks ++ [x] } (c.skip 1)
      else
        match c.takeBreak with
        | Option.none => some (g, c)
        | some (t, c) =>
          if g.broken then scan indent fuel { g with more := g.more ++ t } c
          else scan indent fuel { g with blanks := [], broken := true, first := t } c

end Gap

namespace Plain

def isFlowIndicator (c : Char) : Bool :=
  c == ',' || c == '[' || c == ']' || c == '\x7b' || c == '\x7d'

/-- A run of characters up to a blank or an indicator that ends the scalar. None when a colon is
followed by an indicator inside a flow collection. -/
def word (inFlow : Bool) : List Char → Option (List Char)
  | [] => some []
  | x :: rest =>
    let next := rest.head?
    let endsAfter := next.all fun y => isSpace y || isBreak y
    if isSpace x || isBreak x then some []
    else if inFlow && x == ':' && next.any fun y => isFlowIndicator y || y == '?' then none
    else if (x == ':' && endsAfter) || (inFlow && isFlowIndicator x) then some []
    else (word inFlow rest).map (x :: ·)

/-- Words and the gaps between them. `gap` stands before the next word; the answer also says whether
the scalar ended after a line end. -/
def scan (inFlow : Bool) (indent : Nat) :
    (fuel : Nat) → List Char → Gap → Cursor → Option (List Char × Bool × Cursor)
  | 0, _, _, _ => none
  | fuel + 1, out, gap, c =>
    if c.isDocumentMarker || c.isAt '#' then some (out, gap.broken, c)
    else do
      let w ← word inFlow c.rest
      let c := c.skip w.length
      let (out, gap) := if w = [] then (out, gap) else (out ++ gap.text ++ w, Gap.none)
      if !(c.isBlankAt 0) || c.rest = [] then some (out, gap.broken, c)
      else
        let (gap, c) ← Gap.scan indent (c.rest.length + 1) gap c
        if !inFlow && c.column < indent then some (out, gap.broken, c)
        else scan inFlow indent fuel out gap c

end Plain

namespace Quoted

def simpleEscape : Char → Option Char
  | '0' => some '\x00'
  | 'a' => some '\x07'
  | 'b' => some '\x08'
  | 't' => some '\t'
  | '\t' => some '\t'
  | 'n' => some '\n'
  | 'v' => some '\x0b'
  | 'f' => some '\x0c'
  | 'r' => some '\r'
  | 'e' => some '\x1b'
  | ' ' => some ' '
  | '"' => some '"'
  | '/' => some '/'
  | '\\' => some '\\'
  | 'N' => some '\u0085'
  | '_' => some '\u00a0'
  | 'L' => some '\u2028'
  | 'P' => some '\u2029'
  | _ => none

def hexLength : Char → Nat
  | 'x' => 2
  | 'u' => 4
  | 'U' => 8
  | _ => 0

def hexChar (ds : List Char) : Option Char := do
  let n ← ds.foldlM (fun n d => (Json.Reader.hexDigit? d).map (n * 16 + ·)) 0
  if (0xD800 ≤ n ∧ n ≤ 0xDFFF) ∨ 0x10FFFF < n then none else some (Char.ofNat n)

def escape (c : Cursor) : Option (Char × Nat) := do
  let e ← c.peek?
  let n := hexLength e
  if n = 0 then (simpleEscape e).map (·, 1)
  else
    let ds := (c.rest.drop 1).take n
    if ds.length = n then (hexChar ds).map (·, n + 1) else none

/-- A run of characters up to a blank or the closing quote. The gap is an escaped line end when the
run ended with one. -/
def word (single : Bool) : (fuel : Nat) → List Char → Cursor → Option (List Char × Gap × Cursor)
  | 0, _, _ => none
  | fuel + 1, out, c =>
    match c.rest with
    | [] => some (out, Gap.none, c)
    | x :: rest =>
      if isSpace x || isBreak x then some (out, Gap.none, c)
      else if single then
        if x == '\'' then
          if rest.head? == some '\'' then word single fuel (out ++ ['\'']) (c.skip 2)
          else some (out, Gap.none, c)
        else word single fuel (out ++ [x]) (c.skip 1)
      else if x == '"' then some (out, Gap.none, c)
      else if x == '\\' then
        match (c.skip 1).takeBreak with
        | some (_, c) => some (out, Gap.escaped, c)
        | none => do
          let (y, n) ← escape (c.skip 1)
          word single fuel (out ++ [y]) (c.skip (n + 1))
      else word single fuel (out ++ [x]) (c.skip 1)

/-- The text between the quotes; the cursor stands behind the opening one. -/
def scan (single : Bool) : (fuel : Nat) → List Char → Cursor → Option (List Char × Cursor)
  | 0, _, _ => none
  | fuel + 1, out, c =>
    if c.isDocumentMarker || c.rest = [] then none
    else do
      let (w, gap, c) ← word single (c.rest.length + 1) [] c
      let out := out ++ w
      if c.isAt (if single then '\'' else '"') then some (out, c.skip 1)
      else
        let (gap, c) ← Gap.scan 0 (c.rest.length + 1) gap c
        scan single fuel (out ++ gap.text) c

end Quoted

namespace Block

inductive Chomping
  | strip | clip | keep
  deriving DecidableEq

/-- What follows the indicator of a block: a chomping mark and a digit of indentation, in either
order. -/
def header (c : Cursor) : Option (Chomping × Nat × Cursor) :=
  let mark (c : Cursor) : Chomping × Cursor :=
    if c.isAt '+' then (.keep, c.skip 1) else if c.isAt '-' then (.strip, c.skip 1) else (.clip, c)
  let digit (c : Cursor) : Option (Nat × Cursor) :=
    match c.peek? with
    | some d =>
      if d == '0' then none
      else if d.isDigit then some (d.toNat - '0'.toNat, c.skip 1)
      else some (0, c)
    | none => some (0, c)
  if c.isAt '+' || c.isAt '-' then do
    let (chomping, c) := mark c
    let (n, c) ← digit c
    some (chomping, n, c)
  else do
    let (n, c) ← digit c
    if n = 0 then some (.clip, 0, c)
    else
      let (chomping, c) := mark c
      some (chomping, n, c)

/-- The indentation and line ends before the next line that is not empty. `indent` is zero while it
is not known, `widest` the widest indentation seen. -/
def breaks (indent : Nat) :
    (fuel : Nat) → (widest : Nat) → List Char → Cursor → Option (Nat × List Char × Cursor)
  | 0, _, _, _ => none
  | fuel + 1, widest, out, c =>
    let spaces := (c.rest.takeWhile (· == ' ')).length
    let c := c.skip (if indent = 0 then spaces else min spaces (indent - c.column))
    let widest := max widest c.column
    if (indent = 0 || c.column < indent) && c.isAt '\t' then none
    else
      match c.takeBreak with
      | some (t, c) => breaks indent fuel widest (out ++ t) c
      | none => some (widest, out, c)

/-- The lines of a block. `first` is the line end after the line before, `more` the further ones,
and `indented` says that the line before started with a blank. -/
def lines (literal : Bool) (indent : Nat) :
    (fuel : Nat) → (indented : Bool) → (out first more : List Char) → Cursor →
      Option (List Char × List Char × List Char × Cursor)
  | 0, _, _, _, _, _ => none
  | fuel + 1, indented, out, first, more, c =>
    if c.column ≠ indent || c.rest = [] then some (out, first, more, c)
    else do
      let blank := c.peek?.any isSpace
      let joint :=
        if !literal && first == ['\n'] && !indented && !blank then
          if more = [] then [' '] else more
        else first ++ more
      let (text, c) := c.takeWhile fun x => !isBreak x
      let (first, c) := (c.takeBreak).getD ([], c)
      let (_, more, c) ← breaks indent (c.rest.length + 1) 0 [] c
      lines literal indent fuel blank (out ++ joint ++ text) first more c

/-- A block scalar; the cursor stands behind its indicator, and `parent` is the indentation of the
collection around it, one more than its column. -/
def scan (literal : Bool) (parent : Nat) (c : Cursor) : Option (List Char × Cursor) := do
  let (chomping, increment, c) ← header c
  let c := (c.skipWhile isSpace).skipComment
  if !c.isLineEnd then none
  let c := ((c.takeBreak).map (·.2)).getD c
  let given := if increment = 0 then 0 else (parent - 1) + increment
  let (widest, more, c) ← breaks given (c.rest.length + 1) 0 [] c
  let indent := if given = 0 then max (max widest parent) 1 else given
  let (out, first, more, c) ← lines literal indent (c.rest.length + 1) false [] [] more c
  let tail := match chomping with
    | .strip => []
    | .clip => first
    | .keep => first ++ more
  some (out ++ tail, c)

end Block

end PlaybookEngine.Yaml
