namespace PlaybookEngine.CommandLine

inductive Style
  | bold | dimmed | red | green | yellow | cyan | brightBlue

/-- Whether styles are written. -/
structure Ink where
  isColored : Bool

namespace Style

def code : Style → String
  | .bold => "1"
  | .dimmed => "2"
  | .red => "31"
  | .green => "32"
  | .yellow => "33"
  | .cyan => "36"
  | .brightBlue => "94"

def opening (styles : List Style) : String :=
  "\x1b[" ++ String.intercalate ";" (styles.map code) ++ "m"

def reset : List Char := ['\x1b', '[', '0', 'm']

/-- A text in which each reset is followed by the codes in `opening` again; `left` characters of a
reset are still to come. -/
def resume (opening : List Char) : (left : Nat) → List Char → List Char
  | _, [] => []
  | 0, c :: cs => c :: resume opening (if reset.isPrefixOf (c :: cs) then 3 else 0) cs
  | 1, c :: cs => c :: (opening ++ resume opening 0 cs)
  | left + 2, c :: cs => c :: resume opening (left + 1) cs

end Style

/-- A text with spaces after it, up to `width` characters. -/
def padded (width : Nat) (s : String) : String :=
  s ++ String.ofList (List.replicate (width - s.length) ' ')

namespace Ink

/-- A styled text in a column. The width counts the characters between the outer codes, so the
codes of inner texts count. -/
def column (ink : Ink) (styles : List Style) (width : Nat) (s : String) : String :=
  if ink.isColored then
    let opening := Style.opening styles
    opening ++ padded width (String.ofList (Style.resume opening.toList 0 s.toList))
      ++ String.ofList Style.reset
  else padded width s

def paint (ink : Ink) (styles : List Style) (s : String) : String := ink.column styles 0 s

/-- The environment can force styles and turn them off; else they are for terminals. -/
def ofEnvironment (env : String → Option String) (terminal : Bool) : Ink :=
  let isOn := fun name unset => (env name).elim unset (· != "0")
  ⟨isOn "CLICOLOR_FORCE" false || (env "NO_COLOR").isNone && isOn "CLICOLOR" true && terminal⟩

end Ink

end PlaybookEngine.CommandLine
