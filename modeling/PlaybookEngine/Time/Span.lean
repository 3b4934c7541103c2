namespace PlaybookEngine

/-- A length of time in nanoseconds. -/
abbrev Span := Nat

namespace Span

def ofMillis (ms : Nat) : Span := ms * 1000000

def ofSecs (s : Nat) : Span := s * 1000000000

/-- The whole milliseconds. -/
def toMillis (d : Span) : Nat := d / 1000000

/-- The digits of `rest / unit` after the point, without zeros at the end. -/
def fractionDigits (rest unit : Nat) : List Char :=
  let width := (Nat.toDigits 10 unit).length - 1
  let ds := Nat.toDigits 10 rest
  let padded := List.replicate (width - ds.length) '0' ++ ds
  (padded.reverse.dropWhile (· == '0')).reverse

def textIn (d : Span) (unit : Nat) (name : String) : String :=
  let fraction := if d % unit = 0 then "" else "." ++ String.ofList (fractionDigits (d % unit) unit)
  toString (d / unit) ++ fraction ++ name

def text (d : Span) : String :=
  if 1000000000 ≤ d then textIn d 1000000000 "s"
  else if 1000000 ≤ d then textIn d 1000000 "ms"
  else if 1000 ≤ d then textIn d 1000 "µs"
  else textIn d 1 "ns"

end Span

end PlaybookEngine
