import PlaybookEngine.Number.Decimal
import PlaybookEngine.Text.Blank

namespace PlaybookEngine

/-- Seconds since 1970-01-01T00:00:00Z and nanoseconds within the second; a leap second is written
with nanoseconds from `10 ^ 9` on, in the last second of its minute. -/
@[ext] structure Timestamp where
  secs : Int
  nanos : Nat
  deriving DecidableEq

namespace Timestamp

def ofNanos (n : Int) : Timestamp := ⟨n / 1000000000, (n % 1000000000).toNat⟩

def ofMillis (ms : Int) : Timestamp := ofNanos (ms * 1000000)

def toNanos (t : Timestamp) : Int := t.secs * 1000000000 + t.nanos

/-- The whole milliseconds from `start` to `stop`, zero when time runs backwards. -/
def millisBetween (start stop : Timestamp) : Nat :=
  ((stop.toNanos - start.toNanos) / 1000000).toNat

def isLeapYear (y : Int) : Bool := y % 4 == 0 && (y % 100 != 0 || y % 400 == 0)

def daysInMonth (y : Int) (m : Nat) : Nat :=
  if m = 2 then if isLeapYear y then 29 else 28
  else if m = 4 ∨ m = 6 ∨ m = 9 ∨ m = 11 then 30 else 31

/-- Days from 1970-01-01 to a date; years are counted from March, so that a leap day is the last
day of its year. -/
def daysFromDate (y : Int) (m d : Nat) : Int :=
  let y := if m ≤ 2 then y - 1 else y
  let era := y / 400
  let yearOfEra := y % 400
  let month : Int := if 2 < m then m - 3 else m + 9
  let dayOfYear := (153 * month + 2) / 5 + d - 1
  era * 146097 + (yearOfEra * 365 + yearOfEra / 4 - yearOfEra / 100 + dayOfYear) - 719468

/-- The date of a day, the inverse of `daysFromDate`. -/
def dateFromDays (days : Int) : Int × Nat × Nat :=
  let z := days + 719468
  let era := z / 146097
  let dayOfEra := z % 146097
  let yearOfEra := (dayOfEra - dayOfEra / 1460 + dayOfEra / 36524 - dayOfEra / 146096) / 365
  let dayOfYear := dayOfEra - (365 * yearOfEra + yearOfEra / 4 - yearOfEra / 100)
  let month := (5 * dayOfYear + 2) / 153
  let d := dayOfYear - (153 * month + 2) / 5 + 1
  let m := if month < 10 then month + 3 else month - 9
  (yearOfEra + era * 400 + (if m ≤ 2 then 1 else 0), m.toNat, d.toNat)

def padded (width n : Nat) : String :=
  let ds := Nat.toDigits 10 n
  String.ofList (List.replicate (width - ds.length) '0' ++ ds)

def yearText (y : Int) : String :=
  if 0 ≤ y ∧ y ≤ 9999 then padded 4 y.toNat
  else (if y < 0 then "-" else "+") ++ padded 4 y.natAbs

def fractionText (nanos : Nat) : String :=
  if nanos = 0 then ""
  else if nanos % 1000000 = 0 then "." ++ padded 3 (nanos / 1000000)
  else if nanos % 1000 = 0 then "." ++ padded 6 (nanos / 1000)
  else "." ++ padded 9 nanos

def text (t : Timestamp) : String :=
  let (y, m, d) := dateFromDays (t.secs / 86400)
  let s := (t.secs % 86400).toNat
  let leap := t.nanos / 1000000000
  yearText y ++ "-" ++ padded 2 m ++ "-" ++ padded 2 d ++ "T" ++ padded 2 (s / 3600) ++ ":"
    ++ padded 2 (s / 60 % 60) ++ ":" ++ padded 2 (s % 60 + leap)
    ++ fractionText (t.nanos % 1000000000) ++ "Z"

/-- One to `width` digits after blanks. -/
def number (width : Nat) (cs : List Char) : Option (Nat × List Char) :=
  let cs := Text.trimStart cs
  let ds := (cs.take width).takeWhile Char.isDigit
  if ds = [] then none else some (digitsValue ds, cs.drop ds.length)

def year (cs : List Char) : Option (Int × List Char) :=
  match Text.trimStart cs with
  | '-' :: rest => (number rest.length rest).map fun (n, rest) => (-(n : Int), rest)
  | '+' :: rest => (number rest.length rest).map fun (n, rest) => ((n : Int), rest)
  | cs => (number 4 cs).map fun (n, rest) => ((n : Int), rest)

/-- The separator `c` after blanks. -/
def separator (c : Char) (cs : List Char) : Option (List Char) :=
  match Text.trimStart cs with
  | d :: rest => if d = c then some rest else none
  | [] => none

/-- The fraction of a second in nanoseconds; digits beyond the ninth are dropped. -/
def fraction : List Char → Option (Nat × List Char)
  | '.' :: cs =>
    let (ds, rest) := spanDigits cs
    if ds = [] then none
    else
      let kept := ds.take 9
      some (digitsValue (kept ++ List.replicate (9 - kept.length) '0'), rest)
  | cs => some (0, cs)

def twoDigits : List Char → Option (Nat × List Char)
  | a :: b :: rest =>
    if a.isDigit && b.isDigit then some (digitsValue [a, b], rest) else none
  | _ => none

/-- The offset from UTC in seconds. -/
def offset (cs : List Char) : Option (Int × List Char) :=
  match cs with
  | 'Z' :: rest => some (0, rest)
  | 'z' :: rest => some (0, rest)
  | c :: rest =>
    if Text.lowerAscii (String.ofList (cs.take 3)) = "utc" then some (0, cs.drop 3)
    else if c = '+' ∨ c = '-' ∨ c = '−' then do
      let (h, rest) ← twoDigits rest
      let (m, rest) ← twoDigits (rest.dropWhile fun c => c = ':' || Text.isBlank c)
      if m < 60 ∧ h < 24 then
        let s : Int := (h * 60 + m) * 60
        some (if c = '+' then s else -s, rest)
      else none
    else none
  | [] => none

def read (text : String) : Option Timestamp := do
  let (y, cs) ← year text.toList
  let (m, cs) ← number 2 (← separator '-' cs)
  let (d, cs) ← number 2 (← separator '-' cs)
  let cs ← match cs with
    | 'T' :: rest => some rest
    | 't' :: rest => some rest
    | ' ' :: rest => some rest
    | _ => none
  let (h, cs) ← number 2 cs
  let (mi, cs) ← number 2 (← separator ':' cs)
  let (s, cs) ← number 2 (← separator ':' cs)
  let (nanos, cs) ← fraction cs
  let (shift, rest) ← offset (Text.trimStart cs)
  let valid := Text.trimStart rest = [] ∧ 1 ≤ m ∧ m ≤ 12 ∧ 1 ≤ d ∧ d ≤ daysInMonth y m ∧ h < 24
    ∧ mi < 60 ∧ s ≤ 60 ∧ -262143 ≤ y ∧ y ≤ 262142
  if valid then
    let leap := s = 60
    let inDay : Int := h * 3600 + mi * 60 + (if leap then 59 else s)
    some ⟨daysFromDate y m d * 86400 + inDay - shift, if leap then nanos + 1000000000 else nanos⟩
  else none

end Timestamp

end PlaybookEngine
