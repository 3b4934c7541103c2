import PlaybookEngine.Number.Binary64

namespace PlaybookEngine

def digitsValue (ds : List Char) : Nat :=
  ds.foldl (fun n c => n * 10 + (c.toNat - '0'.toNat)) 0

def spanDigits (cs : List Char) : List Char × List Char :=
  (cs.takeWhile Char.isDigit, cs.dropWhile Char.isDigit)

theorem spanDigits_append (cs : List Char) : (spanDigits cs).1 ++ (spanDigits cs).2 = cs := by
  simp [spanDigits]

def readNat (cs : List Char) : Option Nat :=
  if cs ≠ [] ∧ cs.all Char.isDigit then some (digitsValue cs) else none

/-- A signed decimal integer: an optional sign, then digits. -/
def readInt (cs : List Char) : Option Int :=
  match cs with
  | '-' :: ds => (readNat ds).map fun n => -(n : Int)
  | '+' :: ds => (readNat ds).map Int.ofNat
  | ds => (readNat ds).map Int.ofNat

def inInt64 (i : Int) : Bool := decide (-0x8000_0000_0000_0000 ≤ i ∧ i < 0x8000_0000_0000_0000)

def inNat64 (i : Int) : Bool := decide (0 ≤ i ∧ i < 0x1_0000_0000_0000_0000)

/-- The parts of a decimal numeral: digits before and after the point, and the exponent. -/
structure Numeral where
  whole : List Char
  fraction : List Char
  exponent : Int
  /-- A point was written. -/
  pointed : Bool
  /-- An exponent was written. -/
  scaled : Bool

namespace Numeral

def scanFraction : List Char → (List Char × Bool) × List Char
  | '.' :: cs => let (ds, rest) := spanDigits cs; ((ds, true), rest)
  | cs => (([], false), cs)

/-- The exponent part: `e` or `E`, an optional sign and at least one digit. `none` when the mark
stands without digits. -/
def scanExponent : List Char → Option ((Int × Bool) × List Char)
  | c :: cs =>
    if c = 'e' ∨ c = 'E' then
      let (neg, cs) := match cs with
        | '-' :: cs => (true, cs)
        | '+' :: cs => (false, cs)
        | cs => (false, cs)
      match spanDigits cs with
      | ([], _) => none
      | (ds, rest) =>
        let n : Int := digitsValue ds
        some ((if neg then -n else n, true), rest)
    else some ((0, false), c :: cs)
  | [] => some ((0, false), [])

/-- The unsigned numeral at the start of a text, and what follows it. -/
def scan (cs : List Char) : Option (Numeral × List Char) :=
  let (whole, cs) := spanDigits cs
  let ((fraction, pointed), cs) := scanFraction cs
  match scanExponent cs with
  | none => none
  | some ((exponent, scaled), cs) => some (⟨whole, fraction, exponent, pointed, scaled⟩, cs)

end Numeral

namespace Binary64

/-- `± coeff * 10 ^ exp`, rounded once to nearest. Exponents far outside the range of finite
numbers are decided by the number of digits alone. -/
def ofDecimal (neg : Bool) (coeff : Nat) (exp : Int) : Binary64 :=
  let size : Int := (Nat.toDigits 10 coeff).length + exp
  if coeff = 0 then .finite (.zero neg)
  else if 320 < size then .inf neg
  else if size < -340 then .finite (.zero neg)
  else ofRatio neg (coeff * Nat.pow 10 exp.toNat) (Nat.pow 10 (-exp).toNat)

def ofNumeral (neg : Bool) (n : Numeral) : Binary64 :=
  ofDecimal neg (digitsValue (n.whole ++ n.fraction)) (n.exponent - n.fraction.length)

/-- A number's text with an optional sign: digits with an optional point and exponent, at least one
digit beside the point, or an infinity or not-a-number in words of any case. -/
def read (cs : List Char) : Option Binary64 :=
  let (neg, cs) := match cs with
    | '-' :: cs => (true, cs)
    | '+' :: cs => (false, cs)
    | cs => (false, cs)
  let word := String.ofList (cs.map Char.toLower)
  if word = "inf" ∨ word = "infinity" then some (.inf neg)
  else if word = "nan" then some .nan
  else match Numeral.scan cs with
    | some (n, []) => if n.whole = [] ∧ n.fraction = [] then none else some (ofNumeral neg n)
    | _ => none

end Binary64

end PlaybookEngine
