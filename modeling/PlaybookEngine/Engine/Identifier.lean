namespace PlaybookEngine.Identifier

/-- The numbers that the next identifiers are made of. -/
structure Supply where
  next : Nat

/-- The lowest `width` hexadecimal digits of a number. -/
def hexDigits : (width n : Nat) → List Char
  | 0, _ => []
  | width + 1, n => hexDigits width (n / 16) ++ [Nat.digitChar (n % 16)]

/-- An identifier; numbers below `2 ^ 122` give different ones. -/
def text (n : Nat) : String :=
  let variant := Nat.digitChar (8 + (n >>> 60) % 4)
  String.ofList (hexDigits 8 (n >>> 90) ++ '-' :: hexDigits 4 (n >>> 74)
    ++ '-' :: '4' :: hexDigits 3 (n >>> 62)
    ++ '-' :: variant :: hexDigits 3 (n >>> 48) ++ '-' :: hexDigits 12 n)

def Supply.fresh (s : Supply) : String × Supply := (text s.next, ⟨s.next + 1⟩)

/-- What is left of a text after one of the characters that `allowed` tells for its place. -/
def matchDigits : List (Char → Bool) → List Char → Option (List Char)
  | [], cs => some cs
  | ok :: oks, c :: cs => if ok c then matchDigits oks cs else none
  | _ :: _, [] => none

def isHexDigit (c : Char) : Bool := c.isDigit || ('a' ≤ c && c ≤ 'f')

/-- The characters of an identifier. -/
def shape : List (Char → Bool) :=
  let hex := fun n => List.replicate n isHexDigit
  let dash := (· == '-')
  hex 8 ++ dash :: hex 4 ++ dash :: (· == '4') :: hex 3
    ++ dash :: (fun c => "89ab".toList.contains c) :: hex 3 ++ dash :: hex 12

/-- An identifier at the start of a text, and what follows it. -/
def at? (cs : List Char) : Option (String × List Char) :=
  (matchDigits shape cs).map fun rest => (String.ofList (cs.take shape.length), rest)

end PlaybookEngine.Identifier
