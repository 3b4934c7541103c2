import PlaybookEngine.Number.Binary64

namespace PlaybookEngine.Binary64

namespace Finite

/-- The magnitude in units of the last decimal. -/
def lastUnits (places : Nat) (x : Finite) : Nat :=
  divNearest (x.magnitude * Nat.pow 10 places) (Nat.pow 2 1074)

/-- A number that rounds to zero keeps its sign. -/
def fixed (places : Nat) (x : Finite) : String :=
  let n := x.lastUnits places
  let fraction := Nat.toDigits 10 (n % Nat.pow 10 places)
  let body := Nat.toDigits 10 (n / Nat.pow 10 places) ++
    if places = 0 then [] else '.' :: (List.replicate (places - fraction.length) '0' ++ fraction)
  String.ofList (if x.neg then '-' :: body else body)

end Finite

def fixed (places : Nat) : Binary64 → String
  | .nan => "NaN"
  | .inf neg => if neg then "-inf" else "inf"
  | .finite x => x.fixed places

end PlaybookEngine.Binary64
