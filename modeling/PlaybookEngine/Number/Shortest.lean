import PlaybookEngine.Number.Binary64

namespace PlaybookEngine.Binary64

/-- A decimal `coeff * 10 ^ exp`. -/
structure Decimal where
  coeff : Nat
  exp : Int
  deriving DecidableEq

/-- Compares `a * 10 ^ p` with `b * 2 ^ q / 4` exactly. -/
def compareScaled (a : Nat) (p : Int) (b : Nat) (q : Int) : Ordering :=
  compare (a * 4 * Nat.pow 10 p.toNat * Nat.pow 2 (-q).toNat)
    (b * Nat.pow 2 q.toNat * Nat.pow 10 (-p).toNat)

namespace Finite

/-- The lower end of the interval that rounds to `x`, in quarters of `2 ^ exp`. -/
def lowerQuarters (x : Finite) : Nat :=
  if x.mant = 0x10_0000_0000_0000 ∧ -1074 < x.exp then 4 * x.mant - 1 else 4 * x.mant - 2

def upperQuarters (x : Finite) : Nat := 4 * x.mant + 2

/-- The decimal lies in the interval of reals that round to the magnitude of `x`; the ends belong
to it when the significand is even. -/
def readsBack (x : Finite) (d : Decimal) : Bool :=
  let lower := compareScaled d.coeff d.exp x.lowerQuarters x.exp
  let upper := compareScaled d.coeff d.exp x.upperQuarters x.exp
  (lower == .gt && upper == .lt) || (x.mant % 2 == 0 && (lower == .eq || upper == .eq))

def quotient (x : Finite) : Nat × Nat :=
  (x.mant * Nat.pow 2 x.exp.toNat, Nat.pow 2 (-x.exp).toNat)

/-- The largest `k` with `10 ^ k ≤ x`, for a magnitude that is not zero. -/
def floorLog10 (x : Finite) : Int :=
  let (num, den) := x.quotient
  let k : Int := ((Nat.toDigits 10 num).length : Int) - (Nat.toDigits 10 den).length
  if den * Nat.pow 10 k.toNat ≤ num * Nat.pow 10 (-k).toNat then k else k - 1

/-- The two neighbours of `x` on the grid of multiples of `10 ^ p`, the nearer one first. -/
def gridNeighbours (x : Finite) (p : Int) : List Decimal :=
  let (num, den) := x.quotient
  let scaledNum := num * Nat.pow 10 (-p).toNat
  let scaledDen := den * Nat.pow 10 p.toNat
  let below := scaledNum / scaledDen
  let rest := scaledNum % scaledDen
  let nearerBelow := 2 * rest < scaledDen || (2 * rest == scaledDen && below % 2 == 0)
  if nearerBelow then [⟨below, p⟩, ⟨below + 1, p⟩] else [⟨below + 1, p⟩, ⟨below, p⟩]

/-- The first grid, from coarse to fine, on which a neighbour of `x` reads back as `x`. -/
def shortestFrom (x : Finite) (k : Int) : (digitsLeft : Nat) → Decimal
  | 0 => ⟨0, 0⟩
  | n + 1 =>
    match (x.gridNeighbours k).find? x.readsBack with
    | some d => d
    | none => shortestFrom x (k - 1) n

def shortest (x : Finite) : Decimal :=
  if x.isZero then ⟨0, 0⟩ else shortestFrom x x.floorLog10 18

end Finite

def significantDigits (n : Nat) : List Char :=
  match ((Nat.toDigits 10 n).reverse.dropWhile (· == '0')).reverse with
  | [] => ['0']
  | ds => ds

/-- Digits with a point after the first `whole` of them, or leading zeros when `whole` is not
positive; an integral number ends in `.0`. -/
def positional (ds : List Char) (whole : Int) : List Char :=
  if whole ≤ 0 then '0' :: '.' :: (List.replicate (-whole).toNat '0' ++ ds)
  else
    let n := whole.toNat
    if ds.length ≤ n then ds ++ List.replicate (n - ds.length) '0' ++ ['.', '0']
    else ds.take n ++ '.' :: ds.drop n

def scientific (ds : List Char) (exponent : Int) : List Char :=
  let head := match ds with
    | [] => []
    | [d] => [d]
    | d :: rest => d :: '.' :: rest
  let sign := if exponent < 0 then '-' else '+'
  head ++ 'e' :: sign :: Nat.toDigits 10 exponent.natAbs

/-- The text of a finite number: positional for decimal exponents from -5 to 15 and scientific
beyond, always with a point or an exponent. -/
def Finite.text (x : Finite) : String :=
  let d := x.shortest
  let ds := significantDigits d.coeff
  let exponent : Int := if x.isZero then 0 else d.exp + (Nat.toDigits 10 d.coeff).length - 1
  let body :=
    if -5 ≤ exponent ∧ exponent ≤ 15 then positional ds (exponent + 1)
    else scientific ds exponent
  String.ofList (if x.neg then '-' :: body else body)

end PlaybookEngine.Binary64
