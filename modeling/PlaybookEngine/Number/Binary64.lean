namespace PlaybookEngine

namespace Binary64

/-- `m * 2 ^ e` is the one canonical way to write a magnitude: 53 significant bits, or fewer at the
lowest exponent. -/
def IsCanonical (m : Nat) (e : Int) : Prop :=
  (m < 0x20_0000_0000_0000 ∧ e = -1074) ∨
    (0x10_0000_0000_0000 ≤ m ∧ m < 0x20_0000_0000_0000 ∧ -1074 < e ∧ e ≤ 971)

instance (m : Nat) (e : Int) : Decidable (IsCanonical m e) :=
  inferInstanceAs (Decidable (_ ∨ _))

/-- A finite number, `± mant * 2 ^ exp`; zero has a sign. -/
@[ext] structure Finite where
  neg : Bool
  mant : Nat
  exp : Int
  canonical : IsCanonical mant exp
  deriving DecidableEq

namespace Finite

def zero (neg : Bool) : Finite := ⟨neg, 0, -1074, by decide⟩

theorem exp_ge (x : Finite) : -1074 ≤ x.exp := by
  rcases x.canonical with ⟨_, h⟩ | ⟨_, _, h, _⟩ <;> omega

/-- The magnitude in units of `2 ^ (-1074)`, of which every finite number is a multiple. -/
def magnitude (x : Finite) : Nat := x.mant * Nat.pow 2 (x.exp + 1074).toNat

/-- The exact value in units of `2 ^ (-1074)`. -/
def units (x : Finite) : Int := if x.neg then -(x.magnitude : Int) else x.magnitude

def isZero (x : Finite) : Bool := x.mant == 0

def negate (x : Finite) : Finite := { x with neg := !x.neg }

instance : BEq Finite := ⟨fun x y => x.units == y.units⟩

theorem beq_iff (x y : Finite) : (x == y) = true ↔ x.units = y.units := by
  change (x.units == y.units) = true ↔ _
  simp

theorem units_negate (x : Finite) : x.negate.units = -x.units := by
  cases h : x.neg <;> simp [units, negate, magnitude, h]

def isIntegral (x : Finite) : Bool := x.magnitude % Nat.pow 2 1074 == 0

/-- The integer part, toward zero. -/
def truncate (x : Finite) : Int :=
  let whole : Int := (x.magnitude / Nat.pow 2 1074 : Nat)
  if x.neg then -whole else whole

end Finite

end Binary64

/-- Each operation on these numbers computes the exact result and rounds it once. -/
inductive Binary64
  | nan
  | inf (neg : Bool)
  | finite (x : Binary64.Finite)
  deriving DecidableEq

namespace Binary64

/-- The quotient rounded to the nearest natural number, a half to the even one. -/
def divNearest (num den : Nat) : Nat :=
  let q := num / den
  let r := num % den
  if 2 * r < den then q
  else if den < 2 * r then q + 1
  else if q % 2 = 0 then q else q + 1

/-- The largest `k` with `2 ^ k ≤ num / den`, for positive arguments. -/
def floorLog2 (num den : Nat) : Int :=
  let k : Int := (num.log2 : Int) - den.log2
  let fits := den * Nat.pow 2 k.toNat ≤ num * Nat.pow 2 (-k).toNat
  if fits then k else k - 1

/-- `± num / den` as a binary64 number, rounded to nearest; too large a magnitude is infinite. -/
def ofRatio (neg : Bool) (num den : Nat) : Binary64 :=
  if num = 0 then .finite (.zero neg)
  else
    let e := max (floorLog2 num den - 52) (-1074)
    let m := divNearest (num * Nat.pow 2 (-e).toNat) (den * Nat.pow 2 e.toNat)
    let (m, e) := if m = 0x20_0000_0000_0000 then (0x10_0000_0000_0000, e + 1) else (m, e)
    if h : IsCanonical m e then .finite ⟨neg, m, e, h⟩ else .inf neg

/-- A value given in units of `2 ^ (-1074)`, rounded; `negZero` is the sign of a zero result. -/
def ofUnits (u : Int) (negZero : Bool) : Binary64 :=
  ofRatio (if u = 0 then negZero else decide (u < 0)) u.natAbs (Nat.pow 2 1074)

def ofInt (i : Int) : Binary64 := ofRatio (decide (i < 0)) i.natAbs 1

def ofNat (n : Nat) : Binary64 := ofRatio false n 1

def zero : Binary64 := .finite (.zero false)

def one : Binary64 := ofNat 1

def isNegative : Binary64 → Bool
  | .nan => false
  | .inf neg => neg
  | .finite x => x.neg

def isFinite : Binary64 → Bool
  | .finite _ => true
  | _ => false

def negate : Binary64 → Binary64
  | .nan => .nan
  | .inf neg => .inf !neg
  | .finite x => .finite x.negate

def add : Binary64 → Binary64 → Binary64
  | .nan, _ => .nan
  | _, .nan => .nan
  | .inf a, .inf b => if a = b then .inf a else .nan
  | .inf a, .finite _ => .inf a
  | .finite _, .inf b => .inf b
  | .finite x, .finite y => ofUnits (x.units + y.units) (x.neg && y.neg)

def mul : Binary64 → Binary64 → Binary64
  | .nan, _ => .nan
  | _, .nan => .nan
  | .inf a, .inf b => .inf (a != b)
  | .inf a, .finite y => if y.isZero then .nan else .inf (a != y.neg)
  | .finite x, .inf b => if x.isZero then .nan else .inf (x.neg != b)
  | .finite x, .finite y =>
    ofRatio (x.neg != y.neg) (x.magnitude * y.magnitude) (Nat.pow 2 2148)

def div : Binary64 → Binary64 → Binary64
  | .nan, _ => .nan
  | _, .nan => .nan
  | .inf _, .inf _ => .nan
  | .inf a, .finite y => .inf (a != y.neg)
  | .finite x, .inf b => .finite (.zero (x.neg != b))
  | .finite x, .finite y =>
    if y.isZero then if x.isZero then .nan else .inf (x.neg != y.neg)
    else ofRatio (x.neg != y.neg) x.magnitude y.magnitude

/-- Strictly less; false when either side is not a number. -/
def lt : Binary64 → Binary64 → Bool
  | .nan, _ => false
  | _, .nan => false
  | .inf a, .inf b => a && !b
  | .inf a, .finite _ => a
  | .finite _, .inf b => !b
  | .finite x, .finite y => decide (x.units < y.units)

/-- The smaller of two; a number wins over `nan`, and of equal numbers the second is taken. -/
def min (a b : Binary64) : Binary64 :=
  match a, b with
  | .nan, b => b
  | a, .nan => a
  | a, b => if lt a b then a else b

/-- The larger of two; a number wins over `nan`, and of equal numbers the second is taken. -/
def max (a b : Binary64) : Binary64 :=
  match a, b with
  | .nan, b => b
  | a, .nan => a
  | a, b => if lt b a then a else b

/-- The integer part, clamped to `lo` and `hi`; `nan` gives zero. -/
def truncateClamped (lo hi : Int) : Binary64 → Int
  | .nan => 0
  | .inf neg => if neg then lo else hi
  | .finite x => Max.max lo (Min.min hi x.truncate)

/-- The factor of squaring-and-multiplying: `powNat a n r = r * a ^ n`, each product rounded, the
low bits of `n` first. -/
def powNat (a : Binary64) (n : Nat) (r : Binary64) : Binary64 :=
  let r := if n % 2 = 1 then r.mul a else r
  if h : n / 2 = 0 then r else powNat (a.mul a) (n / 2) r
termination_by n
decreasing_by omega

/-- `a ^ n` for an integer exponent; a negative one takes the reciprocal at the end. -/
def pow (a : Binary64) (n : Int) : Binary64 :=
  let r := powNat a n.natAbs one
  if n < 0 then one.div r else r

end Binary64

end PlaybookEngine
