import PlaybookEngine.Proofs.Number.Ratio
import Mathlib.Data.Nat.EvenOddRec

namespace PlaybookEngine

section Squaring

variable {α β : Type} {mul : α → α → α} {mul' : β → β → β} {a r : α} {b s : β}

/-- `r * a ^ n` for any product, by squaring and multiplying: the low bits of `n` come first. -/
def powBy (mul : α → α → α) (a : α) (n : Nat) (r : α) : α :=
  let r := if n % 2 = 1 then mul r a else r
  if n / 2 = 0 then r else powBy mul (mul a a) (n / 2) r
termination_by n
decreasing_by omega

theorem powBy_zero : powBy mul a 0 r = r := by
  rw [powBy]
  rfl

theorem powBy_two_mul (n : Nat) : powBy mul a (2 * n) r = powBy mul (mul a a) n r := by
  have hbit : ¬ 2 * n % 2 = 1 := by omega
  have hrest : 2 * n / 2 = n := by omega
  rw [powBy]
  simp only [if_neg hbit, hrest]
  split
  · rename_i hn
    rw [hn, powBy_zero]
  · rfl

theorem powBy_two_mul_add_one (n : Nat) :
    powBy mul a (2 * n + 1) r = powBy mul (mul a a) n (mul r a) := by
  have hbit : (2 * n + 1) % 2 = 1 := by omega
  have hrest : (2 * n + 1) / 2 = n := by omega
  rw [powBy]
  simp only [if_pos hbit, hrest]
  split
  · rename_i hn
    rw [hn, powBy_zero]
  · rfl

/-- What every product keeps, the power keeps. -/
theorem powBy_rel (mul : α → α → α) (mul' : β → β → β) {R : α → β → Prop}
    (hmul : ∀ {x y : α} {u v : β}, R x u → R y v → R (mul x y) (mul' u v)) (n : Nat)
    (ha : R a b) (hr : R r s) : R (powBy mul a n r) (powBy mul' b n s) := by
  induction n using Nat.evenOddRec generalizing a r b s with
  | h0 => rwa [powBy_zero, powBy_zero]
  | h_even n ih =>
    rw [powBy_two_mul, powBy_two_mul]
    exact ih (hmul ha ha) hr
  | h_odd n ih =>
    rw [powBy_two_mul_add_one, powBy_two_mul_add_one]
    exact ih (hmul ha ha) (hmul hr ha)

/-- A power does not fall when the exponent grows, however products are rounded, if that keeps their
order and leaves alone a product with one. -/
theorem powBy_le_powBy_succ {γ : Type} [Preorder γ] {size : α → γ} {one : α}
    (hmul : ∀ {x x' y y' : α}, size x ≤ size x' → size y ≤ size y' →
      size (mul x y) ≤ size (mul x' y'))
    (hone : ∀ x, size (mul one x) = size x) (n : Nat) (hra : size r ≤ size a) :
    size (powBy mul a n r) ≤ size (powBy mul a (n + 1) one) := by
  -- On the bits of `n`: `r` has taken in all the ones below, and adding one clears them.
  induction n using Nat.evenOddRec generalizing a r with
  | h0 =>
    have hnext : powBy mul a (0 + 1) one = mul one a :=
      (powBy_two_mul_add_one 0).trans powBy_zero
    rw [powBy_zero, hnext]
    exact hra.trans_eq (hone a).symm
  | h_even n ih =>
    rw [powBy_two_mul, powBy_two_mul_add_one]
    exact powBy_rel mul mul (R := fun x y => size x ≤ size y) hmul n le_rfl
      (hra.trans_eq (hone a).symm)
  | h_odd n ih =>
    have hcarry : 2 * n + 1 + 1 = 2 * (n + 1) := by ring
    rw [powBy_two_mul_add_one, hcarry, powBy_two_mul]
    exact ih (hmul hra le_rfl)

theorem powBy_eq_mul_pow {M : Type} [Monoid M] (a : M) (n : Nat) (r : M) :
    powBy (· * ·) a n r = r * a ^ n := by
  induction n using Nat.evenOddRec generalizing a r with
  | h0 => rw [powBy_zero, pow_zero, mul_one]
  | h_even n ih => rw [powBy_two_mul, ih, ← pow_two, ← pow_mul]
  | h_odd n ih => rw [powBy_two_mul_add_one, ih, ← pow_two, ← pow_mul, mul_assoc, ← pow_succ']

end Squaring

namespace Binary64

theorem powNat_eq (a : Binary64) (n : Nat) (r : Binary64) : powNat a n r = powBy mul a n r := by
  fun_induction powNat a n r with
  | case1 a n r r' h => rw [powBy]; exact (if_pos h).symm
  | case2 a n r r' h ih => rw [powBy, ih]; exact (if_neg h).symm

namespace Finite

/-- The magnitude counts units of `2 ^ (-1074)`. -/
theorem cast_magnitude (x : Finite) : (x.magnitude : ℚ) = x.size * 2 ^ (1074 : Int) := by
  have hexp : ((x.exp + 1074).toNat : Int) = x.exp + 1074 := by
    have := x.exp_ge
    omega
  rw [magnitude, Nat.pow_eq, Nat.cast_mul, ← two_zpow_natCast, hexp, two_zpow_add, size, mul_assoc]

theorem size_lt_size_iff {x y : Finite} : x.size < y.size ↔ x.magnitude < y.magnitude := by
  rw [← Nat.cast_lt (α := ℚ), cast_magnitude, cast_magnitude, mul_lt_mul_iff_left₀ (two_zpow_pos _)]

theorem units_of_unsigned {x : Finite} (h : x.neg = false) : x.units = x.magnitude := by
  rw [units, h]
  rfl

theorem value_of_unsigned {x : Finite} (h : x.neg = false) : x.value = x.size := by
  rw [value, h]
  rfl

theorem magnitude_div (x y : Finite) : (x.magnitude : ℚ) / y.magnitude = x.size / y.size := by
  rw [cast_magnitude, cast_magnitude, mul_div_mul_right _ _ (two_zpow_pos 1074).ne']

end Finite

section Product

variable {x x' y y' : Binary64}

theorem extent_mul_finite (x y : Finite) :
    (mul (.finite x) (.finite y)).extent = bounded (nearest (x.size * y.size)) := by
  rw [mul]
  -- The exponent of the unit is a variable here: a closed power of that size is not evaluated.
  generalize ht : 2148 = t
  have hpos : 0 < Nat.pow 2 t := Nat.two_pow_pos t
  have hunit : ((Nat.pow 2 t : Nat) : ℚ) = 2 ^ (1074 : Int) * 2 ^ (1074 : Int) := by
    rw [Nat.pow_eq, ← two_zpow_natCast, ← two_zpow_add, ← ht]
    rfl
  rw [extent_ofRatio _ _ hpos, hunit, Nat.cast_mul, x.cast_magnitude,
    y.cast_magnitude, mul_mul_mul_comm, mul_div_assoc,
    div_self (mul_pos (two_zpow_pos _) (two_zpow_pos _)).ne', mul_one]

theorem extent_mul_left (h : x.extent = ⊤) (y : Binary64) : (x.mul y).extent = ⊤ := by
  cases x with
  | nan => rfl
  | inf a =>
    cases y with
    | nan => rfl
    | inf b => rfl
    | finite y =>
      rw [mul]
      split <;> rfl
  | finite x => exact absurd h WithTop.coe_ne_top

theorem extent_mul_right (x : Binary64) (h : y.extent = ⊤) : (x.mul y).extent = ⊤ := by
  cases y with
  | nan => cases x <;> rfl
  | inf b =>
    cases x with
    | nan => rfl
    | inf a => rfl
    | finite x =>
      rw [mul]
      split <;> rfl
  | finite y => exact absurd h WithTop.coe_ne_top

theorem exists_finite_of_extent_ne_top (h : x.extent ≠ ⊤) : ∃ v, x = .finite v := by
  cases x with
  | nan => exact absurd rfl h
  | inf a => exact absurd rfl h
  | finite v => exact ⟨v, rfl⟩

theorem extent_mul_comm (x y : Binary64) : (x.mul y).extent = (y.mul x).extent := by
  by_cases hx : x.extent = ⊤
  · rw [extent_mul_left hx, extent_mul_right y hx]
  by_cases hy : y.extent = ⊤
  · rw [extent_mul_right x hy, extent_mul_left hy]
  obtain ⟨v, rfl⟩ := exists_finite_of_extent_ne_top hx
  obtain ⟨w, rfl⟩ := exists_finite_of_extent_ne_top hy
  rw [extent_mul_finite, extent_mul_finite, mul_comm]

/-- Rounding keeps the order of products. -/
theorem extent_mul_le (hx : x.extent ≤ x'.extent) (hy : y.extent ≤ y'.extent) :
    (x.mul y).extent ≤ (x'.mul y').extent := by
  by_cases hx' : x'.extent = ⊤
  · rw [extent_mul_left hx']
    exact le_top
  by_cases hy' : y'.extent = ⊤
  · rw [extent_mul_right x' hy']
    exact le_top
  obtain ⟨v, rfl⟩ := exists_finite_of_extent_ne_top (ne_top_of_le_ne_top hx' hx)
  obtain ⟨w, rfl⟩ := exists_finite_of_extent_ne_top (ne_top_of_le_ne_top hy' hy)
  obtain ⟨v', rfl⟩ := exists_finite_of_extent_ne_top hx'
  obtain ⟨w', rfl⟩ := exists_finite_of_extent_ne_top hy'
  rw [extent_mul_finite, extent_mul_finite]
  refine bounded_mono (nearest_mono (mul_nonneg v.size_nonneg w.size_nonneg) ?_)
  exact mul_le_mul (WithTop.coe_le_coe.mp hx) (WithTop.coe_le_coe.mp hy) w.size_nonneg
    v'.size_nonneg

/-- An integer of 53 bits is a number of its own. -/
theorem exists_ofNat_eq {n : Nat} (hn : n < 2 ^ 53) :
    ∃ v : Finite, ofNat n = .finite v ∧ v.neg = false ∧ v.size = n := by
  have hextent : (ofNat n).extent = (n : ℚ) := by
    have hlt : (n : ℚ) < 2 ^ (1024 : Int) :=
      ((Nat.cast_lt.mpr hn).trans_eq (two_zpow_natCast 53).symm).trans_le (two_zpow_le (by decide))
    rw [ofNat, extent_ofRatio false n Nat.one_pos, Nat.cast_one, div_one, nearest_natCast hn,
      bounded, if_pos hlt]
  obtain ⟨v, hv⟩ := exists_finite_of_extent_ne_top (hextent ▸ WithTop.coe_ne_top)
  refine ⟨v, hv, ?_, ?_⟩
  · have hsign := (ofRatio_sign false n 1).1
    rw [show ofRatio false n 1 = .finite v from hv] at hsign
    exact hsign
  · rw [hv] at hextent
    exact WithTop.coe_injective hextent

theorem extent_one : one.extent = (1 : ℚ) := by
  obtain ⟨v, hv, -, hsize⟩ := exists_ofNat_eq (n := 1) (by decide)
  rw [one, hv, extent, hsize, Nat.cast_one]

theorem extent_one_mul (x : Binary64) : (one.mul x).extent = x.extent := by
  obtain ⟨v, hv, -, hsize⟩ := exists_ofNat_eq (n := 1) (by decide)
  cases x with
  | finite x =>
    rw [one, hv, extent_mul_finite, hsize, Nat.cast_one, one_mul, x.nearest_size, bounded_size]
    rfl
  | nan => exact extent_mul_right one rfl
  | inf a => exact extent_mul_right one rfl

theorem isNegative_mul (hx : x.isNegative = false) (hy : y.isNegative = false) :
    (x.mul y).isNegative = false := by
  cases x with
  | nan => rfl
  | inf a =>
    obtain rfl : a = false := hx
    cases y with
    | nan => rfl
    | inf b =>
      obtain rfl : b = false := hy
      rfl
    | finite y =>
      have hy' : y.neg = false := hy
      rw [mul, hy']
      split <;> rfl
  | finite x =>
    have hx' : x.neg = false := hx
    cases y with
    | nan => rfl
    | inf b =>
      obtain rfl : b = false := hy
      rw [mul, hx']
      split <;> rfl
    | finite y =>
      have hy' : y.neg = false := hy
      rw [mul, hx', hy']
      exact (ofRatio_sign _ _ _).1

end Product

theorem extent_nonneg (x : Binary64) : ((0 : ℚ) : WithTop ℚ) ≤ x.extent := by
  cases x with
  | finite x => exact WithTop.coe_le_coe.mpr x.size_nonneg
  | nan => exact le_top
  | inf a => exact le_top

/-- The numbers from one upward, infinity included. -/
structure AtLeastOne (x : Binary64) : Prop where
  isNumber : x ≠ .nan
  unsigned : x.isNegative = false
  one_le : ((1 : ℚ) : WithTop ℚ) ≤ x.extent

theorem Finite.isZero_of_one_le {x : Finite} (h : 1 ≤ x.size) : x.isZero = false := by
  refine beq_eq_false_iff_ne.mpr fun hzero => ?_
  rw [size, hzero, Nat.cast_zero, zero_mul] at h
  exact absurd h (not_le.mpr one_pos)

namespace AtLeastOne

variable {x y a : Binary64}

theorem one : AtLeastOne one := ⟨(ofRatio_sign false 1 1).2, (ofRatio_sign false 1 1).1,
  extent_one.ge⟩

theorem mul (hx : AtLeastOne x) (hy : AtLeastOne y) : AtLeastOne (x.mul y) where
  isNumber := by
    cases x with
    | nan => exact absurd rfl hx.isNumber
    | inf a =>
      cases y with
      | nan => exact absurd rfl hy.isNumber
      | inf b => exact nofun
      | finite y =>
        rw [Binary64.mul, Finite.isZero_of_one_le (WithTop.coe_le_coe.mp hy.one_le)]
        exact nofun
    | finite x =>
      cases y with
      | nan => exact absurd rfl hy.isNumber
      | inf b =>
        rw [Binary64.mul, Finite.isZero_of_one_le (WithTop.coe_le_coe.mp hx.one_le)]
        exact nofun
      | finite y =>
        rw [Binary64.mul]
        exact (ofRatio_sign _ _ _).2
  unsigned := isNegative_mul hx.unsigned hy.unsigned
  one_le := by
    rw [← extent_one, ← extent_one_mul Binary64.one]
    exact extent_mul_le (extent_one ▸ hx.one_le) (extent_one ▸ hy.one_le)

theorem powNat (ha : AtLeastOne a) (n : Nat) : AtLeastOne (powNat a n Binary64.one) := by
  rw [powNat_eq]
  exact powBy_rel Binary64.mul (fun _ _ => ()) (R := fun x (_ : Unit) => AtLeastOne x)
    AtLeastOne.mul n (b := ()) (s := ()) ha .one

end AtLeastOne

/-- Powers of a number from one upward do not fall when the exponent grows. -/
theorem extent_powNat_le_succ {a : Binary64} (ha : AtLeastOne a) (n : Nat) :
    (powNat a n one).extent ≤ (powNat a (n + 1) one).extent := by
  rw [powNat_eq, powNat_eq]
  exact powBy_le_powBy_succ extent_mul_le extent_one_mul n (extent_one ▸ ha.one_le)

section Reciprocal

variable {x y : Binary64}

theorem extent_one_div_finite {x : Finite} (hx : 1 ≤ x.size) :
    (one.div (.finite x)).extent = bounded (nearest (1 / x.size)) := by
  obtain ⟨v, hv, -, hsize⟩ := exists_ofNat_eq (n := 1) (by decide)
  have hpos : 0 < x.magnitude := by
    have := mul_pos (one_pos.trans_le hx) (two_zpow_pos 1074)
    rw [← x.cast_magnitude] at this
    exact Nat.cast_pos.mp this
  rw [one, hv, div, Finite.isZero_of_one_le hx]
  simp only [Bool.false_eq_true, if_false]
  rw [extent_ofRatio _ _ hpos, Finite.magnitude_div, hsize, Nat.cast_one]

theorem extent_one_div_one : (one.div one).extent = one.extent := by
  obtain ⟨v, hv, -, hsize⟩ := exists_ofNat_eq (n := 1) (by decide)
  have hone : v.size = 1 := by rw [hsize, Nat.cast_one]
  have hdiv := extent_one_div_finite hone.ge
  rw [hone, div_one, ← hone, v.nearest_size, bounded_size, ← hv] at hdiv
  rw [extent_one, ← hone]
  exact hdiv

/-- The greater a number from one upward, the smaller its reciprocal. -/
theorem extent_one_div_le (hx : AtLeastOne x) (hy : AtLeastOne y) (h : x.extent ≤ y.extent) :
    (one.div y).extent ≤ (one.div x).extent := by
  cases y with
  | nan => exact absurd rfl hy.isNumber
  | inf b =>
    obtain ⟨v, hv, -⟩ := exists_ofNat_eq (n := 1) (by decide)
    have hzero : (one.div (.inf b)).extent = (0 : ℚ) := by
      rw [one, hv]
      exact congrArg WithTop.some (zero_mul _)
    exact hzero ▸ extent_nonneg _
  | finite y =>
    obtain ⟨x, rfl⟩ := exists_finite_of_extent_ne_top (ne_top_of_le_ne_top WithTop.coe_ne_top h)
    have hx' : 1 ≤ x.size := WithTop.coe_le_coe.mp hx.one_le
    have hy' : 1 ≤ y.size := WithTop.coe_le_coe.mp hy.one_le
    rw [extent_one_div_finite hx', extent_one_div_finite hy']
    refine bounded_mono (nearest_mono (one_div_nonneg.mpr y.size_nonneg) ?_)
    exact one_div_le_one_div_of_le (one_pos.trans_le hx') (WithTop.coe_le_coe.mp h)

theorem isNegative_one_div (hx : AtLeastOne x) : (one.div x).isNegative = false := by
  obtain ⟨v, hv, hneg, -⟩ := exists_ofNat_eq (n := 1) (by decide)
  rw [one, hv]
  cases x with
  | nan => rfl
  | inf b =>
    obtain rfl : b = false := hx.unsigned
    rw [div, hneg]
    rfl
  | finite x =>
    have hx' : x.neg = false := hx.unsigned
    rw [div, Finite.isZero_of_one_le (WithTop.coe_le_coe.mp hx.one_le), hneg, hx']
    exact (ofRatio_sign _ _ _).1

end Reciprocal

section Accuracy

variable {x y : Binary64} {k l : Nat} {p q : ℚ}

/-- A number from one upward with `k` roundings at most between it and the exact `q`. Beyond the
finite numbers it stands for one that is too large for them. -/
def Rounds (x : Binary64) (k : Nat) (q : ℚ) : Prop :=
  ∃ v, 1 ≤ v ∧ (1 - unit) ^ k * q ≤ v ∧ v ≤ (1 + unit) ^ k * q ∧ x.extent = bounded v

theorem Rounds.of_size {v : Finite} (hv : 1 ≤ v.size) : Rounds (.finite v) 0 v.size :=
  ⟨v.size, hv, by rw [pow_zero, one_mul], by rw [pow_zero, one_mul], (bounded_size v).symm⟩

theorem unit_pos : 0 < unit := two_zpow_pos _

theorem unit_lt_one : unit < 1 := zpow_lt_one_of_neg₀ one_lt_two (by decide)

/-- The product of exact numbers that two are near to, rounded once more. -/
theorem exists_product (v w : ℚ) (hv : 1 ≤ v) (hw : 1 ≤ w)
    (hx : x.extent = bounded v) (hy : y.extent = bounded w) :
    ∃ z, 1 ≤ z ∧ (1 - unit) * (v * w) ≤ z ∧ z ≤ (1 + unit) * (v * w) ∧
      (x.mul y).extent = bounded z := by
  have hvw : 1 ≤ v * w := one_le_mul_of_one_le_of_one_le hv hw
  by_cases hfinite : v < 2 ^ (1024 : Int) ∧ w < 2 ^ (1024 : Int)
  · obtain ⟨hv', hw'⟩ := hfinite
    rw [bounded, if_pos hv'] at hx
    rw [bounded, if_pos hw'] at hy
    obtain ⟨a, rfl⟩ := exists_finite_of_extent_ne_top (hx ▸ WithTop.coe_ne_top)
    obtain ⟨b, rfl⟩ := exists_finite_of_extent_ne_top (hy ▸ WithTop.coe_ne_top)
    obtain rfl : a.size = v := WithTop.coe_injective hx
    obtain rfl : b.size = w := WithTop.coe_injective hy
    have hnormal : (2 : ℚ) ^ (-1022 : Int) ≤ a.size * b.size :=
      (zpow_le_one_of_nonpos₀ one_le_two (by decide)).trans hvw
    obtain ⟨hlo, hhi⟩ := abs_le.mp (abs_nearest_sub_le hnormal)
    refine ⟨nearest (a.size * b.size), ?_, by linarith, by linarith, extent_mul_finite a b⟩
    have hone := nearest_natCast (n := 1) (by decide)
    rw [Nat.cast_one] at hone
    exact hone.symm.trans_le (nearest_mono zero_le_one hvw)
  · have hover : 2 ^ (1024 : Int) ≤ v * w ∧ (x.mul y).extent = ⊤ := by
      rcases not_and_or.mp hfinite with hv' | hw'
      · refine ⟨(not_lt.mp hv').trans (le_mul_of_one_le_right (zero_le_one.trans hv) hw), ?_⟩
        exact extent_mul_left (hx.trans (if_neg hv')) y
      · refine ⟨(not_lt.mp hw').trans (le_mul_of_one_le_left (zero_le_one.trans hw) hv), ?_⟩
        exact extent_mul_right x (hy.trans (if_neg hw'))
    have hunit : 0 ≤ unit * (v * w) := mul_nonneg unit_pos.le (zero_le_one.trans hvw)
    exact ⟨v * w, hvw, by linarith, by linarith,
      hover.2.trans (if_neg (not_lt.mpr hover.1)).symm⟩

/-- A product adds up the roundings of its factors, and its own. -/
theorem Rounds.mul (hx : Rounds x k p) (hy : Rounds y l q) :
    Rounds (x.mul y) (k + l + 1) (p * q) := by
  obtain ⟨v, hv, hvlo, hvhi, hxv⟩ := hx
  obtain ⟨w, hw, hwlo, hwhi, hyw⟩ := hy
  obtain ⟨z, hz, hzlo, hzhi, hxy⟩ := exists_product v w hv hw hxv hyw
  have hlow : 0 ≤ 1 - unit := by linarith [unit_lt_one]
  have hhigh : 0 ≤ 1 + unit := by linarith [unit_pos]
  have hq : 0 ≤ q := by
    by_contra hneg
    have : (1 + unit) ^ l * q ≤ 0 :=
      mul_nonpos_of_nonneg_of_nonpos (pow_nonneg hhigh l) (not_le.mp hneg).le
    linarith
  refine ⟨z, hz, ?_, ?_, hxy⟩
  · calc (1 - unit) ^ (k + l + 1) * (p * q)
        = (1 - unit) * ((1 - unit) ^ k * p * ((1 - unit) ^ l * q)) := by ring
      _ ≤ (1 - unit) * (v * w) := mul_le_mul_of_nonneg_left
          (mul_le_mul hvlo hwlo (mul_nonneg (pow_nonneg hlow l) hq) (by linarith)) hlow
      _ ≤ z := hzlo
  · calc z ≤ (1 + unit) * (v * w) := hzhi
      _ ≤ (1 + unit) * ((1 + unit) ^ k * p * ((1 + unit) ^ l * q)) := mul_le_mul_of_nonneg_left
          (mul_le_mul hvhi hwhi (by linarith) (by linarith)) hhigh
      _ = (1 + unit) ^ (k + l + 1) * (p * q) := by ring

/-- The roundings of a power: one for each time that the base goes into it. -/
theorem powBy_roundings (k : Nat) (a : ℚ) (n l : Nat) (r : ℚ) :
    powBy (fun u v : Nat × ℚ => (u.1 + v.1 + 1, u.2 * v.2)) (k, a) n (l, r) =
      (l + n * (k + 1), r * a ^ n) := by
  induction n using Nat.evenOddRec generalizing k a l r with
  | h0 => rw [powBy_zero, pow_zero, mul_one, Nat.zero_mul, Nat.add_zero]
  | h_even n ih =>
    rw [powBy_two_mul, ih, ← pow_two, ← pow_mul]
    exact Prod.ext (by ring) rfl
  | h_odd n ih =>
    rw [powBy_two_mul_add_one, ih, ← pow_two, ← pow_mul, mul_assoc, ← pow_succ']
    exact Prod.ext (by ring) rfl

/-- A power is exact but for as many roundings as its exponent says. -/
theorem rounds_powNat {a : Finite} (ha : 1 ≤ a.size) (n : Nat) :
    Rounds (powNat (.finite a) n one) n (a.size ^ n) := by
  obtain ⟨v, hv, -, hsize⟩ := exists_ofNat_eq (n := 1) (by decide)
  have hone : Rounds one 0 1 := by
    have h := Rounds.of_size (v := v) (by rw [hsize, Nat.cast_one])
    rwa [hsize, Nat.cast_one, ← hv] at h
  have hpow := powBy_rel mul (fun u v => (u.1 + v.1 + 1, u.2 * v.2))
    (R := fun x (u : Nat × ℚ) => Rounds x u.1 u.2) Rounds.mul n
    (b := (0, a.size)) (s := (0, 1)) (Rounds.of_size ha) hone
  rw [powBy_roundings, ← powNat_eq] at hpow
  simpa using hpow

end Accuracy

end Binary64

end PlaybookEngine
