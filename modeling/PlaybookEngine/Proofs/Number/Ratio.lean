import PlaybookEngine.Proofs.Number.Rounding
import Mathlib.Algebra.Order.Field.Basic
import Mathlib.Algebra.Order.Field.Power
import Mathlib.Algebra.Order.Field.Rat
import Mathlib.Data.Rat.Cast.Order
import Mathlib.Tactic.FieldSimp
import Mathlib.Tactic.Linarith
import Mathlib.Tactic.Ring

namespace PlaybookEngine.Binary64

section Quotient

variable {a b c d : Nat}

theorem divNearest_le_divNearest (hb : 0 < b) (hd : 0 < d) (h : a * d ≤ c * b) :
    divNearest a b ≤ divNearest c d := by
  calc divNearest a b = divNearest (a * d) (b * d) := (divNearest_mul_right a b hd).symm
    _ ≤ divNearest (c * b) (b * d) := divNearest_mono h
    _ = divNearest (c * b) (d * b) := by rw [Nat.mul_comm b d]
    _ = divNearest c d := divNearest_mul_right c d hb

/-- The nearest natural number is at most a half away. -/
theorem abs_divNearest_sub_le (a : Nat) (hb : 0 < b) :
    |(divNearest a b : ℚ) - a / b| ≤ 1 / 2 := by
  have hb' : (0 : ℚ) < b := Nat.cast_pos.mpr hb
  have hsplit : (a : ℚ) = b * (a / b : Nat) + (a % b : Nat) := by
    exact_mod_cast (Nat.div_add_mod a b).symm
  have hdiff : (divNearest a b : ℚ) - a / b = (divNearest a b * b - a) / b := by
    field_simp
  have hrem : ((a % b : Nat) : ℚ) < b := by exact_mod_cast Nat.mod_lt a hb
  rw [hdiff, abs_div, abs_of_pos hb', div_le_iff₀ hb', abs_le]
  rcases divNearest_cases a b with ⟨hm, hr⟩ | ⟨hm, hr⟩
  · have hr' : 2 * ((a % b : Nat) : ℚ) ≤ b := by exact_mod_cast hr
    rw [hm]
    constructor <;> linarith
  · have hr' : (b : ℚ) ≤ 2 * ((a % b : Nat) : ℚ) := by exact_mod_cast hr
    rw [hm, Nat.cast_add_one]
    constructor <;> linarith

end Quotient

section Powers

variable {k l : Int}

theorem two_zpow_pos (k : Int) : (0 : ℚ) < 2 ^ k := zpow_pos two_pos k

theorem two_zpow_le (h : k ≤ l) : (2 : ℚ) ^ k ≤ 2 ^ l := zpow_le_zpow_right₀ one_le_two h

theorem lt_of_two_zpow_lt (h : (2 : ℚ) ^ k < 2 ^ l) : k < l :=
  (zpow_lt_zpow_iff_right₀ one_lt_two).mp h

theorem two_zpow_add (k l : Int) : (2 : ℚ) ^ (k + l) = 2 ^ k * 2 ^ l := zpow_add₀ two_ne_zero k l

theorem two_zpow_natCast (n : Nat) : (2 : ℚ) ^ (n : Int) = (2 ^ n : Nat) := by
  rw [zpow_natCast, Nat.cast_pow, Nat.cast_ofNat]

theorem two_pow_mul_zpow (n : Nat) (k : Int) : ((2 ^ n : Nat) : ℚ) * 2 ^ k = 2 ^ (k + n) := by
  rw [← two_zpow_natCast, ← two_zpow_add, add_comm]

theorem two_zpow_mul_toNat (k : Int) :
    (2 : ℚ) ^ k * (2 ^ (-k).toNat : Nat) = (2 ^ k.toNat : Nat) := by
  rw [← two_zpow_natCast, ← two_zpow_natCast, ← two_zpow_add]
  congr 1
  omega

end Powers

section Ratio

variable {num den : Nat}

theorem fits_iff (hden : 0 < den) (k : Int) :
    den * 2 ^ k.toNat ≤ num * 2 ^ (-k).toNat ↔ (2 : ℚ) ^ k ≤ num / den := by
  have hden' : (0 : ℚ) < den := Nat.cast_pos.mpr hden
  have hscale : (0 : ℚ) < (2 ^ (-k).toNat : Nat) := Nat.cast_pos.mpr (Nat.two_pow_pos _)
  rw [le_div_iff₀ hden', ← mul_le_mul_iff_left₀ hscale, mul_right_comm, two_zpow_mul_toNat,
    mul_comm, ← Nat.cast_mul, ← Nat.cast_mul, Nat.cast_le]

theorem two_zpow_log2 {n : Nat} (hn : 0 < n) :
    (2 : ℚ) ^ (n.log2 : Int) ≤ n ∧ (n : ℚ) < 2 ^ ((n.log2 : Int) + 1) := by
  rw [← Nat.cast_add_one, two_zpow_natCast, two_zpow_natCast]
  exact ⟨Nat.cast_le.mpr (Nat.log2_self_le hn.ne'), Nat.cast_lt.mpr Nat.lt_log2_self⟩

/-- The ratio lies between the power of two of its logarithm and the next one. -/
theorem floorLog2_spec (hnum : 0 < num) (hden : 0 < den) :
    (2 : ℚ) ^ floorLog2 num den ≤ num / den ∧ (num / den : ℚ) < 2 ^ (floorLog2 num den + 1) := by
  have hden' : (0 : ℚ) < den := Nat.cast_pos.mpr hden
  obtain ⟨numLow, numHigh⟩ := two_zpow_log2 hnum
  obtain ⟨denLow, denHigh⟩ := two_zpow_log2 hden
  generalize hk : (num.log2 : Int) - den.log2 = k
  have low : (2 : ℚ) ^ (k - 1) ≤ num / den := by
    rw [le_div_iff₀ hden']
    calc (2 : ℚ) ^ (k - 1) * den ≤ 2 ^ (k - 1) * 2 ^ ((den.log2 : Int) + 1) :=
          mul_le_mul_of_nonneg_left denHigh.le (two_zpow_pos _).le
      _ = 2 ^ (num.log2 : Int) := by rw [← two_zpow_add]; congr 1; omega
      _ ≤ num := numLow
  have high : (num / den : ℚ) < 2 ^ (k + 1) := by
    rw [div_lt_iff₀ hden']
    calc (num : ℚ) < 2 ^ ((num.log2 : Int) + 1) := numHigh
      _ = 2 ^ (k + 1) * 2 ^ (den.log2 : Int) := by rw [← two_zpow_add]; congr 1; omega
      _ ≤ 2 ^ (k + 1) * den := mul_le_mul_of_nonneg_left denLow (two_zpow_pos _).le
  simp only [floorLog2, hk, Nat.pow_eq, fits_iff hden]
  split
  · rename_i hfits
    exact ⟨hfits, high⟩
  · rename_i hfits
    rw [sub_add_cancel]
    exact ⟨low, not_le.mp hfits⟩

/-- The exponent of the last bit that is kept of a ratio. -/
def lastPlace (num den : Nat) : Int := Max.max (floorLog2 num den - 52) (-1074)

/-- A ratio in units of its last place, rounded. -/
def significand (num den : Nat) : Nat :=
  divNearest (num * 2 ^ (-lastPlace num den).toNat) (den * 2 ^ (lastPlace num den).toNat)

/-- A ratio rounded to its last place. -/
def rounded (num den : Nat) : ℚ := significand num den * 2 ^ lastPlace num den

/-- A ratio in units of a power of two. -/
theorem scaled_eq (num : Nat) (hden : 0 < den) (e : Int) :
    ((num * 2 ^ (-e).toNat : Nat) : ℚ) / (den * 2 ^ e.toNat : Nat) = num / den / 2 ^ e := by
  have hden' : (den : ℚ) ≠ 0 := (Nat.cast_pos.mpr hden).ne'
  have hscale : ((2 ^ (-e).toNat : Nat) : ℚ) ≠ 0 := (Nat.cast_pos.mpr (Nat.two_pow_pos _)).ne'
  have hpow : (2 : ℚ) ^ e ≠ 0 := (two_zpow_pos e).ne'
  rw [Nat.cast_mul, Nat.cast_mul, ← two_zpow_mul_toNat e]
  field_simp

theorem lastPlace_ge (num den : Nat) : -1074 ≤ lastPlace num den := le_max_right _ _

theorem ratio_lt (hnum : 0 < num) (hden : 0 < den) :
    (num / den : ℚ) < 2 ^ (lastPlace num den + 53) := by
  refine (floorLog2_spec hnum hden).2.trans_le (two_zpow_le ?_)
  have : floorLog2 num den - 52 ≤ lastPlace num den := le_max_left _ _
  omega

theorem lastPlace_le {e : Int} (hnum : 0 < num) (hden : 0 < den) (he : -1074 ≤ e)
    (h : (num / den : ℚ) < 2 ^ (e + 53)) : lastPlace num den ≤ e := by
  have := lt_of_two_zpow_lt ((floorLog2_spec hnum hden).1.trans_lt h)
  rw [lastPlace]
  omega

theorem lastPlace_mono {num' den' : Nat} (hnum : 0 < num) (hden : 0 < den) (hnum' : 0 < num')
    (hden' : 0 < den') (h : (num / den : ℚ) ≤ num' / den') :
    lastPlace num den ≤ lastPlace num' den' :=
  lastPlace_le hnum hden (lastPlace_ge _ _) (h.trans_lt (ratio_lt hnum' hden'))

theorem divNearest_scaled_le {m : Nat} {e : Int} (hden : 0 < den)
    (h : (num / den : ℚ) ≤ m * 2 ^ e) :
    divNearest (num * 2 ^ (-e).toNat) (den * 2 ^ e.toNat) ≤ m := by
  have hpos : 0 < den * 2 ^ e.toNat := Nat.mul_pos hden (Nat.two_pow_pos _)
  rw [← divNearest_mul (m := m) hpos]
  refine divNearest_mono ?_
  have hscaled : ((num * 2 ^ (-e).toNat : Nat) : ℚ) / (den * 2 ^ e.toNat : Nat) ≤ m := by
    rwa [scaled_eq num hden, div_le_iff₀ (two_zpow_pos e)]
  rw [div_le_iff₀ (Nat.cast_pos.mpr hpos)] at hscaled
  exact_mod_cast hscaled

theorem le_divNearest_scaled {m : Nat} {e : Int} (hden : 0 < den)
    (h : m * 2 ^ e ≤ (num / den : ℚ)) :
    m ≤ divNearest (num * 2 ^ (-e).toNat) (den * 2 ^ e.toNat) := by
  have hpos : 0 < den * 2 ^ e.toNat := Nat.mul_pos hden (Nat.two_pow_pos _)
  conv_lhs => rw [← divNearest_mul (m := m) hpos]
  refine divNearest_mono ?_
  have hscaled : (m : ℚ) ≤ ((num * 2 ^ (-e).toNat : Nat) : ℚ) / (den * 2 ^ e.toNat : Nat) := by
    rwa [scaled_eq num hden, le_div_iff₀ (two_zpow_pos e)]
  rw [le_div_iff₀ (Nat.cast_pos.mpr hpos)] at hscaled
  exact_mod_cast hscaled

theorem significand_le (hnum : 0 < num) (hden : 0 < den) : significand num den ≤ 2 ^ 53 := by
  exact divNearest_scaled_le hden ((ratio_lt hnum hden).le.trans_eq (two_pow_mul_zpow 53 _).symm)

/-- The significand is a full one, save at the lowest exponent. -/
theorem le_significand (hnum : 0 < num) (hden : 0 < den) (h : -1074 < lastPlace num den) :
    2 ^ 52 ≤ significand num den := by
  have hplace : lastPlace num den = floorLog2 num den - 52 := by
    rw [lastPlace] at h ⊢
    omega
  refine le_divNearest_scaled hden (le_of_eq_of_le ?_ (floorLog2_spec hnum hden).1)
  rw [two_pow_mul_zpow, hplace]
  congr 1
  omega

theorem rounded_zero (hden : 0 < den) : rounded 0 den = 0 := by
  have hzero : significand 0 den = 0 :=
    Nat.le_zero.mp (divNearest_scaled_le hden (by rw [Nat.cast_zero, zero_div, zero_mul]))
  rw [rounded, hzero, Nat.cast_zero, zero_mul]

theorem rounded_mono {num' den' : Nat} (hden : 0 < den) (hden' : 0 < den')
    (h : (num / den : ℚ) ≤ num' / den') : rounded num den ≤ rounded num' den' := by
  rcases Nat.eq_zero_or_pos num with rfl | hnum
  · rw [rounded_zero hden]
    exact mul_nonneg (Nat.cast_nonneg _) (two_zpow_pos _).le
  · have hden₀ : (0 : ℚ) < den := Nat.cast_pos.mpr hden
    have hden₀' : (0 : ℚ) < den' := Nat.cast_pos.mpr hden'
    have hnum' : 0 < num' := by
      have hpos : (0 : ℚ) < num' / den' := (div_pos (Nat.cast_pos.mpr hnum) hden₀).trans_le h
      exact Nat.cast_pos.mp ((div_pos_iff_of_pos_right hden₀').mp hpos)
    rw [rounded, rounded]
    rcases (lastPlace_mono hnum hden hnum' hden' h).lt_or_eq with hlt | heq
    · -- The greater one has a full significand, which is beyond all at a lower exponent.
      have hfull := le_significand hnum' hden' ((lastPlace_ge num den).trans_lt hlt)
      calc (significand num den : ℚ) * 2 ^ lastPlace num den
          ≤ (2 ^ 53 : Nat) * 2 ^ lastPlace num den :=
            mul_le_mul_of_nonneg_right (Nat.cast_le.mpr (significand_le hnum hden))
              (two_zpow_pos _).le
        _ = 2 ^ (lastPlace num den + 53) := two_pow_mul_zpow 53 _
        _ ≤ 2 ^ (lastPlace num' den' + 52) := two_zpow_le (by omega)
        _ = (2 ^ 52 : Nat) * 2 ^ lastPlace num' den' := (two_pow_mul_zpow 52 _).symm
        _ ≤ significand num' den' * 2 ^ lastPlace num' den' :=
            mul_le_mul_of_nonneg_right (Nat.cast_le.mpr hfull) (two_zpow_pos _).le
    · refine mul_le_mul ?_ (two_zpow_le heq.le) (two_zpow_pos _).le (Nat.cast_nonneg _)
      rw [significand, significand, heq]
      refine Nat.cast_le.mpr (divNearest_le_divNearest (Nat.mul_pos hden (Nat.two_pow_pos _))
        (Nat.mul_pos hden' (Nat.two_pow_pos _)) ?_)
      rw [div_le_div_iff₀ hden₀ hden₀'] at h
      have hcross : num * den' ≤ num' * den := by exact_mod_cast h
      calc num * 2 ^ (-lastPlace num' den').toNat * (den' * 2 ^ (lastPlace num' den').toNat)
          = num * den' * (2 ^ (-lastPlace num' den').toNat * 2 ^ (lastPlace num' den').toNat) := by
            ring
        _ ≤ num' * den * (2 ^ (-lastPlace num' den').toNat * 2 ^ (lastPlace num' den').toNat) :=
            Nat.mul_le_mul_right _ hcross
        _ = _ := by ring

/-- A ratio of 53 bits at an exponent in range is its own rounding. -/
theorem rounded_of_eq {m : Nat} {e : Int} (hden : 0 < den) (hm : m < 2 ^ 53) (he : -1074 ≤ e)
    (h : (num / den : ℚ) = m * 2 ^ e) : rounded num den = m * 2 ^ e := by
  have hden₀ : (0 : ℚ) < den := Nat.cast_pos.mpr hden
  rcases Nat.eq_zero_or_pos num with rfl | hnum
  · rw [← h, rounded_zero hden, Nat.cast_zero, zero_div]
  · have hlast : lastPlace num den ≤ e := by
      refine lastPlace_le hnum hden he ?_
      rw [h]
      exact (mul_lt_mul_of_pos_right (Nat.cast_lt.mpr hm) (two_zpow_pos e)).trans_eq
        (two_pow_mul_zpow 53 e)
    have hsplit : (m : ℚ) * 2 ^ e =
        (m * 2 ^ (e - lastPlace num den).toNat : Nat) * 2 ^ lastPlace num den := by
      rw [Nat.cast_mul, ← two_zpow_natCast, mul_assoc, ← two_zpow_add]
      congr 2
      omega
    rw [hsplit] at h ⊢
    rw [rounded, significand]
    congr 2
    exact le_antisymm (divNearest_scaled_le hden h.le) (le_divNearest_scaled hden h.ge)

/-- Half a unit of the last place is lost at most. -/
theorem abs_rounded_sub_le (num : Nat) (hden : 0 < den) :
    |rounded num den - num / den| ≤ 2 ^ lastPlace num den / 2 := by
  have hpow := two_zpow_pos (lastPlace num den)
  have hnear := abs_divNearest_sub_le (num * 2 ^ (-lastPlace num den).toNat)
    (Nat.mul_pos hden (Nat.two_pow_pos (lastPlace num den).toNat))
  rw [scaled_eq num hden] at hnear
  have hdiff : rounded num den - num / den =
      (significand num den - num / den / 2 ^ lastPlace num den) * 2 ^ lastPlace num den := by
    rw [rounded, sub_mul, div_mul_cancel₀ _ hpow.ne']
  rw [hdiff, abs_mul, abs_of_pos hpow]
  calc |(significand num den : ℚ) - num / den / 2 ^ lastPlace num den| * 2 ^ lastPlace num den
      ≤ 1 / 2 * 2 ^ lastPlace num den := mul_le_mul_of_nonneg_right hnear hpow.le
    _ = 2 ^ lastPlace num den / 2 := one_div_mul_eq_div _ _

end Ratio

section Nearest

variable {p q : ℚ}

/-- The number nearest to an exact one, as if there were no largest number. -/
def nearest (q : ℚ) : ℚ := rounded q.num.toNat q.den

theorem toNat_num_div_den (hq : 0 ≤ q) : (q.num.toNat : ℚ) / q.den = q := by
  have hnum : (q.num.toNat : Int) = q.num := Int.toNat_of_nonneg (Rat.num_nonneg.mpr hq)
  rw [← Int.cast_natCast, hnum, Rat.num_div_den]

/-- Rounding a ratio depends on its value alone. -/
theorem rounded_eq_nearest (num : Nat) {den : Nat} (hden : 0 < den) :
    rounded num den = nearest (num / den) := by
  have hvalue := toNat_num_div_den (q := num / den) (by positivity)
  exact le_antisymm (rounded_mono hden (Rat.den_pos _) hvalue.ge)
    (rounded_mono (Rat.den_pos _) hden hvalue.le)

theorem nearest_mono (hp : 0 ≤ p) (h : p ≤ q) : nearest p ≤ nearest q := by
  refine rounded_mono p.den_pos q.den_pos ?_
  rwa [toNat_num_div_den hp, toNat_num_div_den (hp.trans h)]

theorem nearest_eq_self {m : Nat} {e : Int} (hm : m < 2 ^ 53) (he : -1074 ≤ e) :
    nearest (m * 2 ^ e) = m * 2 ^ e :=
  rounded_of_eq (Rat.den_pos _) hm he
    (toNat_num_div_den (mul_nonneg (Nat.cast_nonneg _) (two_zpow_pos e).le))

theorem nearest_natCast {n : Nat} (hn : n < 2 ^ 53) : nearest n = n := by
  have h := nearest_eq_self (e := 0) hn (by decide)
  rwa [zpow_zero, mul_one] at h

/-- The relative error of one rounding. -/
def unit : ℚ := 2 ^ (-53 : Int)

/-- A number that is not too small loses one part in `2 ^ 53` at most. -/
theorem abs_nearest_sub_le (hq : 2 ^ (-1022 : Int) ≤ q) : |nearest q - q| ≤ unit * q := by
  have hpos : 0 < q := (two_zpow_pos _).trans_le hq
  have hnum : 0 < q.num.toNat := by
    have := Rat.num_pos.mpr hpos
    omega
  have hvalue := toNat_num_div_den hpos.le
  have hspec := floorLog2_spec hnum q.den_pos
  have hnear := abs_rounded_sub_le q.num.toNat q.den_pos
  rw [hvalue] at hspec hnear
  have hlarge := lt_of_two_zpow_lt (hq.trans_lt hspec.2)
  have hplace : lastPlace q.num.toNat q.den = floorLog2 q.num.toNat q.den - 52 := by
    rw [lastPlace]
    omega
  calc |nearest q - q| ≤ 2 ^ lastPlace q.num.toNat q.den / 2 := hnear
    _ = unit * 2 ^ floorLog2 q.num.toNat q.den := by
        rw [unit, ← two_zpow_add, div_eq_iff two_ne_zero, ← zpow_add_one₀ two_ne_zero, hplace]
        congr 1
        omega
    _ ≤ unit * q := mul_le_mul_of_nonneg_left hspec.1 (two_zpow_pos _).le

end Nearest

section Extent

/-- The exact size, whatever the sign. -/
def Finite.size (x : Finite) : ℚ := x.mant * 2 ^ x.exp

def Finite.value (x : Finite) : ℚ := if x.neg then -x.size else x.size

/-- The exact value of a number that is finite. -/
def value : Binary64 → ℚ
  | .finite x => x.value
  | _ => 0

/-- The size of a number, without an upper limit for what is not finite. -/
def extent : Binary64 → WithTop ℚ
  | .finite x => x.size
  | _ => ⊤

/-- There is no finite number from `2 ^ 1024` upward. -/
def bounded (q : ℚ) : WithTop ℚ := if q < 2 ^ (1024 : Int) then q else ⊤

theorem bounded_mono {p q : ℚ} (h : p ≤ q) : bounded p ≤ bounded q := by
  rw [bounded, bounded]
  split_ifs with hp hq
  · exact WithTop.coe_le_coe.mpr h
  · exact le_top
  · exact absurd (h.trans_lt ‹_›) hp
  · exact le_rfl

namespace Finite

theorem size_nonneg (x : Finite) : 0 ≤ x.size :=
  mul_nonneg (Nat.cast_nonneg _) (two_zpow_pos _).le

theorem mant_lt (x : Finite) : x.mant < 2 ^ 53 := by
  rcases x.canonical with ⟨h, -⟩ | ⟨-, h, -⟩ <;> exact h

theorem size_lt (x : Finite) : x.size < 2 ^ (1024 : Int) := by
  have hexp : x.exp ≤ 971 := by
    rcases x.canonical with ⟨-, h⟩ | ⟨-, -, -, h⟩ <;> omega
  calc x.size < (2 ^ 53 : Nat) * 2 ^ x.exp :=
        mul_lt_mul_of_pos_right (Nat.cast_lt.mpr x.mant_lt) (two_zpow_pos _)
    _ = 2 ^ (x.exp + 53) := two_pow_mul_zpow 53 _
    _ ≤ 2 ^ (1024 : Int) := two_zpow_le (by omega)

theorem nearest_size (x : Finite) : nearest x.size = x.size := nearest_eq_self x.mant_lt x.exp_ge

end Finite

theorem bounded_size (x : Finite) : bounded x.size = x.size := if_pos x.size_lt

/-- What becomes of a significand and an exponent: the number itself, or one beyond the finite ones,
also when rounding has carried into a further bit. -/
theorem extent_of_significand (neg : Bool) {m : Nat} {e : Int} (hm : m ≤ 2 ^ 53) (he : -1074 ≤ e)
    (hfull : -1074 < e → 2 ^ 52 ≤ m) :
    extent (let (m, e) := if m = 0x20_0000_0000_0000 then (0x10_0000_0000_0000, e + 1) else (m, e)
      if h : IsCanonical m e then .finite ⟨neg, m, e, h⟩ else .inf neg) =
        bounded (m * 2 ^ e) := by
  have carried (h : m = 0x20_0000_0000_0000) :
      (m : ℚ) * 2 ^ e = (0x10_0000_0000_0000 : Nat) * 2 ^ (e + 1) := by
    rw [h, zpow_add_one₀ two_ne_zero]
    push_cast
    ring
  have beyond {m : Nat} {e : Int} (hm : 2 ^ 52 ≤ m) (he : 971 < e) :
      ¬ (m : ℚ) * 2 ^ e < 2 ^ (1024 : Int) := by
    refine not_lt.mpr ?_
    calc (2 : ℚ) ^ (1024 : Int) ≤ 2 ^ (e + 52) := two_zpow_le (by omega)
      _ = (2 ^ 52 : Nat) * 2 ^ e := (two_pow_mul_zpow 52 e).symm
      _ ≤ m * 2 ^ e := mul_le_mul_of_nonneg_right (Nat.cast_le.mpr hm) (two_zpow_pos _).le
  by_cases hcarry : m = 0x20_0000_0000_0000
  · simp only [if_pos hcarry]
    rw [carried hcarry]
    split
    · rename_i h
      exact (bounded_size ⟨neg, _, _, h⟩).symm
    · rename_i h
      refine (if_neg (beyond (by decide) ?_)).symm
      by_contra hle
      exact h (.inr ⟨by decide, by decide, by omega, by omega⟩)
  · simp only [if_neg hcarry]
    split
    · rename_i h
      exact (bounded_size ⟨neg, _, _, h⟩).symm
    · rename_i h
      have hlow : -1074 < e := by
        by_contra hle
        exact h (.inl ⟨by omega, by omega⟩)
      refine (if_neg (beyond (hfull hlow) ?_)).symm
      by_contra hle
      exact h (.inr ⟨hfull hlow, by omega, hlow, by omega⟩)

/-- A ratio becomes the number nearest to it, or one beyond the finite ones. -/
theorem extent_ofRatio (neg : Bool) (num : Nat) {den : Nat} (hden : 0 < den) :
    (ofRatio neg num den).extent = bounded (nearest (num / den)) := by
  rw [← rounded_eq_nearest num hden]
  rcases Nat.eq_zero_or_pos num with rfl | hnum
  · rw [rounded_zero hden]
    exact ((congrArg bounded (zero_mul _).symm).trans (bounded_size (.zero neg))).symm
  · simp only [ofRatio, if_neg hnum.ne']
    exact extent_of_significand neg (significand_le hnum hden) (lastPlace_ge num den)
      (le_significand hnum hden)

theorem sign_of_significand (neg : Bool) (m : Nat) (e : Int) :
    let x : Binary64 :=
      let (m, e) := if m = 0x20_0000_0000_0000 then (0x10_0000_0000_0000, e + 1) else (m, e)
      if h : IsCanonical m e then .finite ⟨neg, m, e, h⟩ else .inf neg
    x.isNegative = neg ∧ x ≠ .nan := by
  have number (x : Finite) : Binary64.finite x ≠ .nan := fun h => by cases h
  have infinite : Binary64.inf neg ≠ .nan := fun h => by cases h
  by_cases hcarry : m = 0x20_0000_0000_0000
  · simp only [if_pos hcarry]
    split
    · exact ⟨rfl, number _⟩
    · exact ⟨rfl, infinite⟩
  · simp only [if_neg hcarry]
    split
    · exact ⟨rfl, number _⟩
    · exact ⟨rfl, infinite⟩

/-- Rounding keeps the sign, and its result is a number. -/
theorem ofRatio_sign (neg : Bool) (num den : Nat) :
    (ofRatio neg num den).isNegative = neg ∧ ofRatio neg num den ≠ .nan := by
  by_cases hnum : num = 0
  · rw [ofRatio, if_pos hnum]
    exact ⟨rfl, fun h => by cases h⟩
  · simp only [ofRatio, if_neg hnum]
    exact sign_of_significand neg _ _

end Extent

end PlaybookEngine.Binary64
