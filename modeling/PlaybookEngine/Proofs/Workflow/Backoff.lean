import PlaybookEngine.Proofs.Number.Power
import PlaybookEngine.Settings.Basic
import Mathlib.Algebra.Order.Floor.Semifield
import Mathlib.Data.Rat.Floor

namespace PlaybookEngine

/-- The arithmetic that a delay is computed in. -/
structure Arithmetic (α : Type) where
  ofNat : Nat → α
  mul : α → α → α
  div : α → α → α
  min : α → α → α
  /-- The whole part, as an unsigned word of 64 bits. -/
  whole : α → Nat

namespace Arithmetic

def pow {α : Type} (A : Arithmetic α) (a : α) (n : Int) : α :=
  let r := powBy A.mul a n.natAbs (A.ofNat 1)
  if n < 0 then A.div (A.ofNat 1) r else r

def rounded : Arithmetic Binary64 where
  ofNat := .ofNat
  mul := .mul
  div := .div
  min := .min
  whole x := (x.truncateClamped 0 (0x1_0000_0000_0000_0000 - 1)).toNat

def exact : Arithmetic ℚ where
  ofNat n := n
  mul := (· * ·)
  div := (· / ·)
  min := Min.min
  whole q := Min.min ⌊q⌋₊ (0x1_0000_0000_0000_0000 - 1)

theorem pow_rounded (a : Binary64) (n : Int) : rounded.pow a n = a.pow n := by
  rw [Binary64.pow, Binary64.powNat_eq]
  rfl

theorem pow_exact (a : ℚ) (n : Int) : exact.pow a n = a ^ n := by
  have hpow : powBy (· * ·) a n.natAbs (Nat.cast 1) = a ^ n.natAbs := by
    rw [powBy_eq_mul_pow, Nat.cast_one, one_mul]
  have hdef : exact.pow a n = if n < 0 then Nat.cast 1 / a ^ n.natAbs else a ^ n.natAbs := by
    rw [← hpow]
    rfl
  rw [hdef]
  split
  · rename_i hneg
    rw [Nat.cast_one, one_div, ← zpow_natCast, ← zpow_neg]
    congr 1
    omega
  · rename_i hpos
    rw [← zpow_natCast]
    congr 1
    omega

end Arithmetic

namespace RetryPolicy

/-- The delay before retry number `count`, computed in an arithmetic. -/
def delayIn {α : Type} (A : Arithmetic α) (multiplier : α) (p : RetryPolicy) (count : Nat) : Span :=
  Span.ofMillis (A.whole (A.min
    (A.mul (A.ofNat p.initialDelay.toMillis) (A.pow multiplier (exponent count)))
    (A.ofNat p.maxDelay.toMillis)))

theorem delay_eq_delayIn (p : RetryPolicy) (count : Nat) :
    p.delay count = p.delayIn .rounded p.multiplier count := by
  rw [delayIn, Arithmetic.pow_rounded]
  rfl

def exactDelay (p : RetryPolicy) (count : Nat) : Span := p.delayIn .exact p.multiplier.value count

/-- The milliseconds that the initial delay has grown to after `count` multiplications. -/
def grown (p : RetryPolicy) (count : Nat) : ℚ :=
  p.initialDelay.toMillis * p.multiplier.value ^ count

/-- Some milliseconds, but not more than the largest delay: the whole ones. -/
def capped (p : RetryPolicy) (millis : ℚ) : Span :=
  Span.ofMillis ⌊min millis p.maxDelay.toMillis⌋₊

/-- Some milliseconds are the grown ones up to one part in `2 ^ 53` for each of `count + 1`
products. -/
def IsNear (p : RetryPolicy) (count : Nat) (millis : ℚ) : Prop :=
  (1 - Binary64.unit) ^ (count + 1) * p.grown count ≤ millis ∧
    millis ≤ (1 + Binary64.unit) ^ (count + 1) * p.grown count

/-- Delays of 53 bits in milliseconds, and a multiplier that the settings admit: a finite one from
one upward. -/
structure Regular (p : RetryPolicy) : Prop where
  initial_lt : p.initialDelay.toMillis < 2 ^ 53
  largest_lt : p.maxDelay.toMillis < 2 ^ 53
  multiplier_fits : Settings.multiplierFits p.multiplier = true

/-- Dividing `k` times by the multiplier leaves the delay what it is: nothing changes at all, or the
largest delay is reached even so. -/
def Unmoved (p : RetryPolicy) (k : Nat) : Prop :=
  p.multiplier.value = 1 ∨ p.initialDelay.toMillis = 0 ∨
    p.maxDelay.toMillis * p.multiplier.value ^ k ≤ p.initialDelay.toMillis

section Exponent

variable {n : Nat}

theorem exponent_of_lt (h : n < 2 ^ 31) : exponent n = n := by
  simp only [exponent]
  omega

theorem exponent_of_le (h : 2 ^ 31 ≤ n) (hn : n < 2 ^ 32) :
    exponent n = -((2 ^ 32 - n : Nat) : Int) := by
  simp only [exponent]
  omega

end Exponent

section Exact

variable {p : RetryPolicy} {n k : Nat}

theorem capped_le_maxDelay (p : RetryPolicy) (q : ℚ) : p.capped q ≤ p.maxDelay := by
  have hfloor : ⌊min q p.maxDelay.toMillis⌋₊ ≤ p.maxDelay.toMillis :=
    Nat.floor_le_of_le (min_le_right _ _)
  calc p.capped q ≤ p.maxDelay.toMillis * 1000000 := Nat.mul_le_mul_right _ hfloor
    _ ≤ p.maxDelay := Nat.div_mul_le_self _ _

theorem capped_mono {q q' : ℚ} (h : q ≤ q') : p.capped q ≤ p.capped q' :=
  Nat.mul_le_mul_right _ (Nat.floor_le_floor (min_le_min_right _ h))

/-- Exact delays are capped powers, also for exponents that have turned negative. -/
theorem exactDelay_eq (hp : p.maxDelay.toMillis < 2 ^ 53) (n : Nat) :
    p.exactDelay n =
      p.capped (p.initialDelay.toMillis * p.multiplier.value ^ exponent n) := by
  rw [exactDelay, delayIn, Arithmetic.pow_exact, capped]
  refine congrArg Span.ofMillis (min_eq_left ?_)
  have hfloor := Nat.floor_le_of_le (min_le_right
    ((p.initialDelay.toMillis : ℚ) * p.multiplier.value ^ exponent n) p.maxDelay.toMillis)
  exact hfloor.trans (by omega)

theorem exactDelay_le_maxDelay (hp : p.maxDelay.toMillis < 2 ^ 53) (n : Nat) :
    p.exactDelay n ≤ p.maxDelay := by
  rw [exactDelay_eq hp]
  exact p.capped_le_maxDelay _

theorem exactDelay_of_lt (hp : p.maxDelay.toMillis < 2 ^ 53) (hn : n < 2 ^ 31) :
    p.exactDelay n = p.capped (p.grown n) := by
  rw [exactDelay_eq hp, exponent_of_lt hn, zpow_natCast, grown]

theorem exactDelay_of_le (hp : p.maxDelay.toMillis < 2 ^ 53) (hn : 2 ^ 31 ≤ n) (hn' : n < 2 ^ 32) :
    p.exactDelay n =
      p.capped (p.initialDelay.toMillis / p.multiplier.value ^ (2 ^ 32 - n)) := by
  rw [exactDelay_eq hp, exponent_of_le hn hn', zpow_neg, zpow_natCast, div_eq_mul_inv]

section Division

variable (hone : 1 ≤ p.multiplier.value)

include hone

theorem initial_le_grown (n : Nat) : (p.initialDelay.toMillis : ℚ) ≤ p.grown n :=
  le_mul_of_one_le_right (Nat.cast_nonneg _) (one_le_pow₀ hone)

theorem grown_mono (h : n ≤ k) : p.grown n ≤ p.grown k :=
  mul_le_mul_of_nonneg_left (pow_le_pow_right₀ hone h) (Nat.cast_nonneg _)

theorem divided_le_grown (k n : Nat) :
    p.initialDelay.toMillis / p.multiplier.value ^ k ≤ p.grown n :=
  (div_le_self (Nat.cast_nonneg _) (one_le_pow₀ hone)).trans (initial_le_grown hone n)

theorem capped_divided_eq (h : p.Unmoved k) (n : Nat) :
    p.capped (p.initialDelay.toMillis / p.multiplier.value ^ k) = p.capped (p.grown n) := by
  have hpow : 0 < p.multiplier.value ^ k := pow_pos (one_pos.trans_le hone) k
  rcases h with h | h | h
  · rw [grown, h, one_pow, one_pow, div_one, mul_one]
  · rw [grown, h, Nat.cast_zero, zero_div, zero_mul]
  · have hreached := (le_div_iff₀ hpow).mpr h
    rw [capped, capped, min_eq_right hreached,
      min_eq_right (hreached.trans (divided_le_grown hone k n))]

theorem capped_divided_lt (hk : k ≠ 0) (h : ¬ p.Unmoved k) (n : Nat) :
    p.capped (p.initialDelay.toMillis / p.multiplier.value ^ k) < p.capped (p.grown n) := by
  obtain ⟨hmultiplier, hinitial, hlargest⟩ : p.multiplier.value ≠ 1 ∧
      p.initialDelay.toMillis ≠ 0 ∧
      p.initialDelay.toMillis < p.maxDelay.toMillis * p.multiplier.value ^ k := by
    simpa only [Unmoved, not_or, not_le] using h
  have hone' : 1 < p.multiplier.value ^ k := one_lt_pow₀ (hone.lt_of_ne' hmultiplier) hk
  have hpos : (0 : ℚ) < p.initialDelay.toMillis := Nat.cast_pos.mpr (Nat.pos_of_ne_zero hinitial)
  generalize hd : (p.initialDelay.toMillis : ℚ) / p.multiplier.value ^ k = d
  have belowInitial : d < p.initialDelay.toMillis := hd ▸ div_lt_self hpos hone'
  have belowLargest : d < p.maxDelay.toMillis :=
    hd ▸ (div_lt_iff₀ (one_pos.trans hone')).mpr hlargest
  have hnonneg : 0 ≤ d := hd ▸ (div_pos hpos (one_pos.trans hone')).le
  have below : ⌊min d p.maxDelay.toMillis⌋₊ < min p.initialDelay.toMillis p.maxDelay.toMillis := by
    rw [min_eq_left belowLargest.le]
    exact lt_min ((Nat.floor_lt hnonneg).mpr belowInitial) ((Nat.floor_lt hnonneg).mpr belowLargest)
  have reached : min p.initialDelay.toMillis p.maxDelay.toMillis ≤
      ⌊min (p.grown n) p.maxDelay.toMillis⌋₊ := by
    refine Nat.le_floor ?_
    rw [Nat.cast_min]
    exact min_le_min_right _ (initial_le_grown hone n)
  exact Nat.mul_lt_mul_of_pos_right (below.trans_le reached) (by decide)

/-- Exact delays are the grown ones, capped, for counts below `2 ^ 31`, and from there on only if
dividing makes no difference. -/
theorem exactDelay_eq_capped_iff (hp : p.maxDelay.toMillis < 2 ^ 53) (hn : n < 2 ^ 32) :
    p.exactDelay n = p.capped (p.grown n) ↔ (2 ^ 31 ≤ n → p.Unmoved (2 ^ 32 - n)) := by
  rcases Nat.lt_or_ge n (2 ^ 31) with h | h
  · exact iff_of_true (exactDelay_of_lt hp h) fun h' => absurd h' (Nat.not_le.mpr h)
  · rw [exactDelay_of_le hp h hn]
    constructor
    · intro heq _
      by_contra hmoved
      exact (capped_divided_lt hone (by omega) hmoved n).ne heq
    · intro hunmoved
      exact capped_divided_eq hone (hunmoved h) n

/-- Exact delays do not fall, save where the exponent turns negative. -/
theorem exactDelay_le_succ_iff (hp : p.maxDelay.toMillis < 2 ^ 53) (hn : n + 1 < 2 ^ 32) :
    p.exactDelay n ≤ p.exactDelay (n + 1) ↔ (n + 1 = 2 ^ 31 → p.Unmoved (2 ^ 31)) := by
  rcases Nat.lt_trichotomy (n + 1) (2 ^ 31) with h | h | h
  · refine iff_of_true ?_ fun h' => absurd h' h.ne
    rw [exactDelay_of_lt hp (Nat.lt_of_succ_lt h), exactDelay_of_lt hp h]
    exact capped_mono (grown_mono hone (Nat.le_succ n))
  · have hrest : 2 ^ 32 - (n + 1) = 2 ^ 31 := by omega
    rw [exactDelay_of_lt hp (Nat.lt_of_succ_le h.le), exactDelay_of_le hp h.ge hn, hrest]
    constructor
    · intro hle _
      by_contra hmoved
      exact (capped_divided_lt hone (Nat.two_pow_pos 31).ne' hmoved n).not_ge hle
    · intro hunmoved
      exact (capped_divided_eq hone (hunmoved h) n).ge
  · refine iff_of_true ?_ fun h' => absurd h' h.ne'
    rw [exactDelay_of_le hp (Nat.lt_succ_iff.mp h) (Nat.lt_of_succ_lt hn),
      exactDelay_of_le hp h.le hn]
    refine capped_mono (div_le_div_of_nonneg_left (Nat.cast_nonneg _)
      (pow_pos (one_pos.trans_le hone) _) (pow_le_pow_right₀ hone ?_))
    omega

end Division

end Exact

section Rounded

open Binary64

variable {p : RetryPolicy} {x : Binary64} {n : Nat}

def cappedMillis (largest : Nat) : WithTop ℚ → Nat
  | ⊤ => largest
  | (q : ℚ) => ⌊min q largest⌋₊

theorem cappedMillis_mono (largest : Nat) : Monotone (cappedMillis largest) := by
  intro q q' h
  cases q' with
  | top =>
    cases q with
    | top => exact le_rfl
    | coe q => exact Nat.floor_le_of_le (min_le_right _ _)
  | coe q' =>
    cases q with
    | top => exact absurd h (WithTop.not_top_le_coe q')
    | coe q => exact Nat.floor_le_floor (min_le_min_right _ (WithTop.coe_le_coe.mp h))

theorem cappedMillis_bounded {largest : Nat} (hlargest : largest < 2 ^ 53) (q : ℚ) :
    cappedMillis largest (bounded q) = ⌊min q largest⌋₊ := by
  rw [bounded]
  split_ifs with h
  · rfl
  · have hle : (largest : ℚ) ≤ q :=
      ((Nat.cast_lt.mpr hlargest).trans_eq (two_zpow_natCast 53).symm).le.trans
        ((two_zpow_le (by decide)).trans (not_lt.mp h))
    rw [min_eq_right hle, Nat.floor_natCast]
    rfl

theorem whole_finite {v : Finite} {largest : Nat} (hneg : v.neg = false)
    (hlargest : largest < 2 ^ 53) (h : v.size ≤ largest) :
    Arithmetic.rounded.whole (.finite v) = ⌊v.size⌋₊ := by
  -- The exponent of the unit is a variable here: a closed power of that size is not evaluated.
  have htruncate : v.truncate = (⌊v.size⌋₊ : Int) := by
    rw [Finite.truncate, hneg]
    generalize hs : 1074 = s
    have hunit : ((Nat.pow 2 s : Nat) : ℚ) = 2 ^ (1074 : Int) := by
      rw [Nat.pow_eq, ← two_zpow_natCast, ← hs]
      rfl
    have hfloor : ⌊v.size⌋₊ = v.magnitude / Nat.pow 2 s := by
      rw [← Nat.floor_div_eq_div (K := ℚ), hunit, v.cast_magnitude,
        mul_div_cancel_right₀ _ (two_zpow_pos 1074).ne']
    rw [hfloor]
    rfl
  have hfloor : ⌊v.size⌋₊ ≤ largest := Nat.floor_le_of_le h
  change (Max.max 0 (Min.min (0x1_0000_0000_0000_0000 - 1) v.truncate)).toNat = _
  omega

theorem whole_min_ofNat {largest : Nat} (hx : x.isNegative = false) (hlargest : largest < 2 ^ 53) :
    Arithmetic.rounded.whole (x.min (ofNat largest)) = cappedMillis largest x.extent := by
  obtain ⟨v, hv, hneg, hsize⟩ := exists_ofNat_eq hlargest
  have hcap : Arithmetic.rounded.whole (.finite v) = largest := by
    rw [whole_finite hneg hlargest hsize.le, hsize, Nat.floor_natCast]
  rw [hv]
  cases x with
  | nan => exact hcap
  | inf a =>
    obtain rfl : a = false := hx
    exact hcap
  | finite x =>
    have hx' : x.neg = false := hx
    have hlt : (Binary64.finite x).lt (.finite v) = decide (x.size < v.size) := by
      rw [Binary64.lt, Finite.units_of_unsigned hx', Finite.units_of_unsigned hneg]
      exact decide_eq_decide.mpr (Int.ofNat_lt.trans Finite.size_lt_size_iff.symm)
    change Arithmetic.rounded.whole (if (Binary64.finite x).lt (.finite v) then _ else _) =
      ⌊min x.size largest⌋₊
    rw [hlt]
    split
    · rename_i hless
      have hle : x.size ≤ largest := hsize ▸ (of_decide_eq_true hless).le
      rw [whole_finite hx' hlargest hle, min_eq_left hle]
    · rename_i hmore
      have hle : (largest : ℚ) ≤ x.size :=
        hsize ▸ not_lt.mp (of_decide_eq_false (Bool.eq_false_iff.mpr hmore))
      rw [hcap, min_eq_right hle, Nat.floor_natCast]

theorem Regular.exists_multiplier (hp : p.Regular) :
    ∃ a : Finite, p.multiplier = .finite a ∧ a.neg = false ∧ 1 ≤ a.size := by
  have hfits := hp.multiplier_fits
  rw [Settings.multiplierFits, Bool.and_eq_true, Bool.not_eq_true'] at hfits
  obtain ⟨hfinite, hless⟩ := hfits
  obtain ⟨v, hv, hneg, hsize⟩ := exists_ofNat_eq (n := 1) (by decide)
  cases hm : p.multiplier with
  | nan => rw [hm] at hfinite; cases hfinite
  | inf a => rw [hm] at hfinite; cases hfinite
  | finite a =>
    rw [hm, hv, Binary64.lt, Finite.units_of_unsigned hneg, decide_eq_false_iff_not] at hless
    have hpositive : 0 < v.magnitude := by
      have hzero := Finite.size_lt_size_iff (x := .zero false) (y := v)
      rw [hsize, Nat.cast_one] at hzero
      exact (Nat.zero_le _).trans_lt (hzero.mp ((zero_mul _).trans_lt one_pos))
    have hunsigned : a.neg = false := by
      rw [Finite.units] at hless
      cases ha : a.neg with
      | false => rfl
      | true =>
        rw [ha, if_pos rfl] at hless
        omega
    rw [Finite.units_of_unsigned hunsigned, Int.ofNat_lt, ← Finite.size_lt_size_iff, hsize,
      Nat.cast_one, not_lt] at hless
    exact ⟨a, rfl, hunsigned, hless⟩

theorem Regular.one_le (hp : p.Regular) : 1 ≤ p.multiplier.value := by
  obtain ⟨a, ha, hneg, hone⟩ := hp.exists_multiplier
  rw [ha]
  exact hone.trans_eq (Finite.value_of_unsigned hneg).symm

theorem Regular.atLeastOne (hp : p.Regular) : AtLeastOne p.multiplier := by
  obtain ⟨a, ha, hneg, hone⟩ := hp.exists_multiplier
  rw [ha]
  exact ⟨nofun, hneg, WithTop.coe_le_coe.mpr hone⟩

/-- A delay is multiplied with the power to the count, and from `2 ^ 31` on with the reciprocal of
the power to what the count lacks of `2 ^ 32`. -/
theorem pow_exponent_of_lt (a : Binary64) (hn : n < 2 ^ 31) :
    a.pow (exponent n) = powNat a n one := by
  have hnonneg : ¬ ((n : Int) < 0) := by omega
  rw [exponent_of_lt hn, pow, if_neg hnonneg, Int.natAbs_natCast]

theorem pow_exponent_of_le (a : Binary64) (hn : 2 ^ 31 ≤ n) (hn' : n < 2 ^ 32) :
    a.pow (exponent n) = one.div (powNat a (2 ^ 32 - n) one) := by
  have hneg : -((2 ^ 32 - n : Nat) : Int) < 0 := by omega
  rw [exponent_of_le hn hn', pow, if_pos hneg, Int.natAbs_neg, Int.natAbs_natCast]

theorem isNegative_pow_exponent {a : Binary64} (ha : AtLeastOne a) (hn : n < 2 ^ 32) :
    (a.pow (exponent n)).isNegative = false := by
  rcases Nat.lt_or_ge n (2 ^ 31) with h | h
  · rw [pow_exponent_of_lt a h]
    exact (ha.powNat n).unsigned
  · rw [pow_exponent_of_le a h hn]
    exact isNegative_one_div (ha.powNat _)

/-- The powers do not fall, save where the count turns negative as an exponent. -/
theorem extent_pow_exponent_le_succ {a : Binary64} (ha : AtLeastOne a) (hn : n + 1 < 2 ^ 32)
    (hturn : n + 1 ≠ 2 ^ 31) :
    (a.pow (exponent n)).extent ≤ (a.pow (exponent (n + 1))).extent := by
  rcases Nat.lt_or_gt_of_ne hturn with h | h
  · rw [pow_exponent_of_lt a (Nat.lt_of_succ_lt h), pow_exponent_of_lt a h]
    exact extent_powNat_le_succ ha n
  · rw [pow_exponent_of_le a (Nat.lt_succ_iff.mp h) (Nat.lt_of_succ_lt hn),
      pow_exponent_of_le a h.le hn]
    refine extent_one_div_le (ha.powNat _) (ha.powNat _) ?_
    rw [show 2 ^ 32 - n = 2 ^ 32 - (n + 1) + 1 by omega]
    exact extent_powNat_le_succ ha _

theorem delay_eq (hp : p.Regular) (hn : n < 2 ^ 32) :
    p.delay n = Span.ofMillis (cappedMillis p.maxDelay.toMillis
      ((ofNat p.initialDelay.toMillis).mul (p.multiplier.pow (exponent n))).extent) := by
  have hsign := isNegative_mul (ofRatio_sign false p.initialDelay.toMillis 1).1
    (isNegative_pow_exponent hp.atLeastOne hn)
  rw [delay_eq_delayIn, delayIn, Arithmetic.pow_rounded]
  exact congrArg Span.ofMillis (whole_min_ofNat hsign hp.largest_lt)

theorem delay_le_maxDelay (hp : p.Regular) (hn : n < 2 ^ 32) : p.delay n ≤ p.maxDelay := by
  rw [delay_eq hp hn]
  calc Span.ofMillis (cappedMillis p.maxDelay.toMillis _)
      ≤ Span.ofMillis (cappedMillis p.maxDelay.toMillis ⊤) :=
        Nat.mul_le_mul_right _ (cappedMillis_mono _ le_top)
    _ ≤ p.maxDelay := Nat.div_mul_le_self _ _

theorem delay_le_succ (hp : p.Regular) (hn : n + 1 < 2 ^ 32) (hturn : n + 1 ≠ 2 ^ 31) :
    p.delay n ≤ p.delay (n + 1) := by
  rw [delay_eq hp (Nat.lt_of_succ_lt hn), delay_eq hp hn]
  exact Nat.mul_le_mul_right _ (cappedMillis_mono _
    (extent_mul_le le_rfl (extent_pow_exponent_le_succ hp.atLeastOne hn hturn)))

/-- From `2 ^ 31` on the power is a reciprocal, and no delay is longer than the initial one. -/
theorem delay_le_initial (hp : p.Regular) (hn : 2 ^ 31 ≤ n) (hn' : n < 2 ^ 32) :
    p.delay n ≤ p.capped p.initialDelay.toMillis := by
  obtain ⟨v, hv, -, hsize⟩ := exists_ofNat_eq hp.initial_lt
  have hpower := hp.atLeastOne.powNat (2 ^ 32 - n)
  have hreciprocal : (one.div (powNat p.multiplier (2 ^ 32 - n) one)).extent ≤ one.extent := by
    calc _ ≤ (one.div one).extent :=
          extent_one_div_le .one hpower (extent_one.trans_le hpower.one_le)
      _ = one.extent := extent_one_div_one
  have hproduct : ((ofNat p.initialDelay.toMillis).mul one).extent =
      bounded p.initialDelay.toMillis := by
    rw [extent_mul_comm, extent_one_mul, hv, ← hsize, bounded_size]
    rfl
  rw [delay_eq hp hn', pow_exponent_of_le _ hn hn', capped,
    ← cappedMillis_bounded hp.largest_lt, ← hproduct]
  exact Nat.mul_le_mul_right _ (cappedMillis_mono _ (extent_mul_le le_rfl hreciprocal))

/-- Rounding moves a delay by one part in `2 ^ 53` for each product at most, before it is capped. -/
theorem exists_isNear (hp : p.Regular) (hinitial : p.initialDelay.toMillis ≠ 0) (hn : n < 2 ^ 31) :
    ∃ q, p.IsNear n q ∧ p.delay n = p.capped q := by
  obtain ⟨a, ha, hneg, hone⟩ := hp.exists_multiplier
  obtain ⟨v, hv, -, hsize⟩ := exists_ofNat_eq hp.initial_lt
  have hinitial' : (1 : ℚ) ≤ p.initialDelay.toMillis :=
    Nat.one_le_cast.mpr (Nat.one_le_iff_ne_zero.mpr hinitial)
  have hproduct := (Rounds.of_size (hsize ▸ hinitial')).mul (rounds_powNat hone n)
  rw [← hv, ← ha, hsize, Nat.zero_add] at hproduct
  obtain ⟨q, -, hlo, hhi, hextent⟩ := hproduct
  have hgrown : p.grown n = p.initialDelay.toMillis * a.size ^ n := by
    rw [grown, ha]
    exact congrArg (fun m => (p.initialDelay.toMillis : ℚ) * m ^ n) (Finite.value_of_unsigned hneg)
  rw [← hgrown] at hlo hhi
  refine ⟨q, ⟨hlo, hhi⟩, ?_⟩
  rw [delay_eq hp (hn.trans (by decide)), pow_exponent_of_lt _ hn, hextent,
    cappedMillis_bounded hp.largest_lt, capped]

/-- Without an initial delay there is none, until the power is too large for a finite number: zero
times that is no number, and the largest delay counts. -/
theorem delay_of_initial_zero (hp : p.Regular) (hinitial : p.initialDelay.toMillis = 0)
    (hn : n < 2 ^ 31) :
    p.delay n = if (p.multiplier.pow n).isFinite then 0
      else Span.ofMillis p.maxDelay.toMillis := by
  rw [delay_eq hp (hn.trans (by decide)), exponent_of_lt hn, hinitial]
  cases p.multiplier.pow n with
  | nan =>
    rw [extent_mul_right _ rfl]
    exact (if_neg Bool.false_ne_true).symm
  | inf b =>
    rw [extent_mul_right _ rfl]
    exact (if_neg Bool.false_ne_true).symm
  | finite y =>
    obtain ⟨v, hv, -, hsize⟩ := exists_ofNat_eq (n := 0) (by decide)
    have hzero := nearest_natCast (n := 0) (by decide)
    rw [Nat.cast_zero] at hsize hzero
    rw [hv, extent_mul_finite, hsize, zero_mul, hzero, cappedMillis_bounded hp.largest_lt,
      min_eq_left (Nat.cast_nonneg _), Nat.floor_zero]
    exact (Nat.zero_mul _).trans (if_pos rfl).symm

end Rounded

/-- Doubling moves the default delays, which are far below the largest one. -/
theorem not_unmoved_default (k : Nat) : ¬ RetryPolicy.default.Unmoved k := by
  have hvalue : RetryPolicy.default.multiplier.value = 2 := by
    obtain ⟨v, hv, hneg, hsize⟩ := Binary64.exists_ofNat_eq (n := 2) (by decide)
    rw [default, hv]
    exact (Binary64.Finite.value_of_unsigned hneg).trans hsize
  rw [Unmoved, hvalue]
  rintro (htwo | hzero | hreached)
  · exact absurd htwo (by norm_num)
  · exact absurd hzero (by decide)
  · have hmillis : RetryPolicy.default.initialDelay.toMillis <
        RetryPolicy.default.maxDelay.toMillis := by decide
    have hless := (Nat.cast_lt (α := ℚ).mpr hmillis).trans_le
      (le_mul_of_one_le_right (Nat.cast_nonneg _) (one_le_pow₀ one_le_two (n := k)))
    exact absurd hreached (not_le.mpr hless)

/-- In exact arithmetic no delay exceeds the largest one, each is at most the next, and each is the
grown one, capped; but where the next count is the first to turn negative as an exponent, and where
the count itself has turned, the second and the third hold only if dividing makes no difference.
Rounded, as they are, no delay exceeds the largest one either, and each is at most the next save in
that one place; before it each is the grown one, rounded once for each product and capped, and from
there on none is longer than the initial one. Only an initial delay of zero becomes the largest one,
when the power is beyond all finite numbers. -/
theorem delays_capped_and_rising_iff {p : RetryPolicy} (hp : p.Regular) {n : Nat}
    (hn : n + 1 < 2 ^ 32) :
    (p.exactDelay n ≤ p.maxDelay ∧
      (p.exactDelay n ≤ p.exactDelay (n + 1) ↔ (n + 1 = 2 ^ 31 → p.Unmoved (2 ^ 31))) ∧
      (p.exactDelay n = p.capped (p.grown n) ↔ (2 ^ 31 ≤ n → p.Unmoved (2 ^ 32 - n)))) ∧
    (p.delay n = p.delayIn .rounded p.multiplier n ∧
      p.delay n ≤ p.maxDelay ∧
      (n + 1 ≠ 2 ^ 31 → p.delay n ≤ p.delay (n + 1)) ∧
      (2 ^ 31 ≤ n → p.delay n ≤ p.capped p.initialDelay.toMillis) ∧
      (n < 2 ^ 31 → p.initialDelay.toMillis ≠ 0 → ∃ q, p.IsNear n q ∧ p.delay n = p.capped q) ∧
      (n < 2 ^ 31 → p.initialDelay.toMillis = 0 → p.delay n =
        if (p.multiplier.pow n).isFinite then 0 else Span.ofMillis p.maxDelay.toMillis)) := by
  have hn' : n < 2 ^ 32 := Nat.lt_of_succ_lt hn
  exact ⟨⟨exactDelay_le_maxDelay hp.largest_lt n,
      exactDelay_le_succ_iff hp.one_le hp.largest_lt hn,
      exactDelay_eq_capped_iff hp.one_le hp.largest_lt hn'⟩,
    p.delay_eq_delayIn n, delay_le_maxDelay hp hn', delay_le_succ hp hn,
    fun h => delay_le_initial hp h hn', fun h hinitial => exists_isNear hp hinitial h,
    fun h hinitial => delay_of_initial_zero hp hinitial h⟩

def gentle : RetryPolicy :=
  .make 6 (Span.ofSecs 1) (Span.ofSecs 100)
    (.finite ⟨false, 0x18_0000_0000_0000, -52, by decide⟩)

theorem gentle_delays_rise :
    gentle.Regular ∧ 4 + 1 < 2 ^ 32 ∧
    gentle.exactDelay 4 = Span.ofMillis 5062 ∧ gentle.exactDelay 4 ≤ gentle.exactDelay 5 ∧
    gentle.delay 4 ≤ gentle.maxDelay ∧ gentle.delay 4 ≤ gentle.delay 5 := by
  have hregular : gentle.Regular := ⟨by decide, by decide, by decide +kernel⟩
  have hcount : 4 + 1 < 2 ^ 32 := by omega
  obtain ⟨⟨-, hrise, hgrowth⟩, -, hcapped, hrise', -⟩ :=
    delays_capped_and_rising_iff hregular hcount
  have hvalue : gentle.multiplier.value = 3 / 2 := by
    norm_num [gentle, make, Binary64.value, Binary64.Finite.value, Binary64.Finite.size]
  have hmillis : gentle.capped (gentle.grown 4) = Span.ofMillis 5062 := by
    have hgrown : min (gentle.grown 4) gentle.maxDelay.toMillis = 10125 / 2 := by
      rw [grown, hvalue]
      norm_num [gentle, make, Span.toMillis, Span.ofSecs]
    rw [capped, hgrown]
    norm_num
  have hbefore : 4 + 1 < 2 ^ 31 := by omega
  have hexact := hgrowth.mpr fun h => absurd h (Nat.not_le.mpr (Nat.lt_of_succ_lt hbefore))
  exact ⟨hregular, hcount, hexact.trans hmillis, hrise.mpr fun h => absurd h hbefore.ne, hcapped,
    hrise' hbefore.ne⟩

/-- Where the count turns negative as an exponent, the delay falls from the largest one to none. -/
theorem default_delays_fall :
    RetryPolicy.default.Regular ∧ 2 ^ 31 - 1 + 1 < 2 ^ 32 ∧
    ¬ RetryPolicy.default.exactDelay (2 ^ 31 - 1) ≤
      RetryPolicy.default.exactDelay (2 ^ 31 - 1 + 1) ∧
    RetryPolicy.default.delay (2 ^ 31 - 1) = Span.ofSecs 30 ∧
    RetryPolicy.default.delay (2 ^ 31 - 1 + 1) = 0 := by
  have hregular : RetryPolicy.default.Regular := ⟨by decide, by decide, by decide +kernel⟩
  have hcount : 2 ^ 31 - 1 + 1 < 2 ^ 32 := by decide
  refine ⟨hregular, hcount, fun hrise => ?_, by decide +kernel, by decide +kernel⟩
  exact not_unmoved_default _
    ((exactDelay_le_succ_iff hregular.one_le hregular.largest_lt hcount).mp hrise rfl)

end RetryPolicy

end PlaybookEngine
