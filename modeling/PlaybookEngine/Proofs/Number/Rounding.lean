import PlaybookEngine.Number.Binary64
import Mathlib.Algebra.Group.Int.Defs
import Mathlib.Algebra.Order.Group.Nat
import Mathlib.Data.Nat.Log

namespace PlaybookEngine.Binary64

section Quotient

variable {a b d m : Nat}

theorem divNearest_cases (num den : Nat) :
    divNearest num den = num / den ∧ 2 * (num % den) ≤ den ∨
      divNearest num den = num / den + 1 ∧ den ≤ 2 * (num % den) := by
  simp only [divNearest]
  split
  · exact .inl ⟨rfl, by omega⟩
  · split
    · exact .inr ⟨rfl, by omega⟩
    · split
      · exact .inl ⟨rfl, by omega⟩
      · exact .inr ⟨rfl, by omega⟩

theorem divNearest_mono (hab : a ≤ b) : divNearest a d ≤ divNearest b d := by
  have hq : a / d ≤ b / d := Nat.div_le_div_right hab
  rcases Nat.lt_or_eq_of_le hq with hq | hq
  · rcases divNearest_cases a d with ⟨ha, -⟩ | ⟨ha, -⟩ <;>
      rcases divNearest_cases b d with ⟨hb, -⟩ | ⟨hb, -⟩ <;> omega
  · have hr : a % d ≤ b % d := by
      have ha := Nat.div_add_mod a d
      have hb := Nat.div_add_mod b d
      rw [hq] at ha
      omega
    simp only [divNearest, hq]
    split_ifs <;> omega

theorem divNearest_mul (hd : 0 < d) : divNearest (m * d) d = m := by
  have hr : m * d % d = 0 := Nat.mul_mod_left m d
  simp only [divNearest, hr, Nat.mul_div_cancel m hd, if_pos hd]

theorem divNearest_mul_right (num den : Nat) {c : Nat} (hc : 0 < c) :
    divNearest (num * c) (den * c) = divNearest num den := by
  have hlt (x y : Nat) : 2 * (x * c) < y * c ↔ 2 * x < y := by
    rw [← Nat.mul_assoc]
    exact Nat.mul_lt_mul_right hc
  have hgt (x y : Nat) : y * c < 2 * (x * c) ↔ y < 2 * x := by
    rw [← Nat.mul_assoc]
    exact Nat.mul_lt_mul_right hc
  simp only [divNearest, Nat.mul_div_mul_right num den hc, Nat.mul_mod_mul_right, hlt, hgt]

end Quotient

/-- A magnitude rounded to 53 significant bits. -/
def roundMagnitude (u : Nat) : Nat :=
  if u < 2 ^ 53 then u
  else divNearest u (2 ^ (u.log2 - 52)) * 2 ^ (u.log2 - 52)

theorem divNearest_bounds {u e : Nat} (hu : u ≠ 0) (he : u.log2 = 52 + e) :
    2 ^ 52 ≤ divNearest u (2 ^ e) ∧ divNearest u (2 ^ e) ≤ 2 ^ 53 := by
  have hpos : 0 < 2 ^ e := Nat.two_pow_pos _
  constructor
  · calc 2 ^ 52 = divNearest (2 ^ 52 * 2 ^ e) (2 ^ e) := (divNearest_mul hpos).symm
      _ ≤ divNearest u (2 ^ e) := by
        refine divNearest_mono ?_
        rw [← Nat.pow_add, ← he]
        exact Nat.log2_self_le hu
  · calc divNearest u (2 ^ e)
      _ ≤ divNearest (2 ^ 53 * 2 ^ e) (2 ^ e) := by
        refine divNearest_mono ?_
        rw [← Nat.pow_add, show 53 + e = u.log2 + 1 by omega]
        exact Nat.lt_log2_self.le
      _ = 2 ^ 53 := divNearest_mul hpos

/-- A rounded magnitude stays between the powers of two around it. -/
theorem roundMagnitude_bounds {u : Nat} (hu : u ≠ 0) :
    2 ^ u.log2 ≤ roundMagnitude u ∧ roundMagnitude u ≤ 2 ^ (u.log2 + 1) := by
  rw [roundMagnitude]
  split
  · exact ⟨Nat.log2_self_le hu, Nat.lt_log2_self.le⟩
  · rename_i hlarge
    have hlog : 52 ≤ u.log2 := (Nat.le_log2 hu).mpr (by omega)
    have he : u.log2 = 52 + (u.log2 - 52) := by omega
    obtain ⟨hlo, hhi⟩ := divNearest_bounds hu he
    constructor
    · calc 2 ^ u.log2 = 2 ^ 52 * 2 ^ (u.log2 - 52) := by rw [← Nat.pow_add, ← he]
        _ ≤ _ := Nat.mul_le_mul_right _ hlo
    · calc _ ≤ 2 ^ 53 * 2 ^ (u.log2 - 52) := Nat.mul_le_mul_right _ hhi
        _ = 2 ^ (u.log2 + 1) := by rw [← Nat.pow_add]; congr 1; omega

theorem roundMagnitude_mono {u v : Nat} (huv : u ≤ v) : roundMagnitude u ≤ roundMagnitude v := by
  by_cases hu : u = 0
  · rw [hu, roundMagnitude, if_pos (by decide)]
    exact Nat.zero_le _
  · have hv : v ≠ 0 := by omega
    have hlog : u.log2 ≤ v.log2 := (Nat.le_log2 hv).mpr ((Nat.log2_self_le hu).trans huv)
    rcases Nat.lt_or_eq_of_le hlog with hlt | heq
    · calc roundMagnitude u ≤ 2 ^ (u.log2 + 1) := (roundMagnitude_bounds hu).2
        _ ≤ 2 ^ v.log2 := Nat.pow_le_pow_right (by decide) hlt
        _ ≤ roundMagnitude v := (roundMagnitude_bounds hv).1
    · by_cases hlarge : v < 2 ^ 53
      · rw [roundMagnitude, if_pos (huv.trans_lt hlarge), roundMagnitude, if_pos hlarge]
        exact huv
      · have hlarge' : ¬ u < 2 ^ 53 := by
          have hv' : 53 ≤ v.log2 := (Nat.le_log2 hv).mpr (by omega)
          have hu' : 2 ^ 53 ≤ u := (Nat.le_log2 hu).mp (heq ▸ hv')
          omega
        rw [roundMagnitude, if_neg hlarge', roundMagnitude, if_neg hlarge, heq]
        exact Nat.mul_le_mul_right _ (divNearest_mono huv)

theorem log2_mul_two_pow {n : Nat} (hn : n ≠ 0) (s : Nat) : (n * 2 ^ s).log2 = n.log2 + s := by
  have hne : n * 2 ^ s ≠ 0 := Nat.mul_ne_zero hn (Nat.two_pow_pos s).ne'
  refine (Nat.log2_eq_iff hne).mpr ⟨?_, ?_⟩
  · rw [Nat.pow_add]
    exact Nat.mul_le_mul_right _ (Nat.log2_self_le hn)
  · rw [show n.log2 + s + 1 = n.log2 + 1 + s by omega, Nat.pow_add]
    exact Nat.mul_lt_mul_of_pos_right Nat.lt_log2_self (Nat.two_pow_pos s)

/-- A finite number is its own rounding. -/
theorem roundMagnitude_magnitude (x : Finite) : roundMagnitude x.magnitude = x.magnitude := by
  obtain ⟨neg, m, e, hcanonical⟩ := x
  change roundMagnitude (m * 2 ^ (e + 1074).toNat) = m * 2 ^ (e + 1074).toNat
  rcases hcanonical with ⟨hm, rfl⟩ | ⟨hlo, hhi, -, -⟩
  · rw [roundMagnitude, if_pos]
    simpa using hm
  · have hm : m ≠ 0 := by omega
    have hlog : m.log2 = 52 := (Nat.log2_eq_iff hm).mpr ⟨hlo, hhi⟩
    rw [roundMagnitude, log2_mul_two_pow hm, hlog, Nat.add_sub_cancel_left,
      divNearest_mul (Nat.two_pow_pos _), ite_self]

theorem floorLog2_one {n : Nat} (hn : n ≠ 0) : floorLog2 n 1 = n.log2 := by
  have hfits : 1 * Nat.pow 2 (n.log2 : Int).toNat ≤ n * Nat.pow 2 (-(n.log2 : Int)).toNat := by
    have hzero : (-(n.log2 : Int)).toNat = 0 := by omega
    rw [Int.toNat_natCast, hzero, Nat.one_mul]
    exact (Nat.log2_self_le hn).trans_eq (Nat.mul_one n).symm
  have hlog : (n.log2 : Int) - (Nat.log2 1 : Nat) = n.log2 := by
    rw [show Nat.log2 1 = 0 from by decide]
    omega
  simp only [floorLog2, hlog, if_pos hfits]

/-- A full significand at an exponent in range makes a finite number, also when rounding has carried
into a further bit. -/
theorem finite_of_significand (neg : Bool) {m : Nat} {e : Int} (hlo : 2 ^ 52 ≤ m) (hhi : m ≤ 2 ^ 53)
    (he : -1074 < e) (he' : e < 971) :
    ∃ x : Finite,
      (let (m, e) := if m = 0x20_0000_0000_0000 then (0x10_0000_0000_0000, e + 1) else (m, e)
        if h : IsCanonical m e then Binary64.finite ⟨neg, m, e, h⟩ else .inf neg) = .finite x ∧
        x.neg = neg ∧ x.magnitude = m * 2 ^ (e + 1074).toNat := by
  by_cases hcarry : m = 0x20_0000_0000_0000
  · have hcanonical : IsCanonical 0x10_0000_0000_0000 (e + 1) :=
      .inr ⟨by decide, by decide, by omega, by omega⟩
    simp only [if_pos hcarry, dif_pos hcanonical]
    refine ⟨_, rfl, rfl, ?_⟩
    have hshift : (e + 1 + 1074).toNat = 1 + (e + 1074).toNat := by omega
    change 0x10_0000_0000_0000 * 2 ^ (e + 1 + 1074).toNat = _
    rw [hshift, Nat.pow_add, ← Nat.mul_assoc, hcarry]
  · have hcanonical : IsCanonical m e := .inr ⟨by omega, by omega, by omega, by omega⟩
    simp only [if_neg hcarry, dif_pos hcanonical]
    exact ⟨_, rfl, rfl, rfl⟩

section Whole

-- The exponent of the unit is a variable here: a closed power of that size is not to be evaluated.
variable {n s : Nat}

/-- The significand that an integer is rounded to is the one that its units are rounded to. -/
theorem divNearest_units (hs : 52 ≤ s) (k : Nat) :
    divNearest (n * 2 ^ (-((k : Int) - 52)).toNat) (1 * 2 ^ ((k : Int) - 52).toNat) =
      divNearest (n * 2 ^ s) (2 ^ (k + s - 52)) := by
  rcases Nat.le_total k 52 with hk | hk
  · have hneg : (-((k : Int) - 52)).toNat = 52 - k := by omega
    have hpos : ((k : Int) - 52).toNat = 0 := by omega
    rw [hneg, hpos, ← divNearest_mul_right _ _ (Nat.two_pow_pos (k + s - 52)), Nat.mul_assoc,
      ← Nat.pow_add, show 52 - k + (k + s - 52) = s by omega, Nat.pow_zero, Nat.one_mul]
  · have hneg : (-((k : Int) - 52)).toNat = 0 := by omega
    have hpos : ((k : Int) - 52).toNat = k - 52 := by omega
    rw [hneg, hpos, ← divNearest_mul_right _ _ (Nat.two_pow_pos s), Nat.pow_zero, Nat.mul_one,
      Nat.one_mul, ← Nat.pow_add, show k - 52 + s = k + s - 52 by omega]

/-- An integer of 64 bits becomes a finite number, its magnitude rounded. -/
theorem ofRatio_whole (neg : Bool) (hn : n < 2 ^ 64) (hs : s = 1074) :
    ∃ x : Finite, ofRatio neg n 1 = .finite x ∧ x.neg = neg ∧
      x.magnitude = roundMagnitude (n * 2 ^ s) := by
  by_cases hzero : n = 0
  · subst hzero
    refine ⟨.zero neg, rfl, rfl, ?_⟩
    rw [Nat.zero_mul, roundMagnitude, if_pos (Nat.two_pow_pos 53)]
    exact Nat.zero_mul _
  · have hk : n.log2 < 64 := (Nat.log2_lt hzero).mpr hn
    have hu : n * 2 ^ s ≠ 0 := Nat.mul_ne_zero hzero (Nat.two_pow_pos s).ne'
    have hlog := log2_mul_two_pow hzero s
    obtain ⟨hlo, hhi⟩ := divNearest_bounds (e := n.log2 + s - 52) hu (by omega)
    have hlarge : ¬ n * 2 ^ s < 2 ^ 53 := by
      have := (Nat.le_log2 hu).mp (show 53 ≤ (n * 2 ^ s).log2 by omega)
      omega
    have hexp : Max.max (floorLog2 n 1 - 52) (-1074) = (n.log2 : Int) - 52 := by
      rw [floorLog2_one hzero]
      omega
    have hm := divNearest_units (n := n) (s := s) (by omega) n.log2
    have hshift : ((n.log2 : Int) - 52 + 1074).toNat = n.log2 + s - 52 := by omega
    rw [roundMagnitude, if_neg hlarge, hlog]
    simp only [ofRatio, if_neg hzero, hexp, Nat.pow_eq, hm]
    obtain ⟨x, hx, hneg, hmagnitude⟩ :=
      finite_of_significand (e := (n.log2 : Int) - 52) neg hlo hhi (by omega) (by omega)
    exact ⟨x, hx, hneg, hmagnitude.trans (by rw [hshift])⟩

/-- A magnitude of 53 bits, however far it is shifted, is its own rounding. -/
theorem roundMagnitude_of_lt (hn : n < 2 ^ 53) (s : Nat) :
    roundMagnitude (n * 2 ^ s) = n * 2 ^ s := by
  rw [roundMagnitude]
  split
  · rfl
  · rename_i hlarge
    have hzero : n ≠ 0 := by
      rintro rfl
      exact hlarge (by rw [Nat.zero_mul]; exact Nat.two_pow_pos 53)
    have hu : n * 2 ^ s ≠ 0 := Nat.mul_ne_zero hzero (Nat.two_pow_pos s).ne'
    have hk : n.log2 < 53 := (Nat.log2_lt hzero).mpr hn
    have hlog : 53 ≤ n.log2 + s := by
      rw [← log2_mul_two_pow hzero]
      exact (Nat.le_log2 hu).mpr (not_lt.mp hlarge)
    have hsplit : n * 2 ^ s = n * 2 ^ (52 - n.log2) * 2 ^ (n.log2 + s - 52) := by
      rw [Nat.mul_assoc, ← Nat.pow_add, show 52 - n.log2 + (n.log2 + s - 52) = s by omega]
    rw [log2_mul_two_pow hzero, hsplit, divNearest_mul (Nat.two_pow_pos _)]

/-- A value in units, rounded on either side of zero alike. -/
def roundUnits (u : Int) : Int :=
  if u < 0 then -(roundMagnitude u.natAbs : Int) else roundMagnitude u.natAbs

theorem roundUnits_mono {u v : Int} (huv : u ≤ v) : roundUnits u ≤ roundUnits v := by
  rw [roundUnits, roundUnits]
  split_ifs with hu hv hv
  · have := roundMagnitude_mono (show v.natAbs ≤ u.natAbs by omega)
    omega
  · omega
  · omega
  · exact Int.ofNat_le.mpr (roundMagnitude_mono (by omega))

theorem roundUnits_units (x : Finite) : roundUnits x.units = x.units := by
  have hround := roundMagnitude_magnitude x
  rw [roundUnits, Finite.units]
  cases x.neg with
  | true =>
    simp only [if_true, Int.natAbs_neg, Int.natAbs_natCast, hround]
    split_ifs <;> omega
  | false =>
    simp only [Bool.false_eq_true, if_false, Int.natAbs_natCast, hround]
    split_ifs <;> omega

theorem natAbs_units (i : Int) (s : Nat) : (i * 2 ^ s).natAbs = i.natAbs * 2 ^ s := by
  rw [Int.natAbs_mul, Int.natAbs_pow]
  rfl

theorem roundUnits_whole {i : Int} (hi : i.natAbs < 2 ^ 53) (s : Nat) :
    roundUnits (i * 2 ^ s) = i * 2 ^ s := by
  have habs := natAbs_units i s
  rw [roundUnits, habs, roundMagnitude_of_lt hi, ← habs]
  split_ifs <;> omega

/-- An integer of 64 bits, signed or not, becomes the number that its units are rounded to. -/
theorem ofInt_finite {i : Int} (hlo : -2 ^ 63 ≤ i) (hhi : i < 2 ^ 64) (hs : s = 1074) :
    ∃ x : Finite, ofInt i = .finite x ∧ x.units = roundUnits (i * 2 ^ s) := by
  obtain ⟨x, hx, hneg, hmagnitude⟩ :=
    ofRatio_whole (decide (i < 0)) (n := i.natAbs) (by omega) hs
  refine ⟨x, hx, ?_⟩
  have hpos : (0 : Int) < 2 ^ s := Int.pow_pos (by decide)
  have hsign : i * 2 ^ s < 0 ↔ i < 0 := by
    refine ⟨fun h => ?_, fun h => Int.mul_neg_of_neg_of_pos h hpos⟩
    by_contra hi
    have := Int.mul_nonneg (not_lt.mp hi) hpos.le
    omega
  simp only [Finite.units, hneg, hmagnitude, roundUnits, natAbs_units, decide_eq_true_eq, hsign]

end Whole

end PlaybookEngine.Binary64
