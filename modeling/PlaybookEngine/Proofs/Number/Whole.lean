import PlaybookEngine.Proofs.Number.Digits
import PlaybookEngine.Proofs.Number.Rounding

namespace PlaybookEngine

namespace Binary64.Finite

variable {x : Finite} {i : Int} {s : Nat}

/-- The exact value of the float is the integer. -/
def HasValue (x : Finite) (i : Int) : Prop := x.units = i * 2 ^ 1074

theorem natAbs_units (x : Finite) : x.units.natAbs = x.magnitude := by
  rw [units]
  split
  · exact Int.natAbs_neg _
  · rfl

-- The exponent stays a variable here: `2 ^ 1074` is not to be computed.

theorem isIntegral_iff (hs : s = 1074) : x.isIntegral = true ↔ x.magnitude % Nat.pow 2 s = 0 := by
  rw [isIntegral, ← hs, beq_iff_eq]

theorem units_eq_truncate (hs : s = 1074) (h : x.isIntegral = true) :
    x.units = x.truncate * 2 ^ s := by
  have hwhole : ((x.magnitude / Nat.pow 2 s : Nat) : Int) * 2 ^ s = x.magnitude := by
    have hdiv : x.magnitude / Nat.pow 2 s * Nat.pow 2 s = x.magnitude :=
      Nat.div_mul_cancel (Nat.dvd_of_mod_eq_zero ((isIntegral_iff hs).mp h))
    calc ((x.magnitude / Nat.pow 2 s : Nat) : Int) * 2 ^ s
        = ((x.magnitude / Nat.pow 2 s * Nat.pow 2 s : Nat) : Int) := by simp
      _ = x.magnitude := by rw [hdiv]
  rw [units, truncate, ← hs]
  cases x.neg with
  | false => exact hwhole.symm
  | true => exact (congrArg (- ·) hwhole.symm).trans (Int.neg_mul_eq_neg_mul _ _)

/-- A float is integral when its exact value is an integer, to which it is truncated. -/
theorem hasValue_iff : x.HasValue i ↔ x.isIntegral = true ∧ x.truncate = i := by
  unfold HasValue
  generalize hs : 1074 = s
  constructor
  · intro h
    have hmagnitude : x.magnitude = i.natAbs * Nat.pow 2 s := by
      rw [← natAbs_units, h]
      exact Binary64.natAbs_units i s
    have hintegral : x.isIntegral = true := by
      rw [isIntegral_iff hs.symm, hmagnitude]
      exact Nat.mul_mod_left i.natAbs _
    refine ⟨hintegral, ?_⟩
    rw [units_eq_truncate hs.symm hintegral] at h
    exact Int.eq_of_mul_eq_mul_right (Int.pow_pos (by decide)).ne' h
  · rintro ⟨hintegral, rfl⟩
    exact units_eq_truncate hs.symm hintegral

end Binary64.Finite

/-- Some decimal digits, and the number they stand for. -/
def IsDigits (ds : List Char) (n : Nat) : Prop :=
  ds ≠ [] ∧ (∀ c ∈ ds, c.isDigit = true) ∧ Nat.ofDigitChars 10 ds 0 = n

/-- A decimal numeral with an optional sign, and the integer it stands for. -/
inductive IsNumeral : List Char → Int → Prop
  | unsigned {ds : List Char} {n : Nat} (h : IsDigits ds n) : IsNumeral ds n
  | plus {ds : List Char} {n : Nat} (h : IsDigits ds n) : IsNumeral ('+' :: ds) n
  | minus {ds : List Char} {n : Nat} (h : IsDigits ds n) : IsNumeral ('-' :: ds) (-n)

theorem readNat_eq_some {cs : List Char} {n : Nat} : readNat cs = some n ↔ IsDigits cs n := by
  rw [readNat]
  constructor
  · intro h
    split at h
    · rename_i hdigits
      obtain rfl := Option.some.inj h
      rw [digitsValue_eq]
      exact ⟨hdigits.1, List.all_eq_true.mp hdigits.2, rfl⟩
    · cases h
  · rintro ⟨hne, hall, rfl⟩
    rw [if_pos ⟨hne, List.all_eq_true.mpr hall⟩, digitsValue_eq]

theorem readInt_eq_some {cs : List Char} {i : Int} : readInt cs = some i ↔ IsNumeral cs i := by
  constructor
  · intro h
    unfold readInt at h
    split at h
    · rename_i ds
      cases hn : readNat ds with
      | none => simp [hn] at h
      | some n =>
        obtain rfl : -(n : Int) = i := by simpa [hn] using h
        exact .minus (readNat_eq_some.mp hn)
    · obtain ⟨n, hn, rfl⟩ := Option.map_eq_some_iff.mp h
      exact .plus (readNat_eq_some.mp hn)
    · obtain ⟨n, hn, rfl⟩ := Option.map_eq_some_iff.mp h
      exact .unsigned (readNat_eq_some.mp hn)
  · intro h
    cases h with
    | minus h => rw [readInt, readNat_eq_some.mpr h]; rfl
    | plus h => rw [readInt, readNat_eq_some.mpr h]; rfl
    | unsigned h =>
      have hread := readNat_eq_some.mpr h
      obtain ⟨-, hall, -⟩ := h
      rw [readInt, hread]
      · rfl
      · rintro ds' rfl
        exact absurd (hall '-' List.mem_cons_self) (by decide)
      · rintro ds' rfl
        exact absurd (hall '+' List.mem_cons_self) (by decide)

end PlaybookEngine
