import PlaybookEngine.Time.Timestamp
import Mathlib.Tactic.IntervalCases

namespace PlaybookEngine.Timestamp

/-- The year of an era of 400 years that a day of it falls in. -/
def yearOfEra (day : Int) : Int := (day - day / 1460 + day / 36524 - day / 146096) / 365

/-- The days of an era before a year of it. -/
def daysBeforeYear (year : Int) : Int := 365 * year + year / 4 - year / 100

/-- A day of an era by centuries, spans of four years, years, and the day of the year. Only the
last year of a span has a leap day, and of a century's last span only that of the last century. -/
structure DayOfEra where
  century : Int
  span : Int
  year : Int
  day : Int
  century_bounds : 0 ≤ century ∧ century ≤ 3
  span_bounds : 0 ≤ span ∧ span ≤ 24
  year_bounds : 0 ≤ year ∧ year ≤ 3
  day_bounds : 0 ≤ day ∧ day ≤ 365
  leap : day = 365 → year = 3 ∧ (span = 24 → century = 3)

namespace DayOfEra

variable (x : DayOfEra)

def days : Int := 36524 * x.century + 1461 * x.span + 365 * x.year + x.day

def years : Int := 100 * x.century + 4 * x.span + x.year

theorem exists_of_day (day : Int) (h : 0 ≤ day) (h' : day < 146097) :
    ∃ x : DayOfEra, x.days = day := by
  by_cases hlast : day = 146096
  · exact ⟨⟨3, 24, 3, 365, by decide, by decide, by decide, by decide, by decide⟩, hlast.symm⟩
  · by_cases hleap : day % 36524 % 1461 = 1460
    · refine ⟨⟨day / 36524, day % 36524 / 1461, 3, 365, ?_, ?_, by decide, by decide, ?_⟩, ?_⟩
      · omega
      · omega
      · omega
      · dsimp only [days]
        omega
    · refine ⟨⟨day / 36524, day % 36524 / 1461, day % 36524 % 1461 / 365,
        day % 36524 % 1461 % 365, ?_, ?_, ?_, ?_, ?_⟩, ?_⟩
      · omega
      · omega
      · omega
      · omega
      · omega
      · dsimp only [days]
        omega

theorem yearOfEra_days : yearOfEra x.days = x.years := by
  obtain ⟨c, q, t, r, hc, hq, ht, hr, hleap⟩ := x
  dsimp only [days, years]
  -- The last day of the era alone counts a fifth century, which is taken off again.
  have centuries : (36524 * c + 1461 * q + 365 * t + r) / 36524 -
      (36524 * c + 1461 * q + 365 * t + r) / 146096 = c := by
    by_cases hlast : 1461 * q + 365 * t + r < 36524
    · have inside : (36524 * c + 1461 * q + 365 * t + r) / 36524 = c := by omega
      have before : (36524 * c + 1461 * q + 365 * t + r) / 146096 = 0 := by omega
      rw [inside, before, Int.sub_zero]
    · obtain ⟨rfl, rfl, rfl, rfl⟩ : q = 24 ∧ t = 3 ∧ r = 365 ∧ c = 3 := by omega
      decide
  unfold yearOfEra
  by_cases hspan : 24 * c + q + 365 * t + r < 1460
  · have spans : (36524 * c + 1461 * q + 365 * t + r) / 1460 = 25 * c + q := by omega
    omega
  · have spans : (36524 * c + 1461 * q + 365 * t + r) / 1460 = 25 * c + q + 1 := by omega
    omega

theorem sub_daysBeforeYear : x.days - daysBeforeYear x.years = x.day := by
  obtain ⟨c, q, t, r, hc, hq, ht, hr, hleap⟩ := x
  dsimp only [days, years, daysBeforeYear]
  omega

theorem years_bounds : 0 ≤ x.years ∧ x.years < 400 := by
  obtain ⟨c, q, t, r, hc, hq, ht, hr, hleap⟩ := x
  dsimp only [years]
  omega

theorem isLeapYear_of_day (h : x.day = 365) (era : Int) :
    isLeapYear (x.years + era * 400 + 1) = true := by
  obtain ⟨c, q, t, r, hc, hq, ht, hr, hleap⟩ := x
  dsimp only at h
  obtain ⟨rfl, hcentury⟩ := hleap h
  simp only [years, isLeapYear, Bool.and_eq_true, Bool.or_eq_true, beq_iff_eq, bne_iff_ne]
  omega

end DayOfEra

/-- The month and the day of the month that a day of a year from March on falls in, which lead back
to the day of the year. -/
theorem month_of_day {day : Int} (h : 0 ≤ day) (h' : day ≤ 365) :
    ∃ month d : Nat, month ≤ 11 ∧ (5 * day + 2) / 153 = month ∧
      day - (153 * month + 2) / 5 + 1 = d ∧ 1 ≤ d ∧
      (month = 11 → d ≤ 29 ∧ (d = 29 → day = 365)) ∧
      (month = 1 ∨ month = 3 ∨ month = 6 ∨ month = 8 → d ≤ 30) ∧ d ≤ 31 := by
  refine ⟨((5 * day + 2) / 153).toNat, (day - (153 * ((5 * day + 2) / 153) + 2) / 5 + 1).toNat, ?_⟩
  omega

/-- The months in the order of a year from March on. -/
theorem le_daysInMonth {month d : Nat} (hmonth : month ≤ 11) {y : Int}
    (hfeb : month = 11 → d ≤ 29 ∧ (d = 29 → isLeapYear y = true))
    (hshort : month = 1 ∨ month = 3 ∨ month = 6 ∨ month = 8 → d ≤ 30) (hlong : d ≤ 31) :
    d ≤ daysInMonth y (if month < 10 then month + 3 else month - 9) := by
  by_cases hlast : month = 11
  · obtain ⟨hd, hleap⟩ := hfeb hlast
    rw [hlast, daysInMonth]
    by_cases hd' : d = 29
    · simp [hleap hd', hd]
    · simp
      split <;> omega
  · unfold daysInMonth
    split <;> rw [if_neg (by omega)] <;> split <;> omega

theorem daysFromDate_eq {years : Int} (hyears : 0 ≤ years) (hyears' : years < 400) (era : Int)
    {month : Nat} (hmonth : month ≤ 11) (d : Nat) :
    daysFromDate (years + era * 400 + if month < 10 then 0 else 1)
        (if month < 10 then month + 3 else month - 9) d =
      era * 146097 + (daysBeforeYear years + ((153 * month + 2) / 5 + d - 1)) - 719468 := by
  have hera : (years + era * 400) / 400 = era := by omega
  have hyear : (years + era * 400) % 400 = years := by omega
  by_cases hm : month < 10
  · have hle : ¬ month + 3 ≤ 2 := by omega
    have hlt : 2 < month + 3 := by omega
    have hback : ((month + 3 : Nat) : Int) - 3 = month := by omega
    simp only [daysFromDate, if_pos hm, if_neg hle, if_pos hlt, Int.add_zero, hera, hyear, hback,
      daysBeforeYear]
    omega
  · have hle : month - 9 ≤ 2 := by omega
    have hlt : ¬ 2 < month - 9 := by omega
    have hback : ((month - 9 : Nat) : Int) + 9 = month := by omega
    have hsub : years + era * 400 + 1 - 1 = years + era * 400 := by omega
    simp only [daysFromDate, if_neg hm, if_pos hle, if_neg hlt, hsub, hera, hyear, hback,
      daysBeforeYear]
    omega

/-- Every day has a date, a day of its month, and the date leads back to the day. -/
theorem dateFromDays_spec (days : Int) :
    ∃ (y : Int) (m d : Nat), dateFromDays days = (y, m, d) ∧ 1 ≤ m ∧ m ≤ 12 ∧ 1 ≤ d ∧
      d ≤ daysInMonth y m ∧ daysFromDate y m d = days := by
  obtain ⟨x, hx⟩ := DayOfEra.exists_of_day ((days + 719468) % 146097) (by omega) (by omega)
  obtain ⟨month, d, hmonth, hmonthOf, hd, hdpos, hfeb, hshort, hlong⟩ :=
    month_of_day x.day_bounds.1 x.day_bounds.2
  have hyear := x.yearOfEra_days
  have hday := x.sub_daysBeforeYear
  obtain ⟨hyears, hyears'⟩ := x.years_bounds
  rw [hx, yearOfEra] at hyear
  rw [hx] at hday
  have hdate : dateFromDays days =
      (x.years + (days + 719468) / 146097 * 400 + (if month < 10 then 0 else 1),
        (if month < 10 then month + 3 else month - 9), d) := by
    have hday' := hday
    rw [daysBeforeYear] at hday'
    dsimp only [dateFromDays]
    rw [hyear, hday', hmonthOf, hd]
    by_cases hm : month < 10
    · have hlt : (month : Int) < 10 := by omega
      have hle : ¬ (month : Int) + 3 ≤ 2 := by omega
      rw [if_pos hlt, if_neg hle, if_pos hm, if_pos hm]
      rfl
    · have hlt : ¬ (month : Int) < 10 := by omega
      have hle : (month : Int) - 9 ≤ 2 := by omega
      have hback : ((month : Int) - 9).toNat = month - 9 := by omega
      rw [if_neg hlt, if_pos hle, if_neg hm, if_neg hm, hback]
      rfl
  refine ⟨_, _, d, hdate, ?_, ?_, hdpos, le_daysInMonth hmonth (fun h => ?_) hshort hlong, ?_⟩
  · split <;> omega
  · split <;> omega
  · obtain ⟨hd', hleap⟩ := hfeb h
    refine ⟨hd', fun h29 => ?_⟩
    rw [if_neg (by omega)]
    exact x.isLeapYear_of_day (hleap h29) _
  · rw [daysFromDate_eq hyears hyears' _ hmonth]
    omega

end PlaybookEngine.Timestamp
