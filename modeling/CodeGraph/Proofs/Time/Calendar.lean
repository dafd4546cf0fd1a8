import CodeGraph.Time
import Mathlib

/-! The calendar: days are counted from dates and dates from days, and the two agree. A year begins
in March here, so that its last day is the one that only leap years have. -/
namespace CodeGraph.Time

structure IsDate (year : Int) (month day : Nat) : Prop where
  month_pos : 1 ≤ month
  month_le : month ≤ 12
  day_pos : 1 ≤ day
  day_le : day ≤ Toml.Read.daysOf (year % 400).toNat month

/-- The year of a day of the era, which has 400 years, and that it has days enough. -/
theorem yearOfEra_spec {d f g h y c e : Int} (h0 : 0 ≤ d) (h1 : d ≤ 146096)
    (hf : f = d / 1460) (hg : g = d / 36524) (hh : h = d / 146096)
    (hy : y = (d - f + g - h) / 365) (hc : c = y / 4) (he : e = y / 100) :
    0 ≤ y ∧ y ≤ 399 ∧ 0 ≤ d - (365 * y + c - e) ∧ d - (365 * y + c - e) ≤ 365 ∧
      (d - (365 * y + c - e) = 365 → (y + 1) % 4 = 0 ∧ (y + 1) % 100 ≠ 0 ∨ y = 399) := by
  -- from here on everything is linear
  have hf : 1460 * f ≤ d ∧ d ≤ 1460 * f + 1459 := by omega
  have hg : 36524 * g ≤ d ∧ d ≤ 36524 * g + 36523 := by omega
  have hh : 0 ≤ h ∧ h ≤ 1 ∧ 146096 * h ≤ d ∧ d ≤ 146095 + h := by omega
  have hy : 365 * y ≤ d - f + g - h ∧ d - f + g - h ≤ 365 * y + 364 := by omega
  have hc : 4 * c ≤ y ∧ y ≤ 4 * c + 3 := by omega
  have he : 100 * e ≤ y ∧ y ≤ 100 * e + 99 := by omega
  have hyear : 0 ≤ y ∧ y ≤ 399 := by omega
  have hleaps : f = c ∨ f = c + 1 := by omega
  have hcenturies : g = e ∨ g = e + 1 := by omega
  have hdays : 0 ≤ d - (365 * y + c - e) ∧ d - (365 * y + c - e) ≤ 365 := by omega
  refine ⟨hyear.1, hyear.2, hdays.1, hdays.2, fun hlast => ?_⟩
  have hleap : y = 4 * c + 3 := by omega
  have hcentury : y = 100 * e + 99 → y = 399 := by omega
  omega

/-- The date of a day of an era, given by its year and the number of days since the beginning of
March. -/
def dateOfYearDay (era year day : Int) : Int × Nat × Nat :=
  let shifted := (5 * day + 2) / 153
  let month := if shifted < 10 then shifted + 3 else shifted - 9
  let year := year + era * 400
  (if month ≤ 2 then year + 1 else year, month.toNat, (day - (153 * shifted + 2) / 5 + 1).toNat)

theorem dateOfDays_eq (days : Int) :
    ∃ era year day : Int, days = era * 146097 + (365 * year + year / 4 - year / 100 + day) - 719468 ∧
      (0 ≤ year ∧ year ≤ 399) ∧ (0 ≤ day ∧ day ≤ 365) ∧
      (day = 365 → (year + 1) % 4 = 0 ∧ (year + 1) % 100 ≠ 0 ∨ year = 399) ∧
      dateOfDays days = dateOfYearDay era year day := by
  obtain ⟨era, hera⟩ : ∃ era, era = (days + 719468).fdiv 146097 := ⟨_, rfl⟩
  have hdiv : era = (days + 719468) / 146097 :=
    hera.trans (Int.fdiv_eq_ediv_of_nonneg _ (by decide))
  obtain ⟨d, hd⟩ : ∃ d, d = days + 719468 - era * 146097 := ⟨_, rfl⟩
  obtain ⟨hlow, hhigh, hfirst, hlast, hleap⟩ := yearOfEra_spec (d := d) (by omega) (by omega)
    rfl rfl rfl rfl rfl rfl
  refine ⟨era, _, _, ?_, ⟨hlow, hhigh⟩, ⟨hfirst, hlast⟩, hleap, ?_⟩
  · omega
  · subst hera hd
    rfl

-- the year begins in March, so that January and February belong to the next one
theorem dateOfYearDay_of_lt {era year day : Int} (h0 : 0 ≤ day) (h : (5 * day + 2) / 153 < 10) :
    dateOfYearDay era year day = (year + era * 400, ((5 * day + 2) / 153 + 3).toNat,
      (day - (153 * ((5 * day + 2) / 153) + 2) / 5 + 1).toNat) := by
  unfold dateOfYearDay
  dsimp only
  rw [if_pos h, if_neg (by omega)]

theorem dateOfYearDay_of_le {era year day : Int} (h1 : day ≤ 365) (h : 10 ≤ (5 * day + 2) / 153) :
    dateOfYearDay era year day = (year + era * 400 + 1, ((5 * day + 2) / 153 - 9).toNat,
      (day - (153 * ((5 * day + 2) / 153) + 2) / 5 + 1).toNat) := by
  unfold dateOfYearDay
  dsimp only
  rw [if_neg (Int.not_lt.2 h), if_pos (by omega)]

theorem isDate_dateOfYearDay {era year day : Int} (hday : 0 ≤ day ∧ day ≤ 365)
    (hleap : day = 365 → (year + 1) % 4 = 0 ∧ (year + 1) % 100 ≠ 0 ∨ year = 399) :
    IsDate (dateOfYearDay era year day).1 (dateOfYearDay era year day).2.1
      (dateOfYearDay era year day).2.2 := by
  rcases Int.lt_or_le ((5 * day + 2) / 153) 10 with hmonth | hmonth
  · rw [dateOfYearDay_of_lt hday.1 hmonth]
    dsimp only
    refine ⟨by omega, by omega, by omega, ?_⟩
    unfold Toml.Read.daysOf
    split_ifs <;> omega
  · rw [dateOfYearDay_of_le hday.2 hmonth]
    dsimp only
    refine ⟨by omega, by omega, by omega, ?_⟩
    unfold Toml.Read.daysOf
    split_ifs <;> omega

theorem daysFromDate_dateOfYearDay {era year day : Int} (hyear : 0 ≤ year ∧ year ≤ 399)
    (hday : 0 ≤ day ∧ day ≤ 365) :
    daysFromDate (dateOfYearDay era year day).1 (dateOfYearDay era year day).2.1
        (dateOfYearDay era year day).2.2 =
      era * 146097 + (365 * year + year / 4 - year / 100 + day) - 719468 := by
  have hera : (year + era * 400).fdiv 400 = era := by
    rw [Int.fdiv_eq_ediv_of_nonneg _ (by decide)]
    omega
  rcases Int.lt_or_le ((5 * day + 2) / 153) 10 with hmonth | hmonth
  · rw [dateOfYearDay_of_lt hday.1 hmonth]
    unfold daysFromDate
    dsimp only
    have hshifted : ((((5 * day + 2) / 153 + 3).toNat : Int) + 9) % 12 = (5 * day + 2) / 153 := by
      omega
    rw [if_neg (by omega), hera, Int.add_sub_cancel, hshifted]
    omega
  · rw [dateOfYearDay_of_le hday.2 hmonth]
    unfold daysFromDate
    dsimp only
    have hshifted : ((((5 * day + 2) / 153 - 9).toNat : Int) + 9) % 12 = (5 * day + 2) / 153 := by
      omega
    rw [if_pos (by omega), Int.add_sub_cancel, hera, Int.add_sub_cancel, hshifted]
    omega

/-- The days before a date are counted back to it. -/
theorem dateOfDays_spec (days : Int) :
    IsDate (dateOfDays days).1 (dateOfDays days).2.1 (dateOfDays days).2.2 ∧
      daysFromDate (dateOfDays days).1 (dateOfDays days).2.1 (dateOfDays days).2.2 = days := by
  obtain ⟨era, year, day, hdays, hyear, hday, hleap, hdate⟩ := dateOfDays_eq days
  rw [hdate]
  exact ⟨isDate_dateOfYearDay hday hleap, (daysFromDate_dateOfYearDay hyear hday).trans hdays.symm⟩

/-- Days in the range of years that can be written have such a year. -/
theorem year_dateOfDays (days : Int) (hfirst : daysFromDate firstYear 1 1 ≤ days)
    (hlast : days < daysFromDate (lastYear + 1) 1 1) :
    firstYear ≤ (dateOfDays days).1 ∧ (dateOfDays days).1 ≤ lastYear := by
  have hlow : daysFromDate firstYear 1 1 = -96465292 := by decide
  have hhigh : daysFromDate (lastYear + 1) 1 1 = 95026237 := by decide
  obtain ⟨era, year, day, hdays, hyear, hday, -, hdate⟩ := dateOfDays_eq days
  rw [hdate]
  unfold firstYear lastYear
  rcases Int.lt_or_le ((5 * day + 2) / 153) 10 with hmonth | hmonth
  · rw [dateOfYearDay_of_lt hday.1 hmonth]
    dsimp only
    omega
  · rw [dateOfYearDay_of_le hday.2 hmonth]
    dsimp only
    refine ⟨by omega, ?_⟩
    -- January of the year after the last one lies just outside
    by_cases hafter : year + era * 400 = lastYear
    · have hera : era = 655 := by
        unfold lastYear at hafter
        omega
      have hyear : year = 142 := by
        unfold lastYear at hafter
        omega
      subst hera hyear
      omega
    · unfold lastYear at hafter
      omega

end CodeGraph.Time
