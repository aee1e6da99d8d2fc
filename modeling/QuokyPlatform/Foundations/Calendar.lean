import QuokyPlatform.Foundations.Date

/-! # Day numbers and dates

The date of a day number has that day number, so `Date.UTC` gives back what a date was read from. -/

namespace QuokyPlatform.Date

set_option autoImplicit false
set_option maxHeartbeats 250000

/-! ## Years of an era -/

section era

variable {dayOfEra yearOfEra century : ℤ}

/-- The last day of an era is the leap day of its last year. -/
theorem yearOfEra_last (hday : dayOfEra = 146096) (hyear : yearOfEra =
    (dayOfEra - dayOfEra / 1460 + dayOfEra / 36524 - dayOfEra / 146096) / 365) : yearOfEra = 399 := by
  subst hday
  omega

theorem yearOfEra_century (hlow : 0 ≤ dayOfEra) (hhigh : dayOfEra < 146096)
    (hcentury : century = dayOfEra / 36524)
    (hyear : yearOfEra = (dayOfEra - dayOfEra / 1460 + century - dayOfEra / 146096) / 365) :
    yearOfEra / 100 = century := by
  obtain rfl | rfl | rfl | rfl : century = 0 ∨ century = 1 ∨ century = 2 ∨ century = 3 := by omega
  · omega
  · omega
  · omega
  · omega

theorem yearOfEra_bounds (hlow : 0 ≤ dayOfEra) (hhigh : dayOfEra < 146097)
    (hyear : yearOfEra =
      (dayOfEra - dayOfEra / 1460 + dayOfEra / 36524 - dayOfEra / 146096) / 365) :
    0 ≤ yearOfEra ∧ yearOfEra ≤ 399 := by
  omega

/-- A year starts at or before each of its days, at most 365 days before. -/
theorem dayOfYear_bounds (hlow : 0 ≤ dayOfEra) (hhigh : dayOfEra < 146097) (hyear : yearOfEra =
    (dayOfEra - dayOfEra / 1460 + dayOfEra / 36524 - dayOfEra / 146096) / 365) :
    0 ≤ dayOfEra - (365 * yearOfEra + yearOfEra / 4 - yearOfEra / 100) ∧
      dayOfEra - (365 * yearOfEra + yearOfEra / 4 - yearOfEra / 100) ≤ 365 := by
  by_cases hlast : dayOfEra = 146096
  · rw [yearOfEra_last hlast hyear]
    omega
  · generalize hcentury : dayOfEra / 36524 = century at hyear
    rw [yearOfEra_century hlow (by omega) hcentury.symm hyear]
    obtain rfl | rfl | rfl | rfl : century = 0 ∨ century = 1 ∨ century = 2 ∨ century = 3 := by omega
    · constructor
      · omega
      · omega
    · constructor
      · omega
      · omega
    · constructor
      · omega
      · omega
    · constructor
      · omega
      · omega

end era

/-! ## Dates of day numbers -/

/-- What a day number and its date have in common: the era, the year in it and the day of that year,
counted from March. -/
theorem civilFromDays_parts (days : ℤ) : ∃ era yearOfEra dayOfYear mp : ℤ,
    (0 ≤ yearOfEra ∧ yearOfEra ≤ 399) ∧ (0 ≤ dayOfYear ∧ dayOfYear ≤ 365) ∧
    mp = (5 * dayOfYear + 2) / 153 ∧
    days + 719468 =
      era * 146097 + (yearOfEra * 365 + yearOfEra / 4 - yearOfEra / 100 + dayOfYear) ∧
    (civilFromDays days).month = (if mp < 10 then mp + 3 else mp - 9) ∧
    (civilFromDays days).year = (if (if mp < 10 then mp + 3 else mp - 9) ≤ 2 then
      yearOfEra + era * 400 + 1 else yearOfEra + era * 400) ∧
    (civilFromDays days).day = dayOfYear - (153 * mp + 2) / 5 + 1 := by
  have hlow : 0 ≤ days + 719468 - (days + 719468) / 146097 * 146097 := by omega
  have hhigh : days + 719468 - (days + 719468) / 146097 * 146097 < 146097 := by omega
  refine ⟨(days + 719468) / 146097, _, _, _, yearOfEra_bounds hlow hhigh rfl,
    dayOfYear_bounds hlow hhigh rfl, rfl, ?_, rfl, rfl, rfl⟩
  omega

theorem daysFromCivil_civilFromDays (days : ℤ) :
    daysFromCivil (civilFromDays days).year (civilFromDays days).month (civilFromDays days).day =
      days := by
  obtain ⟨era, yearOfEra, dayOfYear, mp, hyear, hday, hmp, hdays, hm, hy, hd⟩ :=
    civilFromDays_parts days
  have hmpBounds : 0 ≤ mp ∧ mp ≤ 11 := by omega
  have hera : (yearOfEra + era * 400) / 400 = era := by omega
  unfold daysFromCivil
  rw [hm, hy, hd]
  dsimp only
  split
  · next hmarch =>
    have hmonth : (mp + 3 + 9) % 12 = mp := by omega
    rw [if_neg (by omega), if_neg (by omega), hera, Int.add_sub_cancel, hmonth]
    omega
  · next hmarch =>
    have hmonth : (mp - 9 + 9) % 12 = mp := by omega
    rw [if_pos (by omega), if_pos (by omega), Int.add_sub_cancel, hera, Int.add_sub_cancel, hmonth]
    omega

theorem civilFromDays_month (days : ℤ) :
    1 ≤ (civilFromDays days).month ∧ (civilFromDays days).month ≤ 12 := by
  obtain ⟨era, yearOfEra, dayOfYear, mp, -, hday, hmp, -, hm, -, -⟩ := civilFromDays_parts days
  rw [hm]
  split
  · omega
  · omega

/-- The first day that `Date.UTC` reads as itself: before it, the years 0 to 99 mean 1900 to 1999. -/
def firstPlainDay : ℤ := daysFromCivil 100 1 1

theorem civilFromDays_year {days : ℤ} (h : firstPlainDay ≤ days) : 100 ≤ (civilFromDays days).year := by
  have hfirst : firstPlainDay = -683003 := by decide
  rw [hfirst] at h
  obtain ⟨era, yearOfEra, dayOfYear, mp, hyear, hday, hmp, hdays, -, hy, -⟩ := civilFromDays_parts days
  rw [hy]
  split
  · omega
  · omega

theorem daysFromCivil_day (year month day : ℤ) :
    daysFromCivil year month day = daysFromCivil year month 1 + day - 1 := by
  unfold daysFromCivil
  dsimp only
  omega

/-- `Date.UTC` of a date, with any number of days added and any time of the day. -/
theorem utc_civilFromDays {days : ℤ} (h : firstPlainDay ≤ days) (more hour minute second : ℤ) :
    utc (civilFromDays days).year ((civilFromDays days).month - 1) ((civilFromDays days).day + more)
        hour minute second =
      (days + more) * msPerDay + hour * 3600000 + minute * msPerMinute + second * 1000 := by
  have hyear := civilFromDays_year h
  obtain ⟨hmonth, hmonth'⟩ := civilFromDays_month days
  have hdays := daysFromCivil_civilFromDays days
  unfold utc
  rw [if_neg (by omega)]
  have hquotient : ((civilFromDays days).month - 1) / 12 = 0 := by omega
  have hremainder : ((civilFromDays days).month - 1) % 12 + 1 = (civilFromDays days).month := by omega
  rw [hquotient, hremainder]
  dsimp only
  rw [Int.add_zero]
  have hday : daysFromCivil (civilFromDays days).year (civilFromDays days).month 1 +
      ((civilFromDays days).day + more) - 1 = days + more := by
    rw [daysFromCivil_day] at hdays
    omega
  rw [hday]

end QuokyPlatform.Date
