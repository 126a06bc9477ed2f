import Mathlib
import Histae.Text.Calendar

/-!
# Dates and ages

The symbolic arithmetic of PostgreSQL on dates. Subtracting years keeps the
month and the day, but for a day that the month does not have, which becomes
its last one. The years of `age` count the anniversaries that have passed. A
date is at or before the day `n` years ago exactly when the age is at least
`n`, on leap days too.
-/

namespace Histae.Text

structure CivilDate where
  year : ℤ
  month : ℤ
  day : ℤ
  month_range : 1 ≤ month ∧ month ≤ 12
  day_range : 1 ≤ day ∧ day ≤ daysInMonth year month
  deriving DecidableEq

namespace CivilDate

def monthDayBefore (a b : CivilDate) : Prop :=
  a.month < b.month ∨ a.month = b.month ∧ a.day < b.day

def Before (a b : CivilDate) : Prop :=
  a.year < b.year ∨ a.year = b.year ∧ a.monthDayBefore b

instance (a b : CivilDate) : Decidable (a.monthDayBefore b) :=
  inferInstanceAs (Decidable (_ ∨ _ ∧ _))

instance (a b : CivilDate) : Decidable (a.Before b) := inferInstanceAs (Decidable (_ ∨ _ ∧ _))

theorem one_le_daysInMonth (year month : ℤ) : 1 ≤ daysInMonth year month := by
  unfold daysInMonth
  split
  · split <;> decide
  · split <;> decide

/-- `date - make_interval(years => n)`. -/
def subYears (a : CivilDate) (n : ℤ) : CivilDate where
  year := a.year - n
  month := a.month
  day := min a.day (daysInMonth (a.year - n) a.month)
  month_range := a.month_range
  day_range := ⟨le_min a.day_range.1 (one_le_daysInMonth _ _), min_le_right _ _⟩

/-- The years between two dates, the first of which is not before the second. -/
def yearsSince (a b : CivilDate) : ℤ :=
  if a.monthDayBefore b then a.year - b.year - 1 else a.year - b.year

/-- `date_part('year', age(a, b))`. -/
def age (a b : CivilDate) : ℤ := if a.Before b then -yearsSince b a else yearsSince a b

theorem yearsSince_nonneg {a b : CivilDate} (h : ¬ a.Before b) : 0 ≤ yearsSince a b := by
  unfold yearsSince
  by_cases hday : a.monthDayBefore b
  · rw [if_pos hday]
    unfold Before monthDayBefore at *
    omega
  · rw [if_neg hday]
    unfold Before monthDayBefore at *
    omega

/-- The days at or before an anniversary's date, and the anniversary itself. -/
theorem le_age_iff (today birthdate : CivilDate) {n : ℤ} (hn : 1 ≤ n) :
    n ≤ age today birthdate ↔ ¬ (today.subYears n).Before birthdate := by
  have hday : birthdate.year = today.year - n → birthdate.month = today.month →
      birthdate.day ≤ daysInMonth (today.year - n) today.month := by
    intro hyear hmonth
    rw [← hyear, ← hmonth]
    exact birthdate.day_range.2
  by_cases hfuture : today.Before birthdate
  · have hage : age today birthdate ≤ 0 := by
      have hpast : ¬ birthdate.Before today := by
        unfold Before monthDayBefore at *
        omega
      have hnonneg := yearsSince_nonneg hpast
      unfold age
      rw [if_pos hfuture]
      omega
    have hbefore : (today.subYears n).Before birthdate := by
      unfold Before monthDayBefore subYears at *
      simp only
      omega
    exact iff_of_false (by omega) (not_not.mpr hbefore)
  · have hage : age today birthdate = yearsSince today birthdate := if_neg hfuture
    rw [hage, yearsSince]
    by_cases hearlier : today.monthDayBefore birthdate
    · rw [if_pos hearlier]
      unfold Before monthDayBefore subYears at *
      simp only
      omega
    · rw [if_neg hearlier]
      unfold Before monthDayBefore subYears at *
      simp only
      omega

end CivilDate

/-- Born on a leap day, and not yet of age on the last day of February. -/
example : (⟨2018, 2, 28, by decide, by decide⟩ : CivilDate).age
    ⟨2000, 2, 29, by decide, by decide⟩ = 17 := by decide

end Histae.Text
