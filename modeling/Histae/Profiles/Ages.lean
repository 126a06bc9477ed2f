import Mathlib
import Histae.Text.Dates

/-!
# The four ways of telling an age

The check of the profile service compares years, then months and days. The
trigger of the profile table subtracts eighteen years. The feed subtracts the
limits of the wanted ages from the date, and reads the age of the viewer as the
years of `age`. They agree for every birthdate that has passed; of a birthdate
to come, the years of `age` are rounded towards zero, and the limits have to be
positive.
-/

namespace Histae.Profiles

open Text

def isAdult (birthdate today : CivilDate) : Bool :=
  let thresholdYear := today.year - 18
  birthdate.year < thresholdYear ||
    (birthdate.year = thresholdYear &&
      (birthdate.month < today.month ||
        birthdate.month = today.month && birthdate.day ≤ today.day))

/-- `fct_check_user_age`. -/
def checkUserAge (today birthdate : CivilDate) : Except String Unit :=
  if (today.subYears 18).Before birthdate then
    .error "User must be at least 18 years old"
  else .ok ()

/-- `birthdate > oldest_birthdate AND birthdate <= youngest_birthdate`. -/
def birthdateFilter (today : CivilDate) (minAge maxAge : ℤ) (birthdate : CivilDate) : Bool :=
  let oldestBirthdate := today.subYears (maxAge + 1)
  let youngestBirthdate := today.subYears minAge
  decide (oldestBirthdate.Before birthdate) && !decide (youngestBirthdate.Before birthdate)

/-- `age BETWEEN min_age AND max_age`. -/
def ageFilter (today : CivilDate) (minAge maxAge : ℤ) (birthdate : CivilDate) : Bool :=
  minAge ≤ today.age birthdate && today.age birthdate ≤ maxAge

variable (today birthdate : CivilDate)

theorem checkUserAge_ok_iff :
    checkUserAge today birthdate = .ok () ↔ ¬ (today.subYears 18).Before birthdate := by
  unfold checkUserAge
  by_cases h : (today.subYears 18).Before birthdate
  · simp [h]
  · simp [h]

/-- The day of the month that the clamping removes is never born on. -/
theorem isAdult_iff : isAdult birthdate today = true ↔ ¬ (today.subYears 18).Before birthdate := by
  have hday : birthdate.year = today.year - 18 → birthdate.month = today.month →
      birthdate.day ≤ daysInMonth (today.year - 18) today.month := by
    intro hyear hmonth
    rw [← hyear, ← hmonth]
    exact birthdate.day_range.2
  simp only [isAdult, Bool.or_eq_true, Bool.and_eq_true, decide_eq_true_eq]
  unfold CivilDate.Before CivilDate.monthDayBefore CivilDate.subYears
  simp only
  omega

variable {today birthdate}

/-- A limit on ages as a limit on birthdates, if the birthdate has passed. -/
theorem le_age_iff_of_past (hpast : ¬ today.Before birthdate) (n : ℤ) :
    n ≤ today.age birthdate ↔ ¬ (today.subYears n).Before birthdate := by
  by_cases hn : 1 ≤ n
  · exact CivilDate.le_age_iff today birthdate hn
  · have hage : 0 ≤ today.age birthdate := by
      unfold CivilDate.age
      rw [if_neg hpast]
      exact CivilDate.yearsSince_nonneg hpast
    have hafter : ¬ (today.subYears n).Before birthdate := by
      have hday := birthdate.day_range.2
      have htoday := today.day_range.2
      by_cases hzero : n = 0
      · subst hzero
        unfold CivilDate.Before CivilDate.monthDayBefore CivilDate.subYears at *
        simp only [sub_zero] at *
        omega
      · unfold CivilDate.Before CivilDate.monthDayBefore CivilDate.subYears at *
        simp only at *
        omega
    exact iff_of_true (by omega) hafter

theorem filters_agree {minAge maxAge : ℤ} (hle : minAge ≤ maxAge)
    (h : ¬ today.Before birthdate ∨ 1 ≤ minAge) :
    birthdateFilter today minAge maxAge birthdate = ageFilter today minAge maxAge birthdate := by
  have hlimit (n : ℤ) (hn : ¬ today.Before birthdate ∨ 1 ≤ n) :
      n ≤ today.age birthdate ↔ ¬ (today.subYears n).Before birthdate := by
    rcases hn with hpast | hn
    · exact le_age_iff_of_past hpast n
    · exact CivilDate.le_age_iff today birthdate hn
  have hmin := hlimit minAge h
  have hmax := hlimit (maxAge + 1) (h.imp_right fun hn ↦ by omega)
  rw [Bool.eq_iff_iff]
  simp only [birthdateFilter, ageFilter, Bool.and_eq_true, decide_eq_true_eq, Bool.not_eq_true',
    decide_eq_false_iff_not]
  rw [← hmin, ← not_iff_not.mpr hmax |>.trans not_not, not_le]
  omega

/-- The age computations agree on every pair of dates. -/
theorem age_computations_agree (today birthdate : CivilDate) :
    (isAdult birthdate today = true ↔ checkUserAge today birthdate = .ok ()) ∧
      (isAdult birthdate today = true ↔ 18 ≤ today.age birthdate) ∧
      ∀ minAge maxAge : ℤ, minAge ≤ maxAge → (¬ today.Before birthdate ∨ 1 ≤ minAge) →
        birthdateFilter today minAge maxAge birthdate =
          ageFilter today minAge maxAge birthdate := by
  refine ⟨?_, ?_, fun _ _ ↦ filters_agree⟩
  · rw [isAdult_iff, checkUserAge_ok_iff]
  · rw [isAdult_iff, CivilDate.le_age_iff today birthdate (by decide)]

theorem age_computations_agree_leap_day :
    birthdateFilter ⟨2025, 2, 28, by decide, by decide⟩ 18 25 ⟨2000, 2, 29, by decide, by decide⟩ =
      ageFilter ⟨2025, 2, 28, by decide, by decide⟩ 18 25
        ⟨2000, 2, 29, by decide, by decide⟩ :=
  (age_computations_agree ⟨2025, 2, 28, by decide, by decide⟩
    ⟨2000, 2, 29, by decide, by decide⟩).2.2 18 25 (by decide) (Or.inr (by decide))

/-- Five months before a birth, `age` has zero years. -/
theorem unborn_age_is_zero :
    ¬ ∀ (today birthdate : CivilDate) (minAge maxAge : ℤ), minAge ≤ maxAge →
      birthdateFilter today minAge maxAge birthdate =
        ageFilter today minAge maxAge birthdate := by
  intro h
  have hsame := h ⟨2024, 1, 1, by decide, by decide⟩ ⟨2024, 6, 1, by decide, by decide⟩ 0 0
    (by decide)
  exact absurd hsame (by decide)

end Histae.Profiles
