import Mathlib

/-!
# The Gregorian calendar

An instant is a number of microseconds since the Unix epoch, a `CivilTime` its
date and time of day in UTC. Years are counted from March, so that the leap
day ends its year, and in eras of 400 years, which all have 146097 days.
-/

namespace Histae.Text

structure CivilTime where
  year : ℤ
  month : ℤ
  day : ℤ
  hour : ℤ
  minute : ℤ
  second : ℤ
  micro : ℤ
  deriving DecidableEq

def isLeapYear (year : ℤ) : Bool := year % 4 = 0 && (year % 100 ≠ 0 || year % 400 = 0)

def daysInMonth (year month : ℤ) : ℤ :=
  if month = 2 then if isLeapYear year then 29 else 28
  else if month = 4 ∨ month = 6 ∨ month = 9 ∨ month = 11 then 30
  else 31

structure CivilTime.Valid (c : CivilTime) : Prop where
  month : 1 ≤ c.month ∧ c.month ≤ 12
  day : 1 ≤ c.day ∧ c.day ≤ daysInMonth c.year c.month
  hour : 0 ≤ c.hour ∧ c.hour < 24
  minute : 0 ≤ c.minute ∧ c.minute < 60
  second : 0 ≤ c.second ∧ c.second < 60
  micro : 0 ≤ c.micro ∧ c.micro < 1000000

/-- The days of the months before a month, when months are counted from March. -/
def monthOffset (index : ℤ) : ℤ := (153 * index + 2) / 5

/-- The days since the epoch of a date. -/
def daysFromCivil (year month day : ℤ) : ℤ :=
  let marchYear := if month ≤ 2 then year - 1 else year
  let index := if month ≤ 2 then month + 9 else month - 3
  365 * marchYear + marchYear / 4 - marchYear / 100 + marchYear / 400 + monthOffset index + day - 1
    - 719468

def microsPerDay : ℤ := 86400000000

def CivilTime.instant (c : CivilTime) : ℤ :=
  daysFromCivil c.year c.month c.day * microsPerDay + c.hour * 3600000000 + c.minute * 60000000 +
    c.second * 1000000 + c.micro

/-- A day of an era by century, four-year cycle and year of the cycle. -/
structure EraDay where
  century : ℤ
  cycle : ℤ
  year : ℤ
  day : ℤ

def EraDay.of (dayOfEra : ℤ) : EraDay :=
  let century := min (dayOfEra / 36524) 3
  let dayOfCentury := dayOfEra - 36524 * century
  let cycle := dayOfCentury / 1461
  let dayOfCycle := dayOfCentury - 1461 * cycle
  let year := min (dayOfCycle / 365) 3
  ⟨century, cycle, year, dayOfCycle - 365 * year⟩

structure EraDay.Of (dayOfEra : ℤ) (e : EraDay) : Prop where
  total : dayOfEra = 36524 * e.century + 1461 * e.cycle + 365 * e.year + e.day
  century : 0 ≤ e.century ∧ e.century ≤ 3
  cycle : 0 ≤ e.cycle ∧ e.cycle ≤ 24
  year : 0 ≤ e.year ∧ e.year ≤ 3
  day : 0 ≤ e.day ∧ e.day ≤ 365
  leap : e.day = 365 → e.year = 3 ∧ (e.cycle = 24 → e.century = 3)

theorem EraDay.of_spec {dayOfEra : ℤ} (h : 0 ≤ dayOfEra ∧ dayOfEra < 146097) :
    EraDay.Of dayOfEra (EraDay.of dayOfEra) := by
  unfold EraDay.of
  constructor <;> dsimp only <;> omega

/-- The March year and the index of the month in it. -/
def civilFromDays (days : ℤ) : ℤ × ℤ × ℤ :=
  let shifted := days + 719468
  let era := shifted / 146097
  let e := EraDay.of (shifted % 146097)
  let marchYear := 400 * era + 100 * e.century + 4 * e.cycle + e.year
  let index := (5 * e.day + 2) / 153
  (if index < 10 then marchYear else marchYear + 1, if index < 10 then index + 3 else index - 9,
    e.day - monthOffset index + 1)

theorem leapDays_marchYear (era : ℤ) {century cycle year : ℤ} (hcentury : 0 ≤ century ∧ century ≤ 3)
    (hcycle : 0 ≤ cycle ∧ cycle ≤ 24) (hyear : 0 ≤ year ∧ year ≤ 3) :
    (400 * era + 100 * century + 4 * cycle + year) / 4 = 100 * era + 25 * century + cycle ∧
      (400 * era + 100 * century + 4 * cycle + year) / 100 = 4 * era + century ∧
      (400 * era + 100 * century + 4 * cycle + year) / 400 = era := by
  refine ⟨by omega, by omega, by omega⟩

theorem daysFromCivil_of_march {marchYear index day : ℤ} (hindex : 0 ≤ index ∧ index ≤ 11) :
    daysFromCivil (if index < 10 then marchYear else marchYear + 1)
        (if index < 10 then index + 3 else index - 9) day =
      365 * marchYear + marchYear / 4 - marchYear / 100 + marchYear / 400 + monthOffset index +
        day - 1 - 719468 := by
  by_cases hlt : index < 10
  · have hlate : ¬ index + 3 ≤ 2 := by omega
    simp only [daysFromCivil, hlt, hlate, if_true, if_false, add_sub_cancel_right]
  · have hearly : index - 9 ≤ 2 := by omega
    simp only [daysFromCivil, hlt, hearly, if_true, if_false, add_sub_cancel_right,
      sub_add_cancel]

theorem daysFromCivil_civilFromDays (days : ℤ) :
    daysFromCivil (civilFromDays days).1 (civilFromDays days).2.1 (civilFromDays days).2.2 =
      days := by
  have hshift : 0 ≤ (days + 719468) % 146097 ∧ (days + 719468) % 146097 < 146097 := by omega
  obtain ⟨htotal, hcentury, hcycle, hyear, hday, _⟩ := EraDay.of_spec hshift
  obtain ⟨hfour, hhundred, hera⟩ :=
    leapDays_marchYear ((days + 719468) / 146097) hcentury hcycle hyear
  simp only [civilFromDays]
  rw [daysFromCivil_of_march (by omega), hfour, hhundred, hera]
  omega

/-- A day of a March year falls into its month, the leap day into February. -/
theorem day_le_daysInMonth {marchYear index day : ℤ} (hday : 0 ≤ day ∧ day ≤ 365)
    (hindex : index = (5 * day + 2) / 153)
    (hleap : day = 365 → isLeapYear (marchYear + 1) = true) :
    day - monthOffset index + 1 ≤
      daysInMonth (if index < 10 then marchYear else marchYear + 1)
        (if index < 10 then index + 3 else index - 9) := by
  by_cases hlt : index < 10
  · simp only [daysInMonth, monthOffset, hlt, if_true]
    split
    · omega
    · split <;> omega
  · simp only [daysInMonth, monthOffset, hlt, if_false]
    split
    · split
      · omega
      · rename_i hcommon
        have hne : day ≠ 365 := fun h ↦ hcommon (hleap h)
        omega
    · split <;> omega

theorem isLeapYear_of_eraDay {era : ℤ} {e : EraDay} {dayOfEra : ℤ} (h : EraDay.Of dayOfEra e)
    (hday : e.day = 365) :
    isLeapYear (400 * era + 100 * e.century + 4 * e.cycle + e.year + 1) = true := by
  obtain ⟨hyear, hlast⟩ := h.leap hday
  have hcentury := h.century
  have hcycle := h.cycle
  unfold isLeapYear
  rw [Bool.and_eq_true, Bool.or_eq_true, decide_eq_true_iff, decide_eq_true_iff,
    decide_eq_true_iff]
  refine ⟨by omega, ?_⟩
  by_cases hend : e.cycle = 24
  · right
    have hthree := hlast hend
    omega
  · left
    omega

theorem civilFromDays_valid (days : ℤ) :
    (1 ≤ (civilFromDays days).2.1 ∧ (civilFromDays days).2.1 ≤ 12) ∧
      1 ≤ (civilFromDays days).2.2 ∧
      (civilFromDays days).2.2 ≤ daysInMonth (civilFromDays days).1 (civilFromDays days).2.1 := by
  have hshift : 0 ≤ (days + 719468) % 146097 ∧ (days + 719468) % 146097 < 146097 := by omega
  have he := EraDay.of_spec hshift
  have hday := he.day
  simp only [civilFromDays]
  refine ⟨?_, ?_, ?_⟩
  · split <;> omega
  · unfold monthOffset
    omega
  · exact day_le_daysInMonth hday rfl fun h ↦ isLeapYear_of_eraDay he h

def CivilTime.ofInstant (t : ℤ) : CivilTime :=
  let date := civilFromDays (t / microsPerDay)
  let rest := t % microsPerDay
  { year := date.1, month := date.2.1, day := date.2.2
    hour := rest / 3600000000
    minute := rest / 60000000 % 60
    second := rest / 1000000 % 60
    micro := rest % 1000000 }

theorem CivilTime.valid_ofInstant (t : ℤ) : (CivilTime.ofInstant t).Valid := by
  obtain ⟨hmonth, hday⟩ := civilFromDays_valid (t / microsPerDay)
  have hrest : 0 ≤ t % microsPerDay ∧ t % microsPerDay < 86400000000 := by
    unfold microsPerDay
    omega
  refine ⟨hmonth, hday, ?_, ?_, ?_, ?_⟩ <;> dsimp only [CivilTime.ofInstant] <;> omega

@[simp] theorem CivilTime.instant_ofInstant (t : ℤ) : (CivilTime.ofInstant t).instant = t := by
  have hdays := daysFromCivil_civilFromDays (t / microsPerDay)
  have hsplit : t / microsPerDay * microsPerDay + t % microsPerDay = t := by
    unfold microsPerDay
    omega
  have hrest : 0 ≤ t % microsPerDay := by
    unfold microsPerDay
    omega
  simp only [CivilTime.instant, CivilTime.ofInstant, hdays]
  generalize t % microsPerDay = rest at hsplit hrest ⊢
  omega

/-- 29 February 2032, the last microsecond of the day. -/
example : CivilTime.ofInstant 1961711999999999 = ⟨2032, 2, 29, 23, 59, 59, 999999⟩ := by decide

end Histae.Text
