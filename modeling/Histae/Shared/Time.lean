import Mathlib

/-!
# Instants, dates and identifiers

Instants are whole microseconds since the Unix epoch, the precision of a
PostgreSQL `timestamptz`. A date is its number of days since the epoch, and
the epoch itself fell on a Thursday.
-/

namespace Histae

/-- A 128-bit identifier, ordered like its big-endian bytes. -/
abbrev Uuid := BitVec 128

instance lawfulBEqUuid : LawfulBEq Uuid := inferInstance

instance lawfulBEqUuidPair : LawfulBEq (Uuid × Uuid) := inferInstance

instance lawfulBEqChars : LawfulBEq (List Char) := inferInstance

def seconds (n : ℤ) : ℤ := n * 1000000

def minutes (n : ℤ) : ℤ := n * 60000000

def hours (n : ℤ) : ℤ := n * 3600000000

def days (n : ℤ) : ℤ := n * 86400000000

def dateNaive (now : ℤ) : ℤ := now / 86400000000

def numDaysFromMonday (date : ℤ) : ℤ := (date + 3) % 7

def startOfUtcWeek (now : ℤ) : ℤ :=
  dateNaive now - numDaysFromMonday (dateNaive now)

theorem dateNaive_mono {s t : ℤ} (h : s ≤ t) : dateNaive s ≤ dateNaive t := by
  unfold dateNaive
  omega

theorem startOfUtcWeek_mono {s t : ℤ} (h : s ≤ t) :
    startOfUtcWeek s ≤ startOfUtcWeek t := by
  have hdate := dateNaive_mono h
  unfold startOfUtcWeek numDaysFromMonday
  omega

theorem startOfUtcWeek_monday (now : ℤ) : numDaysFromMonday (startOfUtcWeek now) = 0 := by
  unfold startOfUtcWeek numDaysFromMonday
  omega

/-- The last second of Sunday, 6 January 2030, belongs to the week of Monday,
31 December 2029. -/
example : startOfUtcWeek (seconds 1893974399) = 21914 := by decide

end Histae
