import Histae.Matches.Store

/-!
# Locking an available match

`lockAvailableMatch` is `src/matches/pg/access.rs`: it locks the row of a
participant, reads the database clock under the lock and lets the match age
before it answers. The inversion theorem lists everything a call can do; the
proofs about requests use it instead of unfolding the transaction.
-/

namespace Histae.Matches

open Relational

def MatchRecord.opened (m : MatchRecord) : MatchRecord :=
  { m with status := .awaitingContinuation, expiresAt := m.expiresAt + hours matchWindowHours }

def MatchRecord.expiredUntil (purgeAfter : ℤ) (m : MatchRecord) : MatchRecord :=
  { m with status := .expired, purgeAfter := some purgeAfter }

def MatchRecord.closedAt (now : ℤ) (m : MatchRecord) : MatchRecord :=
  { m with status := .ended, purgeAfter := some now }

def closeMatch (db : Db) (matchId : Uuid) (now : ℤ) : Db :=
  updateMatch db now (fun m ↦ m.id = matchId) (MatchRecord.closedAt now) fun _ ↦ rfl

def openWindow (db : Db) (matchId : Uuid) (now : ℤ) : Db :=
  updateMatch db now (fun m ↦ m.id = matchId) MatchRecord.opened fun _ ↦ rfl

/-- Expire the match and delete its reservations. -/
def expireWindow (db : Db) (matchId : Uuid) (now : ℤ) : Db :=
  deleteReservations
    (updateMatch db now (fun m ↦ m.id = matchId)
      (MatchRecord.expiredUntil (now + days matchPurgeDays)) fun _ ↦ rfl) matchId

/-- The row the request may see: of a participant, with neither participant
deleted nor blocking the other. -/
def accessibleMatch (db : Db) (matchId userId : Uuid) : Option MatchRecord :=
  (db.matchInit.find? matchId).filter fun m ↦
    m.isParticipant userId && !db.blocked m.user1Id m.user2Id &&
      !db.anyDeleted [m.user1Id, m.user2Id]

def isLive (status : MatchStatus) : Bool :=
  status = .active || status = .awaitingContinuation || status = .confirmed

def lockAvailableMatch (db : Db) (matchId userId : Uuid) (now : ℤ) :
    MatchCommandResult MatchRecord × Db :=
  match accessibleMatch db matchId userId with
  | none => (.unavailable .notFound, db)
  | some record =>
      if record.status = .confirmed ∧ record.expiresAt ≤ now then
        (.unavailable .expired, closeMatch db matchId now)
      else
        let opens := record.status = .active ∧ record.expiresAt ≤ now
        let db := if opens then openWindow db matchId now else db
        let record := if opens then record.opened else record
        if record.status = .awaitingContinuation ∧ record.expiresAt ≤ now then
          (.unavailable .expired, expireWindow db matchId now)
        else if !isLive record.status then (.unavailable .invalidState, db)
        else (.available record, db)

theorem accessibleMatch_eq_some {db : Db} {matchId userId : Uuid} {m : MatchRecord}
    (h : accessibleMatch db matchId userId = some m) :
    m ∈ db.matchInit ∧ m.id = matchId ∧ m.isParticipant userId = true ∧
      db.blocked m.user1Id m.user2Id = false := by
  obtain ⟨hfind, hguard⟩ := Option.filter_eq_some_iff.mp h
  obtain ⟨hmem, hid⟩ := Table.find?_eq_some_iff.mp hfind
  simp only [Bool.and_eq_true, Bool.not_eq_true'] at hguard
  exact ⟨hmem, hid, hguard.1.1, hguard.1.2⟩

/-- What one call of `lockAvailableMatch` can answer and write. -/
inductive LockOutcome (db : Db) (matchId userId : Uuid) (now : ℤ) :
    MatchCommandResult MatchRecord → Db → Prop
  | notFound (h : accessibleMatch db matchId userId = none) :
      LockOutcome db matchId userId now (.unavailable .notFound) db
  | closed (m : MatchRecord) (h : accessibleMatch db matchId userId = some m)
      (hstatus : m.status = .confirmed) (hdue : m.expiresAt ≤ now) :
      LockOutcome db matchId userId now (.unavailable .expired) (closeMatch db matchId now)
  | openedExpired (m : MatchRecord) (h : accessibleMatch db matchId userId = some m)
      (hstatus : m.status = .active) (hdue : m.opened.expiresAt ≤ now) :
      LockOutcome db matchId userId now (.unavailable .expired)
        (expireWindow (openWindow db matchId now) matchId now)
  | opened (m : MatchRecord) (h : accessibleMatch db matchId userId = some m)
      (hstatus : m.status = .active) (hdue : m.expiresAt ≤ now)
      (hopen : now < m.opened.expiresAt) :
      LockOutcome db matchId userId now (.available m.opened) (openWindow db matchId now)
  | expired (m : MatchRecord) (h : accessibleMatch db matchId userId = some m)
      (hstatus : m.status = .awaitingContinuation) (hdue : m.expiresAt ≤ now) :
      LockOutcome db matchId userId now (.unavailable .expired) (expireWindow db matchId now)
  | finished (m : MatchRecord) (h : accessibleMatch db matchId userId = some m)
      (hstatus : isLive m.status = false) :
      LockOutcome db matchId userId now (.unavailable .invalidState) db
  | live (m : MatchRecord) (h : accessibleMatch db matchId userId = some m)
      (hstatus : isLive m.status = true) (hopen : now < m.expiresAt) :
      LockOutcome db matchId userId now (.available m) db

theorem lockAvailableMatch_outcome (db : Db) (matchId userId : Uuid) (now : ℤ) :
    LockOutcome db matchId userId now (lockAvailableMatch db matchId userId now).1
      (lockAvailableMatch db matchId userId now).2 := by
  unfold lockAvailableMatch
  cases h : accessibleMatch db matchId userId with
  | none => exact .notFound h
  | some m =>
      have hwindow : 0 < hours matchWindowHours := by decide
      have hexpiry : m.opened.expiresAt = m.expiresAt + hours matchWindowHours := rfl
      by_cases hdue : m.expiresAt ≤ now
      · cases hstatus : m.status with
        | confirmed => simpa [hstatus, hdue] using LockOutcome.closed m h hstatus hdue
        | active =>
            have hopened : m.opened.status = .awaitingContinuation := rfl
            by_cases hdue' : m.opened.expiresAt ≤ now
            · simpa [hstatus, hdue, hopened, hdue'] using
                LockOutcome.openedExpired m h hstatus hdue'
            · simpa [hstatus, hdue, hopened, hdue', isLive] using
                LockOutcome.opened m h hstatus hdue (not_le.mp hdue')
        | awaitingContinuation =>
            simpa [hstatus, hdue] using LockOutcome.expired m h hstatus hdue
        | expired =>
            have hfinished : LockOutcome db matchId userId now (.unavailable .invalidState) db :=
              .finished m h (by simp [hstatus, isLive])
            simpa [hstatus, isLive] using hfinished
        | ended =>
            have hfinished : LockOutcome db matchId userId now (.unavailable .invalidState) db :=
              .finished m h (by simp [hstatus, isLive])
            simpa [hstatus, isLive] using hfinished
      · cases hlive : isLive m.status with
        | false =>
            have hfinished : LockOutcome db matchId userId now (.unavailable .invalidState) db :=
              .finished m h hlive
            simpa [hdue, hlive] using hfinished
        | true => simpa [hdue, hlive] using LockOutcome.live m h hlive (not_le.mp hdue)

theorem LockOutcome.of_eq {db db' : Db} {matchId userId : Uuid} {now : ℤ}
    {result : MatchCommandResult MatchRecord}
    (h : lockAvailableMatch db matchId userId now = (result, db')) :
    LockOutcome db matchId userId now result db' := by
  have houtcome := lockAvailableMatch_outcome db matchId userId now
  rwa [h] at houtcome

/-- An available match is live and its deadline lies ahead of the reading. -/
theorem LockOutcome.isLive_of_available {db db' : Db} {matchId userId : Uuid} {now : ℤ}
    {m : MatchRecord} (h : lockAvailableMatch db matchId userId now = (.available m, db')) :
    isLive m.status = true ∧ now < m.expiresAt := by
  cases LockOutcome.of_eq h with
  | opened m hfound hstatus hdue hopen => exact ⟨rfl, hopen⟩
  | live m hfound hstatus hopen => exact ⟨hstatus, hopen⟩

end Histae.Matches
