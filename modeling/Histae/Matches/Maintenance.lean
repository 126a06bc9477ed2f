import Histae.Matches.Access

/-!
# Match maintenance

The bounded statements of `src/matches/pg/maintenance.rs`, `inactivity.rs` and
`reminders.rs`. A statement works on the due rows in the order of their
deadline, at most `limit` of them, and passes over the rows that another
transaction holds locked.
-/

namespace Histae.Matches

open Relational

/-- One pass: the captured time, the batch size and the rows that are locked
elsewhere. -/
structure Pass where
  now : ℤ
  limit : ℕ
  locked : Uuid → Bool

def matchWarningDays : ℤ := 7

def matchFirstPeriodReminderHours : ℤ := 2

/-- `ORDER BY deadline, id`. -/
def dueBefore (deadline : MatchRecord → ℤ) (m n : MatchRecord) : Bool :=
  decide (deadline m < deadline n) || (deadline m = deadline n && decide (m.id ≤ n.id))

def candidates (db : Db) (pass : Pass) (deadline : MatchRecord → ℤ)
    (p : MatchRecord → Bool) : List MatchRecord :=
  ((db.matchInit.select fun m ↦ p m && !pass.locked m.id).insertionSort (dueBefore deadline · ·)).take
    pass.limit

/-- The rows with `status` whose deadline has passed. -/
def dueMatches (db : Db) (pass : Pass) (status : MatchStatus) : List Uuid :=
  (candidates db pass MatchRecord.expiresAt fun m ↦
    m.status = status && decide (m.expiresAt ≤ pass.now)).map MatchRecord.id

theorem MatchRecord.id_opened (m : MatchRecord) : m.opened.id = m.id := rfl

def openContinuationWindows (db : Db) (pass : Pass) : ℕ × Db :=
  let due := dueMatches db pass .active
  (due.length, updateMatch db pass.now (fun m ↦ m.id ∈ due) MatchRecord.opened MatchRecord.id_opened)

def expireContinuationWindows (db : Db) (pass : Pass) : ℕ × Db :=
  let due := dueMatches db pass .awaitingContinuation
  (due.length, updateMatch db pass.now (fun m ↦ m.id ∈ due)
    (MatchRecord.expiredUntil (pass.now + days matchPurgeDays)) fun _ ↦ rfl)

def closeInactiveMatches (db : Db) (pass : Pass) : ℕ × Db :=
  let due := dueMatches db pass .confirmed
  (due.length, updateMatch db pass.now (fun m ↦ m.id ∈ due) (MatchRecord.closedAt pass.now)
    fun _ ↦ rfl)

def Db.reachable (db : Db) (userId : Uuid) : Bool :=
  (db.accounts.find? userId).any fun a ↦ a.deletedAt.isNone && !a.isBanned

/-- Notices about a deadline to both participants of every selected match. -/
def enqueueDeadlines (clock : ℤ) (intent : Uuid → ℤ → NotificationIntent) :
    List MatchRecord → Db → Db
  | [], db => db
  | m :: rest, db =>
      let db := enqueueNotification db clock m.user1Id (.deadline m.id m.expiresAt)
        (intent m.id m.expiresAt)
      let db := enqueueNotification db clock m.user2Id (.deadline m.id m.expiresAt)
        (intent m.id m.expiresAt)
      enqueueDeadlines clock intent rest db

/-- A live match whose deadline lies at most `ahead` away and has not been
announced to its first participant. -/
def announcesDeadline (db : Db) (pass : Pass) (status : MatchStatus) (ahead : ℤ)
    (announced : MatchRecord → Notification → Bool) (m : MatchRecord) : Bool :=
  db.reachable m.user1Id && db.reachable m.user2Id && m.status = status &&
    decide (pass.now < m.expiresAt) && decide (m.expiresAt ≤ pass.now + ahead) &&
    !db.blocked m.user1Id m.user2Id &&
    !db.notifications.rows.any fun n ↦ n.userId = m.user1Id && announced m n

def enqueueFirstPeriodReminders (db : Db) (pass : Pass) (clock : ℤ) : ℕ × Db :=
  let announced := fun (m : MatchRecord) (n : Notification) ↦
    decide (n.intent.kind = .firstPeriodEnding) && n.intent.matchId = m.id &&
      n.expiresAt = m.expiresAt
  let due := candidates db pass MatchRecord.expiresAt
    (announcesDeadline db pass .active (hours matchFirstPeriodReminderHours) announced)
  (due.length, enqueueDeadlines clock .firstPeriodEnding due db)

def enqueueWarnings (db : Db) (pass : Pass) (clock : ℤ) : ℕ × Db :=
  let announced := fun (m : MatchRecord) (n : Notification) ↦
    decide (n.intent = .matchExpiring m.id m.expiresAt)
  let due := candidates db pass MatchRecord.expiresAt
    (announcesDeadline db pass .confirmed (days matchWarningDays) announced)
  (due.length, enqueueDeadlines clock .matchExpiring due db)

def purgeable (now : ℤ) (m : MatchRecord) : Bool :=
  (m.status = .expired || m.status = .ended) && m.purgeAfter.any fun at_ ↦ decide (at_ ≤ now)

/-- The messages in `chosen` leave the table when their match may be purged. -/
def deleteExpiredMessages (db : Db) (pass : Pass) (chosen : List Uuid) : Db :=
  { db with
    messages := db.messages.delete fun message ↦
      message.id ∈ chosen.take pass.limit &&
        (db.matchInit.find? message.matchId).any (purgeable pass.now) }

def deleteExpiredNotifications (db : Db) (pass : Pass)
    (chosen : List (NotificationType × NotificationSource × Uuid)) : Db :=
  { db with
    notifications := db.notifications.delete fun n ↦
      n.deduplicationKey ∈ chosen.take pass.limit &&
        (db.matchInit.find? n.intent.matchId).any fun m ↦
          m.isParticipant n.userId && purgeable pass.now m }

def purgeableMatches (db : Db) (pass : Pass) (reported : Uuid → Bool) : List Uuid :=
  (candidates db pass (fun m ↦ m.purgeAfter.getD 0) fun m ↦
    purgeable pass.now m && !db.messages.rows.any (fun message ↦ message.matchId = m.id) &&
      !reported m.id &&
      !db.notifications.rows.any fun n ↦ m.isParticipant n.userId && n.intent.matchId = m.id).map
    MatchRecord.id

/-- Deleting a match row cascades to its states, reservations and messages.
`reported` tells which matches a report still refers to. -/
def purgeExpiredMatches (db : Db) (pass : Pass) (reported : Uuid → Bool) : ℕ × Db :=
  let due := purgeableMatches db pass reported
  (due.length, { db with
    matchInit := db.matchInit.delete fun m ↦ m.id ∈ due
    matchState := db.matchState.delete fun s ↦ s.matchId ∈ due
    reservations := db.reservations.delete fun r ↦ r.matchId ∈ due
    messages := db.messages.delete fun message ↦ message.matchId ∈ due })

end Histae.Matches
