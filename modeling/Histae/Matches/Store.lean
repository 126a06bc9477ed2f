import Histae.Matches.Domain
import Histae.Relational.Table

/-!
# The match tables and the statements shared by the transactions

`Db` holds the tables that the match transactions touch. The effective plan of
a user is a component of its own, since it is computed from the subscription
tables. `updateMatch` is an `UPDATE match_init` whose `SET` list names the
status or the last message, so it passes through the inactivity trigger.
-/

namespace Histae.Matches

open Relational

structure Db where
  matchInit : Table MatchRecord.id
  matchState : Table MatchState.key
  reservations : Table Reservation.key
  usage : Table Usage.key
  wallets : Table Wallet.userId
  messages : Table MessageRecord.id
  notifications : Table Notification.deduplicationKey
  accounts : Table Account.userId
  consents : List Consent
  blocks : List (Uuid × Uuid)
  /-- The owners of a ready photo whose moderation case is approved. -/
  approvedPhotos : List Uuid
  plans : Uuid → EffectivePlan

namespace Db

def blocked (db : Db) (first second : Uuid) : Bool :=
  (first, second) ∈ db.blocks || (second, first) ∈ db.blocks

/-- Some account among `users` carries a deletion date. -/
def anyDeleted (db : Db) (users : List Uuid) : Bool :=
  users.any fun u ↦ (db.accounts.find? u).any fun a ↦ a.deletedAt.isSome

def usedCount (db : Db) (userId : Uuid) (week : ℤ) : ℕ :=
  ((db.usage.find? (userId, week)).map Usage.usedCount).getD 0

def freeUsedCount (db : Db) (userId : Uuid) (week : ℤ) : ℕ :=
  ((db.usage.find? (userId, week)).map Usage.freeUsedCount).getD 0

def effectivePlanOn (db : Db) (userId : Uuid) : EffectivePlan := db.plans userId

end Db

def trackMatchInactivity (clock : ℤ) (old new : MatchRecord) : MatchRecord :=
  if new.status = .confirmed then
    if old.status ≠ .confirmed then
      { new with expiresAt := clock + days matchInactivityDays }
    else if new.lastMessageAt ≠ old.lastMessageAt then
      match new.lastMessageAt with
      | some at_ => { new with expiresAt := at_ + days matchInactivityDays }
      | none => new
    else new
  else new

theorem trackMatchInactivity_id (clock : ℤ) (old new : MatchRecord) :
    (trackMatchInactivity clock old new).id = new.id := by
  unfold trackMatchInactivity
  split
  · split
    · rfl
    · split
      · split <;> rfl
      · rfl
  · rfl

theorem trackMatchInactivity_of_ne {clock : ℤ} {old new : MatchRecord}
    (h : new.status ≠ .confirmed) : trackMatchInactivity clock old new = new := by
  simp [trackMatchInactivity, h]

def updateMatch (db : Db) (clock : ℤ) (p : MatchRecord → Bool) (f : MatchRecord → MatchRecord)
    (hf : ∀ m, (f m).id = m.id) : Db :=
  { db with
    matchInit := db.matchInit.modify p (fun m ↦ trackMatchInactivity clock m (f m))
      fun m ↦ (trackMatchInactivity_id clock m (f m)).trans (hf m) }

theorem mem_updateMatch {db : Db} {clock : ℤ} {p : MatchRecord → Bool}
    {f : MatchRecord → MatchRecord} (hf : ∀ m, (f m).id = m.id) {m' : MatchRecord} :
    m' ∈ (updateMatch db clock p f hf).matchInit ↔
      ∃ m ∈ db.matchInit, m' = if p m then trackMatchInactivity clock m (f m) else m :=
  Table.mem_modify fun m ↦ (trackMatchInactivity_id clock m (f m)).trans (hf m)

/-- `DELETE FROM continuation_reservation WHERE match_id = $1`. -/
def deleteReservations (db : Db) (matchId : Uuid) : Db :=
  { db with reservations := db.reservations.delete fun r ↦ r.matchId = matchId }

def lockEligibleAccount (db : Db) (legal : Option LegalConfig) (account : Account) : Bool :=
  !account.isBanned && account.deletedAt.isNone &&
    match legal with
    | none => true
    | some legal =>
        account.role ≠ .user ||
          (db.consents.any (fun c ↦ c.userId = account.userId && c.granted &&
              c.withdrawnAt.isNone && c.consentType = .termsOfServiceAcceptance &&
              c.documentVersion = legal.termsVersion) &&
            db.consents.any (fun c ↦ c.userId = account.userId && c.granted &&
              c.withdrawnAt.isNone && c.consentType = .privacyNoticeAcknowledgement &&
              c.documentVersion = legal.privacyVersion))

def lockEligibleAccounts (db : Db) (users : List Uuid) (legal : Option LegalConfig) :
    Except DatabaseError Unit :=
  let accounts := db.accounts.select fun a ↦ a.userId ∈ users
  if accounts.length ≠ users.length then .error .accountUnavailable
  else if accounts.all (lockEligibleAccount db legal) then .ok ()
  else .error .accountUnavailable

/-- An inbox row for a live, unbanned account, unless its deduplication key
is already stored. -/
def enqueueNotification (db : Db) (clock : ℤ) (userId : Uuid) (source : NotificationSource)
    (intent : NotificationIntent) : Db :=
  match db.accounts.find? userId with
  | none => db
  | some account =>
      if account.deletedAt.isSome || account.isBanned then db
      else
        let row : Notification :=
          { userId, source, intent
            expiresAt := intent.expiresAt.getD (clock + seconds intent.kind.retentionSeconds) }
        { db with notifications := (db.notifications.insert? row).getD db.notifications }

/-- The tables that carry matches and credits, without notifications, the
choice flags, messages and the environment. -/
structure SameLedger (db db' : Db) : Prop where
  matchInit : db'.matchInit = db.matchInit
  reservations : db'.reservations = db.reservations
  usage : db'.usage = db.usage
  wallets : db'.wallets = db.wallets

namespace SameLedger

variable {db db' db'' : Db}

theorem refl (db : Db) : SameLedger db db := ⟨rfl, rfl, rfl, rfl⟩

theorem trans (h : SameLedger db db') (h' : SameLedger db' db'') : SameLedger db db'' :=
  ⟨h'.matchInit.trans h.matchInit, h'.reservations.trans h.reservations,
    h'.usage.trans h.usage, h'.wallets.trans h.wallets⟩

end SameLedger

theorem sameLedger_enqueueNotification (db : Db) (clock : ℤ) (userId : Uuid)
    (source : NotificationSource) (intent : NotificationIntent) :
    SameLedger db (enqueueNotification db clock userId source intent) := by
  unfold enqueueNotification
  split
  · exact .refl db
  · split
    · exact .refl db
    · exact ⟨rfl, rfl, rfl, rfl⟩

end Histae.Matches
