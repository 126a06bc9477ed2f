import Histae.Matches.Access

/-!
# Creating, ending and revealing a match

The remaining participant transactions on a match row: creation from a mutual
like (`src/matches/service.rs` and `src/matches/pg/matches.rs`), the end of a
match, and the photo reveal of `src/matches/pg/reveal.rs`.
-/

namespace Histae.Matches

open Relational

/-- The insertion branch of the inactivity trigger. -/
def trackInsertedMatch (clock : ℤ) (new : MatchRecord) : MatchRecord :=
  if new.status = .confirmed then { new with expiresAt := clock + days matchInactivityDays }
  else new

def availableAccounts (db : Db) (users : List Uuid) : List Account :=
  db.accounts.select fun a ↦ a.userId ∈ users && a.deletedAt.isNone && !a.isBanned

def insertMatch (db : Db) (record : MatchRecord) (clock : ℤ) : Except MatchStoreError Db :=
  if ¬ record.user1Id < record.user2Id then .error (.database (.constraint .check))
  else if db.matchInit.rows.any fun m ↦ m.user1Id = record.user1Id && m.user2Id = record.user2Id then
    .error (.database (.constraint .unique))
  else
    match db.matchInit.insert? (trackInsertedMatch clock record) with
    | none => .error (.database (.constraint .unique))
    | some matchInit => .ok { db with matchInit }

def insertMatchState (db : Db) (matchId userId : Uuid) : Except MatchStoreError Db :=
  match db.matchState.insert? ⟨matchId, userId, false, false⟩ with
  | none => .error (.database (.constraint .unique))
  | some matchState => .ok { db with matchState }

def create (db : Db) (record : MatchRecord) (clock : ℤ) : Except MatchStoreError Db :=
  let available := availableAccounts db [record.user1Id, record.user2Id]
  if available.length ≠ 2 ∨ available.any Account.discoveryPaused then
    .error .participantUnavailable
  else if db.blocked record.user1Id record.user2Id then .error .blocked
  else do
    let db ← insertMatch db record clock
    let db ← insertMatchState db record.id record.user1Id
    let db ← insertMatchState db record.id record.user2Id
    let db := enqueueNotification db clock record.user1Id (.id record.id) (.newMatch record.id)
    .ok (enqueueNotification db clock record.user2Id (.id record.id) (.newMatch record.id))

/-- The record that `create_from_mutual_like` hands to the store. -/
def mutualLikeRecord (id first second : Uuid) (now : ℤ) : MatchRecord where
  id := id
  user1Id := if first < second then first else second
  user2Id := if first < second then second else first
  status := .active
  expiresAt := now + hours matchWindowHours
  purgeAfter := none
  continuationInitiatorId := none
  createdAt := now
  lastMessageAt := none
  photoRevealVersion := 0

inductive MatchError
  | invalidRequest
  | invalidMessageRequest
  | invalidIdempotencyKey
  | invalidCursor
  | notFound
  | blocked
  | candidateNotFound
  | invalidState
  | continuationNotAvailableYet
  | expired
  | quotaReached
  | planChanged
  | messagingUnavailable
  | messageNotFound
  | idempotencyConflict
  | photoStorageUnavailable
  | photoRequired
  | database (error : DatabaseError)
  deriving DecidableEq

def MatchError.ofStore : MatchStoreError → MatchError
  | .blocked => .blocked
  | .participantUnavailable => .candidateNotFound
  | .continuationExpired => .expired
  | .photoRequired => .photoRequired
  | .database error => .database error

def findByPair (db : Db) (user1Id user2Id : Uuid) : Option MatchRecord :=
  db.matchInit.rows.find? fun m ↦ m.user1Id = user1Id && m.user2Id = user2Id

/-- The answered record and the tables; a pair that is already matched gets
its stored record back. -/
def createFromMutualLike (db : Db) (id first second : Uuid) (now clock : ℤ) :
    Except MatchError (MatchRecord × Db) :=
  if first = 0 ∨ second = 0 ∨ first = second then .error .invalidRequest
  else
    let record := mutualLikeRecord id first second now
    match create db record clock with
    | .ok db => .ok (record, db)
    | .error (.database (.constraint .unique)) =>
        match findByPair db record.user1Id record.user2Id with
        | some stored => .ok (stored, db)
        | none => .error (.database .queryFailed)
    | .error error => .error (.ofStore error)

def MatchRecord.endedAt (checked stamped : ℤ) (m : MatchRecord) : MatchRecord :=
  { m with
    status := .ended
    purgeAfter := some (m.purgeAfter.getD
      (if m.status = .confirmed ∧ m.expiresAt ≤ checked then stamped
        else stamped + days matchPurgeDays)) }

/-- The update reads the clock twice, to test an inactivity deadline and to
stamp the purge date. -/
def recordEnd (db : Db) (matchId userId : Uuid) (checked stamped : ℤ) : Option MatchEnd × Db :=
  let found := (db.matchInit.find? matchId).filter fun m ↦
    m.isParticipant userId && !db.anyDeleted [m.user1Id, m.user2Id]
  match found with
  | none => (none, db)
  | some m =>
      let changed := m.status ≠ .ended
      let db :=
        if changed then
          deleteReservations
            (updateMatch db stamped (fun m ↦ m.id = matchId) (MatchRecord.endedAt checked stamped)
              fun _ ↦ rfl) matchId
        else db
      (some ⟨(m.user1Id, m.user2Id), changed⟩, db)

def participantPhotosReady (db : Db) (users : List Uuid) : Bool :=
  (users.filter (· ∈ db.approvedPhotos)).dedup.length = 2

def MatchState.reveal (revealed : Bool) (s : MatchState) : MatchState := { s with revealed }

theorem MatchState.key_reveal (revealed : Bool) (s : MatchState) :
    (s.reveal revealed).key = s.key := rfl

def Db.photosRevealed (db : Db) (matchId : Uuid) : Bool :=
  let states := db.matchState.select fun s ↦ s.matchId = matchId
  states.length = 2 && states.all MatchState.revealed

/-- The statement reads the states as they were before its own update, with
the new consent of the caller laid over them. -/
def Db.revealedWith (db : Db) (matchId userId : Uuid) (granted : Bool) : Bool :=
  let states := db.matchState.select fun s ↦ s.matchId = matchId
  states.length = 2 && states.all fun s ↦ if s.userId = userId then granted else s.revealed

def MatchRecord.revealedAgain (m : MatchRecord) : MatchRecord :=
  { m with photoRevealVersion := m.photoRevealVersion + 1 }

theorem MatchRecord.id_revealedAgain (m : MatchRecord) : m.revealedAgain.id = m.id := rfl

/-- The version column is no trigger column, so this update does not pass
through the inactivity trigger. -/
def announceReveal (db : Db) (record : MatchRecord) (matchId : Uuid) (clock : ℤ) : Db :=
  let db := { db with
    matchInit := db.matchInit.modify (fun m ↦ m.id = matchId) MatchRecord.revealedAgain
      MatchRecord.id_revealedAgain }
  let version := ((db.matchInit.find? matchId).map MatchRecord.photoRevealVersion).getD 0
  let db := enqueueNotification db clock record.user1Id (.version matchId version)
    (.photosRevealed matchId version)
  enqueueNotification db clock record.user2Id (.version matchId version)
    (.photosRevealed matchId version)

def recordReveal (db : Db) (matchId userId : Uuid) (consent : PhotoRevealConsent)
    (locked clock : ℤ) : Except MatchStoreError (MatchCommandResult Bool × Db) :=
  match lockAvailableMatch db matchId userId locked with
  | (.unavailable reason, db) => .ok (.unavailable reason, db)
  | (.available record, db) =>
      if consent.isGranted && !participantPhotosReady db [record.user1Id, record.user2Id] then
        .error .photoRequired
      else
        let wasRevealed := db.photosRevealed matchId
        if (db.matchState.find? (matchId, userId)).isNone then .ok (.unavailable .notFound, db)
        else
          let revealed := db.revealedWith matchId userId consent.isGranted
          let db := { db with
            matchState := db.matchState.modify (fun s ↦ s.key = (matchId, userId))
              (MatchState.reveal consent.isGranted) (MatchState.key_reveal consent.isGranted) }
          if revealed && !wasRevealed then
            .ok (.available revealed, announceReveal db record matchId clock)
          else .ok (.available revealed, db)

def freePlan : EffectivePlan := ⟨"free", some 2⟩

/-- Two accounts on the free plan. -/
def pairDb : Db where
  matchInit := ∅
  matchState := ∅
  reservations := ∅
  usage := ∅
  wallets := ∅
  messages := ∅
  notifications := ∅
  accounts := ⟨[⟨1, .user, false, none, false⟩, ⟨2, .user, false, none, false⟩], by decide⟩
  consents := []
  blocks := []
  approvedPhotos := []
  plans := fun _ ↦ freePlan

end Histae.Matches
