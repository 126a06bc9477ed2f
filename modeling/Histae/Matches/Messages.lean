import Histae.Matches.Access

/-!
# Messages of a match

The transactions of `src/matches/pg/messages.rs`. Sending first locks the
match, so a replay obeys the access rules that hold now; the unique index on
the sender and the key decides which of two requests stores the message.
-/

namespace Histae.Matches

open Relational

/-- The clock readings of a message: under the match lock, in the insertion
and in the notification. -/
structure MessageClock where
  locked : ℤ
  inserted : ℤ
  notified : ℤ
  deriving DecidableEq

structure MessageClock.Ordered (t : MessageClock) : Prop where
  locked_le_inserted : t.locked ≤ t.inserted
  inserted_le_notified : t.inserted ≤ t.notified

def findIdempotentMessage (db : Db) (senderId idempotencyKey : Uuid) : Option MessageCreation :=
  match db.messages.rows.find? fun m ↦
      m.senderId = senderId && m.idempotencyKey = some idempotencyKey with
  | none => none
  | some message =>
      ((db.matchInit.find? message.matchId).filter fun m ↦
        !db.anyDeleted [m.user1Id, m.user2Id]).map fun m ↦
          ⟨message, (m.user1Id, m.user2Id), false⟩

/-- The answer to a request whose key already carries a message. -/
def replayAnswer (replay : MessageCreation) (matchId : Uuid) (content : String) :
    MessageCreationResult :=
  if replay.message.matchId ≠ matchId ∨ replay.message.content ≠ content then
    .idempotencyConflict
  else .available { replay with created := false }

/-- `none` when the insertion did nothing because the key is taken. -/
def insertMessage (db : Db) (message : MessageRecord) : Except MatchStoreError (Option Db) :=
  if message.idempotencyKey.isSome && db.messages.rows.any fun m ↦
      m.senderId = message.senderId && m.idempotencyKey = message.idempotencyKey then .ok none
  else
    match db.messages.insert? message with
    | none => .error (.database (.constraint .unique))
    | some messages => .ok (some { db with messages })

/-- The match row and the inbox after a stored message. -/
def publishMessage (db : Db) (available : MatchRecord) (message : MessageRecord) (clock : ℤ) :
    Db :=
  let db := updateMatch db clock (fun m ↦ m.id = message.matchId)
    (fun m ↦ { m with lastMessageAt := some message.createdAt }) fun _ ↦ rfl
  let recipientId :=
    if available.user1Id = message.senderId then available.user2Id else available.user1Id
  enqueueNotification db clock recipientId (.id message.id)
    (.newMessage message.matchId message.id message.senderId)

structure MessageRequest where
  messageId : Uuid
  matchId : Uuid
  senderId : Uuid
  content : String
  idempotencyKey : Uuid
  deriving DecidableEq

def MessageRequest.row (q : MessageRequest) (createdAt : ℤ) : MessageRecord where
  id := q.messageId
  matchId := q.matchId
  senderId := q.senderId
  idempotencyKey := some q.idempotencyKey
  content := q.content
  createdAt := createdAt
  readAt := none

/-- The lock of the match and the refusal while it awaits a decision. -/
def lockForMessage (db : Db) (q : MessageRequest) (locked : ℤ) :
    Except MatchAvailabilityFailure MatchRecord × Db :=
  match lockAvailableMatch db q.matchId q.senderId locked with
  | (.unavailable reason, db) => (.error reason, db)
  | (.available available, db) =>
      if available.status = .awaitingContinuation then (.error .invalidState, db)
      else (.ok available, db)

def createMessage (db : Db) (q : MessageRequest) (t : MessageClock) :
    Except MatchStoreError (MessageCreationResult × Db) :=
  match lockForMessage db q t.locked with
  | (.error reason, db) => .ok (.unavailable reason, db)
  | (.ok available, db) =>
      match findIdempotentMessage db q.senderId q.idempotencyKey with
      | some replay => .ok (replayAnswer replay q.matchId q.content, db)
      | none =>
          match insertMessage db (q.row t.inserted) with
          | .error error => .error error
          | .ok none =>
              match findIdempotentMessage db q.senderId q.idempotencyKey with
              | none => .ok (.idempotencyConflict, db)
              | some concurrent => .ok (replayAnswer concurrent q.matchId q.content, db)
          | .ok (some db) =>
              .ok (.available ⟨q.row t.inserted, (available.user1Id, available.user2Id), true⟩,
                publishMessage db available (q.row t.inserted) t.notified)

def MessageRecord.readBy (clock : ℤ) (m : MessageRecord) : MessageRecord :=
  { m with readAt := some (m.readAt.getD clock) }

theorem MessageRecord.id_readBy (clock : ℤ) (m : MessageRecord) : (m.readBy clock).id = m.id := rfl

def markMessageRead (db : Db) (matchId messageId userId : Uuid) (locked clock : ℤ) :
    MatchCommandResult (Option MessageRead) × Db :=
  match lockAvailableMatch db matchId userId locked with
  | (.unavailable reason, db) => (.unavailable reason, db)
  | (.available available, db) =>
      let target := fun m : MessageRecord ↦
        m.id = messageId && m.matchId = matchId && m.senderId ≠ userId
      let updated := db.messages.count target
      (.available (if updated = 1 then
          some ⟨1, (available.user1Id, available.user2Id), messageId⟩ else none),
        { db with
          messages := db.messages.modify target (MessageRecord.readBy clock)
            (MessageRecord.id_readBy clock) })

def markMessagesReadThrough (db : Db) (matchId messageId userId : Uuid) (locked clock : ℤ) :
    MatchCommandResult (Option MessageRead) × Db :=
  match lockAvailableMatch db matchId userId locked with
  | (.unavailable reason, db) => (.unavailable reason, db)
  | (.available available, db) =>
      match (db.messages.find? messageId).filter fun m ↦ m.matchId = matchId with
      | none => (.available none, db)
      | some boundary =>
          let target := fun m : MessageRecord ↦
            m.matchId = matchId && m.senderId ≠ userId && m.readAt.isNone &&
              (decide (m.createdAt < boundary.createdAt) ||
                m.createdAt = boundary.createdAt && decide (m.id ≤ boundary.id))
          (.available (some ⟨db.messages.count target,
              (available.user1Id, available.user2Id), messageId⟩),
            { db with
              messages := db.messages.modify target (MessageRecord.readBy clock)
                (MessageRecord.id_readBy clock) })

end Histae.Matches
