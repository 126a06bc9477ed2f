import Mathlib
import Histae.Privacy.Requests

/-!
# The steps of an erasure

`claimed`, `advance` and `delete_swipe_batch`, and what the photo service does
to the photos of an account. A statement that changes the rows a subquery has
selected is cut in two: the selection, which reads the snapshot of the
statement, and the change of the selected rows that are still stored.

Of the last transaction only the tables of this module are kept; the personal
tables that it empties are in `Privacy.Anonymization`.
-/

namespace Histae.Privacy

open Relational Outbox

def photoErasureBatchSize : ℕ := 50

def swipeErasureBatchSize : ℕ := 1000

structure ClaimedErasure where
  requestId : Uuid
  userId : Uuid
  step : ErasureStep
  deriving DecidableEq

namespace PrivacyDb

variable (db : PrivacyDb)

/-- The event that a worker is processing. -/
def ownedEvent (eventId workerId : Uuid) : Option OutboxRow :=
  db.events.rows.find? fun r ↦ r.id = eventId && r.heldBy workerId

def claimed (eventId workerId : Uuid) : Option ClaimedErasure := do
  let event ← db.ownedEvent eventId workerId
  if event.eventType ≠ .accountErase then none
  let erasure ← db.erasures.find? event.aggregateId
  return ⟨erasure.requestId, erasure.userId, erasure.step⟩

def releaseForNextBatch (eventId workerId : Uuid) (now : ℤ) : PrivacyDb :=
  { db with
    events := db.events.modify (fun r ↦ r.id = eventId && r.heldBy workerId)
      (fun r ↦ r.releaseForNextBatch now 1) fun _ ↦ rfl }

def defer (eventId workerId : Uuid) (now : ℤ) : PrivacyDb :=
  { db with
    events := db.events.modify (fun r ↦ r.id = eventId && r.heldBy workerId)
      (fun r ↦ r.defer now) fun _ ↦ rfl }

def setStep (requestId : Uuid) (current next : ErasureStep) : PrivacyDb :=
  { db with
    erasures := db.erasures.modify (fun e ↦ e.requestId = requestId && e.step = current)
      (fun e ↦ { e with step := next }) fun _ ↦ rfl }

/-- The account after `fct_anonymize_user`, and its request closed. -/
def anonymize (current : ClaimedErasure) (now : ℤ) : PrivacyDb :=
  { db with
    accounts := db.accounts.modify (fun a ↦ a.userId = current.userId)
      (fun a ↦ { a with deletedAt := a.deletedAt.or (some now), anonymizedAt := some now })
      fun _ ↦ rfl
    requests := db.requests.modify (fun r ↦ r.id = current.requestId && r.status = .inProgress)
      (fun r ↦ { r with status := .completed }) fun _ ↦ rfl }

/-- The checks of the last step and its deletions. -/
def complete (current : ClaimedErasure) (now : ℤ) : Except DatabaseError PrivacyDb :=
  if current.step ≠ .postgres then .error .queryFailed
  else if ¬ ∃ r ∈ db.requests.rows, r.id = current.requestId ∧ r.userId = current.userId ∧
      r.status = .inProgress ∧ r.type = .erasure then .error .queryFailed
  else if ∃ photo ∈ db.photos.rows, photo.userId = current.userId then .error .queryFailed
  else if ∃ swipe ∈ db.swipes.rows, swipe.concerns current.userId then .error .queryFailed
  else .ok (db.anonymize current now)

def advance (eventId workerId : Uuid) (current : ClaimedErasure) (next : ErasureStep) (now : ℤ) :
    Except DatabaseError (PrivacyDb × Bool) :=
  if (db.ownedEvent eventId workerId).isNone then .ok (db, false)
  else if ¬ ∃ e ∈ db.erasures.rows, e.requestId = current.requestId ∧ e.step = current.step then
    .ok (db, false)
  else if next = .completed then
    (db.complete current now).map fun db ↦ (db.setStep current.requestId current.step next, true)
  else
    .ok ((db.setStep current.requestId current.step next).releaseForNextBatch eventId workerId now,
      true)

/-- The swipes that `delete_swipe_batch` selects. -/
def swipeBatch (userId : Uuid) (batchSize : ℕ) : List (Uuid × Uuid) :=
  let made := (db.swipes.select fun s ↦ s.actorId = userId).insertionSort
    fun s s' ↦ s.targetId ≤ s'.targetId
  let received := (db.swipes.select fun s ↦ s.targetId = userId).insertionSort
    fun s s' ↦ s.actorId ≤ s'.actorId
  ((made.take batchSize ++ received.take batchSize).take batchSize).map SwipeDecision.pair

/-- The rest of `delete_swipe_batch`, from the deletion of the selected rows. -/
def deleteSwipes (eventId workerId : Uuid) (current : ClaimedErasure)
    (doomed : List (Uuid × Uuid)) (batchSize : ℕ) (now : ℤ) : PrivacyDb × Bool :=
  if (db.ownedEvent eventId workerId).isNone then (db, false)
  else if ¬ ∃ e ∈ db.erasures.rows, e.requestId = current.requestId ∧ e.step = .swipes then
    (db, false)
  else
    let deleted := db.swipes.count fun s ↦ s.pair ∈ doomed
    let next := if deleted < batchSize then ErasureStep.postgres else .swipes
    let remaining := { db with swipes := db.swipes.delete fun s ↦ s.pair ∈ doomed }
    ((remaining.setStep current.requestId .swipes next).releaseForNextBatch eventId workerId now,
      true)

/-- The photos that `begin_account_deletion` selects. -/
def photoBatch (userId : Uuid) (limit : ℕ) : List Uuid :=
  (((db.photos.select fun p ↦ p.userId = userId).insertionSort
    fun p p' ↦ p.id ≤ p'.id).take limit).map UserPhoto.id

/-- The rest of `begin_account_deletion`: it answers the rows it has changed. -/
def markPhotos (selected : List Uuid) : PrivacyDb × List Uuid :=
  ({ db with
      photos := db.photos.modify (fun p ↦ p.id ∈ selected)
        (fun p ↦ { p with status := .deleting }) fun _ ↦ rfl },
    (db.photos.select fun p ↦ p.id ∈ selected).map UserPhoto.id)

/-- `complete_deletion`, on the photo. -/
def completeDeletion (photoId : Uuid) : PrivacyDb :=
  { db with photos := db.photos.delete fun p ↦ p.id = photoId && p.status = .deleting }

/-- `discard_processing`, on the photo. -/
def discardProcessing (photoId userId : Uuid) : PrivacyDb :=
  { db with
    photos := db.photos.delete fun p ↦ p.id = photoId && p.userId = userId &&
      (p.status = .pending || p.status = .processing) }

/-- `create_processing`, on the photos. -/
def createProcessing (photoId userId : Uuid) : Except DatabaseError PrivacyDb :=
  if ∃ p ∈ db.photos.rows, p.userId = userId ∧ (p.status = .pending ∨ p.status = .processing) then
    .ok db
  else do
    db.requireLive [userId]
    let photos ← orConstraint (db.photos.insert? ⟨photoId, userId, .processing⟩)
    return { db with photos := photos }

/-- An update of the status of a photo. -/
def updatePhoto (photoId : Uuid) (status : PhotoStatus) : Except DatabaseError PrivacyDb :=
  match db.photos.find? photoId with
  | none => .ok db
  | some photo => do
      db.requireLive (if status = .deleting then [] else [photo.userId])
      return { db with
        photos := db.photos.modify (fun p ↦ p.id = photoId)
          (fun p ↦ { p with status := status }) fun _ ↦ rfl }

/-- An insertion into `swipe_decision`, which renews a stored decision or
leaves it. -/
def swipe (decision : SwipeDecision) (renew : Bool) : Except DatabaseError PrivacyDb := do
  db.requireLive [decision.actorId, decision.targetId]
  return { db with
    swipes := db.swipes.upsert decision
      (fun s ↦ if renew then { s with expiresAt := decision.expiresAt } else s)
      fun s ↦ by cases renew <;> rfl }

/-- The deletion of the swipes that the purge has selected. -/
def purgeSwipes (selected : List (Uuid × Uuid)) : PrivacyDb :=
  { db with swipes := db.swipes.delete fun s ↦ s.pair ∈ selected }

end PrivacyDb

end Histae.Privacy
