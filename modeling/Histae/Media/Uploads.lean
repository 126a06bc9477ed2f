import Histae.Media.UploadHash
import Histae.Relational.Table
import Histae.Shared.Time
import Histae.Systems.Run

/-!
# Uploads of profile photos

An upload creates its request and its photo in one transaction, has the photo
decoded, records what was decoded, stores the object and activates the photo.
Each transaction takes effect at once; an upload may stop between any two.
The codec answers within its two deadlines, or not at all.
Expired requests are purged, stale photos are claimed, and a photo that is
being deleted is completed by a worker that has read it.
-/

namespace Histae.Media

open Relational Systems

inductive PhotoStatus
  | pending
  | processing
  | ready
  | deleting
  deriving DecidableEq

def PhotoStatus.inProgress : PhotoStatus → Bool
  | .pending | .processing => true
  | .ready | .deleting => false

inductive UploadStatus
  | processing
  | completed
  | consumed
  deriving DecidableEq

inductive ModerationStatus
  | pending
  | approved
  | rejected
  deriving DecidableEq

inductive ModerationReason
  | spam
  | insult
  | personalContact
  | sexualContent
  | legacyUnreviewed
  deriving DecidableEq

inductive DatabaseError
  | constraint
  | accountUnavailable
  | queryFailed
  deriving DecidableEq

structure ProcessedPhoto where
  sizeBytes : ℕ
  width : ℕ
  height : ℕ
  sha256 : List UInt8
  deriving DecidableEq

/-- The columns are all null or all set; the type is `image/webp`. -/
structure UserPhoto where
  id : Uuid
  userId : Uuid
  objectKey : List Char
  status : PhotoStatus
  metadata : Option ProcessedPhoto
  updatedAt : ℤ
  deriving DecidableEq

structure PhotoUploadRequest where
  userId : Uuid
  idempotencyKey : Uuid
  requestSha256 : List UInt8
  photoId : Option Uuid
  status : UploadStatus
  createdAt : ℤ
  expiresAt : ℤ
  deriving DecidableEq

def PhotoUploadRequest.key (r : PhotoUploadRequest) : Uuid × Uuid := (r.userId, r.idempotencyKey)

structure ContentModerationCase where
  photoId : Uuid
  status : ModerationStatus
  reasonCodes : List ModerationReason
  deriving DecidableEq

structure ProcessingPhoto where
  id : Uuid
  userId : Uuid
  objectKey : List Char
  idempotencyKey : Uuid
  requestSha256 : List UInt8
  createdAt : ℤ
  expiresAt : ℤ
  deriving DecidableEq

def ProcessingPhoto.key (p : ProcessingPhoto) : Uuid × Uuid := (p.userId, p.idempotencyKey)

structure PhotoObject where
  id : Uuid
  userId : Uuid
  objectKey : List Char
  moderationStatus : ModerationStatus
  moderationReasons : List ModerationReason
  deriving DecidableEq

inductive CreationResult
  | created
  | replay (photo : PhotoObject)
  | profileNotFound
  | updateInProgress
  | idempotencyConflict
  | idempotencyConsumed
  deriving DecidableEq

section Updates

def UserPhoto.delete (now : ℤ) (p : UserPhoto) : UserPhoto :=
  { p with status := .deleting, updatedAt := now }

def UserPhoto.record (photo : ProcessedPhoto) (now : ℤ) (p : UserPhoto) : UserPhoto :=
  { p with metadata := some photo, updatedAt := now }

def UserPhoto.activate (now : ℤ) (p : UserPhoto) : UserPhoto :=
  { p with status := .ready, updatedAt := now }

def PhotoUploadRequest.consume (r : PhotoUploadRequest) : PhotoUploadRequest :=
  { r with status := .consumed, photoId := none }

def PhotoUploadRequest.complete (r : PhotoUploadRequest) : PhotoUploadRequest :=
  { r with status := .completed }

def PhotoUploadRequest.unlink (r : PhotoUploadRequest) : PhotoUploadRequest :=
  { r with photoId := none }

def ContentModerationCase.decide (status : ModerationStatus) (c : ContentModerationCase) :
    ContentModerationCase :=
  { c with status }

theorem UserPhoto.id_delete (now : ℤ) (p : UserPhoto) : (p.delete now).id = p.id := rfl

theorem UserPhoto.id_record (photo : ProcessedPhoto) (now : ℤ) (p : UserPhoto) :
    (p.record photo now).id = p.id := rfl

theorem UserPhoto.id_activate (now : ℤ) (p : UserPhoto) : (p.activate now).id = p.id := rfl

theorem PhotoUploadRequest.key_consume (r : PhotoUploadRequest) : r.consume.key = r.key := rfl

theorem PhotoUploadRequest.key_complete (r : PhotoUploadRequest) : r.complete.key = r.key := rfl

theorem PhotoUploadRequest.key_unlink (r : PhotoUploadRequest) : r.unlink.key = r.key := rfl

theorem ContentModerationCase.photoId_decide (status : ModerationStatus) (c : ContentModerationCase) :
    (c.decide status).photoId = c.photoId := rfl

end Updates

abbrev PhotoTable := Table UserPhoto.id

abbrev RequestTable := Table PhotoUploadRequest.key

/-- The profiles, the accounts that are deleted or being erased, and the
photos with their requests and moderation cases. -/
structure PhotoDb where
  profiles : List Uuid
  closed : List Uuid
  photos : PhotoTable
  requests : RequestTable
  cases : Table ContentModerationCase.photoId

namespace PhotoDb

variable (db : PhotoDb)

def lockActiveProfile (userId : Uuid) : Bool := decide (userId ∈ db.profiles ∧ userId ∉ db.closed)

/-- A deleted photo takes its moderation case with it and leaves its request. -/
def deletePhotos (p : UserPhoto → Bool) : PhotoDb :=
  let gone := (db.photos.select p).map UserPhoto.id
  { db with
    photos := db.photos.delete p
    requests := db.requests.modify (fun r ↦ r.photoId.any fun id ↦ decide (id ∈ gone))
      PhotoUploadRequest.unlink PhotoUploadRequest.key_unlink
    cases := db.cases.delete fun c ↦ decide (c.photoId ∈ gone) }

def markDeleting (p : UserPhoto → Bool) (now : ℤ) : PhotoDb :=
  { db with photos := db.photos.modify p (UserPhoto.delete now) (UserPhoto.id_delete now) }

/-- `existing_result`, on the row and what it is joined with. -/
def existingResult (photo : ProcessingPhoto) : Option CreationResult :=
  (db.requests.find? photo.key).map fun r ↦
    if r.requestSha256 ≠ photo.requestSha256 then .idempotencyConflict
    else if r.status = .processing then .updateInProgress
    else
      let candidate := r.photoId.bind db.photos.find?
      let moderation := candidate.bind fun c ↦ db.cases.find? c.id
      match candidate with
      | none => .idempotencyConsumed
      | some c =>
          if r.status = .completed ∧ c.userId = photo.userId ∧ c.status = .ready then
            .replay
              { id := c.id, userId := photo.userId, objectKey := c.objectKey,
                moderationStatus := (moderation.map ContentModerationCase.status).getD .pending,
                moderationReasons := (moderation.map ContentModerationCase.reasonCodes).getD [] }
          else .idempotencyConsumed

def purgeKey (photo : ProcessingPhoto) : PhotoDb :=
  { db with
    requests := db.requests.delete fun r ↦
      decide (r.key = photo.key) && decide (r.expiresAt ≤ photo.createdAt) }

def isUploading (userId : Uuid) : Bool :=
  db.photos.rows.any fun p ↦ decide (p.userId = userId) && p.status.inProgress

/-- The photo and the request that are inserted. -/
def newPhoto (photo : ProcessingPhoto) (now : ℤ) : UserPhoto where
  id := photo.id
  userId := photo.userId
  objectKey := photo.objectKey
  status := .processing
  metadata := none
  updatedAt := now

def newRequest (photo : ProcessingPhoto) : PhotoUploadRequest where
  userId := photo.userId
  idempotencyKey := photo.idempotencyKey
  requestSha256 := photo.requestSha256
  photoId := some photo.id
  status := .processing
  createdAt := photo.createdAt
  expiresAt := photo.expiresAt

def createProcessing (photo : ProcessingPhoto) (now : ℤ) :
    Except DatabaseError (PhotoDb × CreationResult) :=
  if !db.lockActiveProfile photo.userId then .ok (db, .profileNotFound)
  else
    let db := db.purgeKey photo
    match db.existingResult photo with
    | some result => .ok (db, result)
    | none =>
        if db.isUploading photo.userId then .ok (db, .updateInProgress)
        else
          match db.photos.insert? (newPhoto photo now), db.requests.insert? (newRequest photo) with
          | some photos, some requests => .ok ({ db with photos, requests }, .created)
          | _, _ => .error .constraint

/-- The values fit their columns. -/
def fits (photo : ProcessedPhoto) : Bool :=
  decide (1 ≤ photo.sizeBytes ∧ photo.sizeBytes ≤ 500000) &&
    decide (1 ≤ photo.width ∧ photo.width ≤ 2048) &&
    decide (1 ≤ photo.height ∧ photo.height ≤ 2048) && decide (photo.sha256.length = 32)

def isProcessing (photoId userId : Uuid) (p : UserPhoto) : Bool :=
  decide (p.id = photoId) && decide (p.userId = userId) && decide (p.status = .processing)

def recordProcessed (photoId userId : Uuid) (photo : ProcessedPhoto) (now : ℤ) :
    Except DatabaseError (PhotoDb × Bool) :=
  if ¬ (photo.sizeBytes < 2 ^ 31 ∧ photo.width < 2 ^ 31 ∧ photo.height < 2 ^ 31) then
    .error .queryFailed
  else if !db.photos.rows.any (isProcessing photoId userId) then .ok (db, false)
  else if userId ∈ db.closed then .error .accountUnavailable
  else if !fits photo then .error .constraint
  else
    .ok ({ db with
      photos := db.photos.modify (isProcessing photoId userId) (UserPhoto.record photo now)
        (UserPhoto.id_record photo now) }, true)

/-- The moderation case of a photo that is activated. -/
def newCase (photoId : Uuid) : ContentModerationCase where
  photoId := photoId
  status := .approved
  reasonCodes := []

def isRequestOf (photoId userId : Uuid) (r : PhotoUploadRequest) : Bool :=
  decide (r.userId = userId) && decide (r.photoId = some photoId) && decide (r.status = .processing)

def activate (photoId userId : Uuid) (now : ℤ) : Except DatabaseError (PhotoDb × Bool) :=
  if !db.lockActiveProfile userId then .ok (db, false)
  else if !db.photos.rows.any fun p ↦ isProcessing photoId userId p && p.metadata.isSome then
    .ok (db, false)
  else
    let db := db.markDeleting (fun p ↦ decide (p.userId = userId) && decide (p.status = .ready)) now
    let photos := db.photos.modify (isProcessing photoId userId) (UserPhoto.activate now)
      (UserPhoto.id_activate now)
    match db.cases.insert? (newCase photoId) with
    | none => .error .constraint
    | some cases =>
        if db.requests.count (isRequestOf photoId userId) ≠ 1 then .error .queryFailed
        else
          .ok ({ db with
            photos
            cases
            requests := db.requests.modify (isRequestOf photoId userId) PhotoUploadRequest.complete
              PhotoUploadRequest.key_complete }, true)

def beginDelete (userId : Uuid) (now : ℤ) : PhotoDb :=
  if !db.lockActiveProfile userId then db
  else db.markDeleting (fun p ↦ decide (p.userId = userId) && decide (p.status = .ready)) now

def accountBatch (userId : Uuid) (limit : ℕ) : List Uuid :=
  (((db.photos.select fun p ↦ decide (p.userId = userId)).map UserPhoto.id).insertionSort
    (· ≤ ·)).take limit

def cleanupBatch (staleBefore retryBefore : ℤ) (locked : Uuid → Bool) (limit : ℕ) : List Uuid :=
  (((db.photos.select fun p ↦
      !locked p.id && (p.status.inProgress && decide (p.updatedAt ≤ staleBefore) ||
        decide (p.status = .deleting) && decide (p.updatedAt ≤ retryBefore))).insertionSort fun p q ↦
      p.updatedAt < q.updatedAt ∨ p.updatedAt = q.updatedAt ∧ p.id ≤ q.id).take limit).map UserPhoto.id

/-- The photos of a batch are marked and returned. -/
def claimBatch (batch : List Uuid) (now : ℤ) : PhotoDb :=
  db.markDeleting (fun p ↦ decide (p.id ∈ batch)) now

def completeDeletion (photoId : Uuid) : PhotoDb :=
  let db := { db with
    requests := db.requests.modify (fun r ↦ r.photoId = some photoId) PhotoUploadRequest.consume
      PhotoUploadRequest.key_consume }
  db.deletePhotos fun p ↦ decide (p.id = photoId) && decide (p.status = .deleting)

def discardProcessing (photoId userId : Uuid) : PhotoDb :=
  let db := { db with requests := db.requests.delete (isRequestOf photoId userId) }
  db.deletePhotos fun p ↦
    decide (p.id = photoId) && decide (p.userId = userId) && p.status.inProgress

def purgeExpiredUploadRequests (before : ℤ) (limit : ℕ) : PhotoDb :=
  let expired := (((db.requests.select fun r ↦ decide (r.expiresAt ≤ before)).insertionSort
    fun r s ↦ r.expiresAt < s.expiresAt ∨ r.expiresAt = s.expiresAt ∧
      (r.userId < s.userId ∨ r.userId = s.userId ∧ r.idempotencyKey ≤ s.idempotencyKey)).take limit).map
        PhotoUploadRequest.key
  { db with requests := db.requests.delete fun r ↦ decide (r.key ∈ expired) }

/-- The review of the moderation case of a photo. -/
def reviewPhoto (photoId : Uuid) (rejected : Bool) (now : ℤ) : PhotoDb :=
  let isReady (p : UserPhoto) : Bool := decide (p.id = photoId) && decide (p.status = .ready)
  if !db.photos.rows.any isReady then db
  else
    let db := { db with
      cases := db.cases.modify (fun c ↦ c.photoId = photoId)
        (ContentModerationCase.decide (if rejected then .rejected else .approved))
        (ContentModerationCase.photoId_decide _) }
    if rejected then db.markDeleting isReady now else db

/-- What an administrator has deleted again. -/
def reconcile (photoId : Uuid) (staleBefore now : ℤ) : PhotoDb :=
  db.markDeleting (fun p ↦ decide (p.id = photoId) && decide (p.status ≠ .ready) &&
    (decide (p.status = .deleting) || decide (p.updatedAt ≤ staleBefore))) now

/-- An anonymization, which waits until the account has no photo. -/
def anonymize (userId : Uuid) : PhotoDb :=
  if db.photos.rows.any fun p ↦ decide (p.userId = userId) then db
  else
    { db with
      profiles := db.profiles.filter (· ≠ userId)
      requests := db.requests.delete fun r ↦ decide (r.userId = userId) }

end PhotoDb

section Service

inductive InvalidPhotoReason
  | empty
  | unsupportedExtension
  | mediaTypeMismatch
  | contentMismatch
  | decodeFailed
  deriving DecidableEq

inductive PhotoCodecError
  | invalidPhoto (reason : InvalidPhotoReason)
  | photoTooLarge
  | codecTimedOut
  | codecUnavailable
  | codecBusy
  deriving DecidableEq

inductive PhotoError
  | profileNotFound
  | updateInProgress
  | idempotencyConflict
  | idempotencyConsumed
  | invalidPhoto (reason : InvalidPhotoReason)
  | photoTooLarge
  | updateConflict
  | storageUnavailable
  | processorUnavailable
  | accountActivity
  | database (error : DatabaseError)
  deriving DecidableEq

def PhotoCodecError.photoError : PhotoCodecError → PhotoError
  | .invalidPhoto reason => .invalidPhoto reason
  | .photoTooLarge => .photoTooLarge
  | .codecTimedOut | .codecUnavailable | .codecBusy => .processorUnavailable

/-- The answer carries a signed URL of the object key. -/
structure UploadResult where
  photo : List Char
  moderationStatus : ModerationStatus
  moderationReasons : List ModerationReason
  deriving DecidableEq

/-- A photo is decoded from the moment its upload is created. -/
inductive UploadPhase
  | received
  | created (since : ℤ)
  | failed (error : PhotoError)
  | processed (photo : ProcessedPhoto)
  | recorded
  | stored
  | answered
  deriving DecidableEq

structure UploadCall where
  id : ℕ
  upload : UploadPhoto
  photo : ProcessingPhoto
  phase : UploadPhase
  deriving DecidableEq

def UploadCall.withPhase (phase : UploadPhase) (c : UploadCall) : UploadCall := { c with phase }

theorem UploadCall.id_withPhase (phase : UploadPhase) (c : UploadCall) :
    (c.withPhase phase).id = c.id := rfl

/-- `sign`, of which the storage may be incapable. -/
def signed (available : Bool) (result : UploadResult) : Except PhotoError UploadResult :=
  if available then .ok result else .error .storageUnavailable

/-- The answer to a request that creates no photo. -/
def creationAnswer (available : Bool) : CreationResult → Option (Except PhotoError UploadResult)
  | .profileNotFound => some (.error .profileNotFound)
  | .updateInProgress => some (.error .updateInProgress)
  | .idempotencyConflict => some (.error .idempotencyConflict)
  | .idempotencyConsumed => some (.error .idempotencyConsumed)
  | .replay photo =>
      some (signed available ⟨photo.objectKey, photo.moderationStatus, photo.moderationReasons⟩)
  | .created => none

structure UploadAnswer where
  photo : ProcessingPhoto
  upload : UploadPhoto
  result : Except PhotoError UploadResult

structure Uploads where
  db : PhotoDb
  clock : ℤ
  calls : Table UploadCall.id
  /-- The photos that some worker has read as being deleted. -/
  deleting : List Uuid
  issued : List Uuid
  created : List ProcessingPhoto
  activated : List Uuid
  answers : List UploadAnswer

def Uploads.start (clock : ℤ) : Uploads where
  db := ⟨[], [], ∅, ∅, ∅⟩
  clock := clock
  calls := ∅
  deleting := []
  issued := []
  created := []
  activated := []
  answers := []

inductive UploadStep
  | tick (now : ℤ)
  | openProfile (userId : Uuid)
  | closeAccount (userId : Uuid)
  | receive (callId : ℕ) (userId key photoId : Uuid) (upload : UploadPhoto)
  | createProcessing (callId : ℕ) (available : Bool)
  | process (callId : ℕ) (result : Except PhotoCodecError ProcessedPhoto)
  | discard (callId : ℕ)
  | recordProcessed (callId : ℕ)
  | put (callId : ℕ) (stored : Bool)
  | activate (callId : ℕ) (available : Bool)
  | abandon (callId : ℕ)
  | beginDelete (userId : Uuid)
  | beginAccountDeletion (userId : Uuid) (limit : ℕ)
  | findDeleting (photoId : Uuid)
  | completeDeletion (photoId : Uuid)
  | claimCleanup (now : ℤ) (locked : Uuid → Bool) (limit : ℕ)
  | purge (before : ℤ) (limit : ℕ)
  | review (photoId : Uuid) (rejected : Bool)
  | reconcile (photoId : Uuid) (staleBefore : ℤ)
  | anonymize (userId : Uuid)

def photoIdempotencyHours : ℤ := 24

def photoProcessingStaleMinutes : ℤ := 30

def photoDeletionRetryMinutes : ℤ := 5

def defaultCodecQueueTimeout : ℤ := seconds 5

def defaultCodecTimeout : ℤ := seconds 35

/-- The codec has waited for its turn and run no longer than it may. -/
def UploadPhase.inTime (now : ℤ) : UploadPhase → Bool
  | .created since => now ≤ since + defaultCodecQueueTimeout + defaultCodecTimeout
  | _ => true

namespace Uploads

variable (codec : UploadCodec) (w : Uploads)

def move (callId : ℕ) (phase : UploadPhase) : Table UploadCall.id :=
  w.calls.modify (fun c ↦ c.id = callId) (UploadCall.withPhase phase) (UploadCall.id_withPhase phase)

/-- The call is over. -/
def answer (c : UploadCall) (result : Except PhotoError UploadResult) : Uploads :=
  { w with
    calls := w.move c.id .answered
    answers := ⟨c.photo, c.upload, result⟩ :: w.answers }

def processingPhoto (userId key photoId : Uuid) (upload : UploadPhoto) : ProcessingPhoto where
  id := photoId
  userId := userId
  objectKey := "profile-photos/".toList ++ codec.hyphenated userId ++ '/' ::
    codec.hyphenated photoId ++ ".webp".toList
  idempotencyKey := key
  requestSha256 := uploadRequestHash codec upload
  createdAt := w.clock
  expiresAt := w.clock + hours photoIdempotencyHours

def createNext (c : UploadCall) (available : Bool) : Uploads :=
  match w.db.createProcessing c.photo w.clock with
  | .error error => w.answer c (.error (.database error))
  | .ok (db, result) =>
      match creationAnswer available result with
      | some answer => { w.answer c answer with db }
      | none => { w with db, calls := w.move c.id (.created w.clock), created := c.photo :: w.created }

def next : UploadStep → Uploads
  | .tick now => { w with clock := now }
  | .openProfile userId => { w with db := { w.db with profiles := userId :: w.db.profiles } }
  | .closeAccount userId => { w with db := { w.db with closed := userId :: w.db.closed } }
  | .receive callId userId key photoId upload =>
      match w.calls.insert? ⟨callId, upload, w.processingPhoto codec userId key photoId upload, .received⟩ with
      | none => w
      | some calls => { w with calls, issued := photoId :: w.issued }
  | .createProcessing callId available =>
      match w.calls.find? callId with
      | some ⟨id, upload, photo, .received⟩ => w.createNext ⟨id, upload, photo, .received⟩ available
      | _ => w
  | .process callId result =>
      match w.calls.find? callId with
      | some ⟨_, _, _, .created _⟩ =>
          { w with
            calls := w.move callId (match result with
              | .ok photo => .processed photo
              | .error error => .failed error.photoError) }
      | _ => w
  | .discard callId =>
      match w.calls.find? callId with
      | some ⟨id, upload, photo, .failed error⟩ =>
          { w.answer ⟨id, upload, photo, .failed error⟩ (.error error) with
            db := w.db.discardProcessing photo.id photo.userId }
      | _ => w
  | .recordProcessed callId =>
      match w.calls.find? callId with
      | some ⟨id, upload, photo, .processed processed⟩ =>
          match w.db.recordProcessed photo.id photo.userId processed w.clock with
          | .error error =>
              w.answer ⟨id, upload, photo, .processed processed⟩ (.error (.database error))
          | .ok (_, false) => { w with calls := w.move callId (.failed .updateConflict) }
          | .ok (db, true) => { w with db, calls := w.move callId .recorded }
      | _ => w
  | .put callId stored =>
      match w.calls.find? callId with
      | some ⟨id, upload, photo, .recorded⟩ =>
          if stored then { w with calls := w.move callId .stored }
          else w.answer ⟨id, upload, photo, .recorded⟩ (.error .storageUnavailable)
      | _ => w
  | .activate callId available =>
      match w.calls.find? callId with
      | some ⟨id, upload, photo, .stored⟩ =>
          match w.db.activate photo.id photo.userId w.clock with
          | .error error => w.answer ⟨id, upload, photo, .stored⟩ (.error (.database error))
          | .ok (_, false) => w.answer ⟨id, upload, photo, .stored⟩ (.error .updateConflict)
          | .ok (db, true) =>
              { w.answer ⟨id, upload, photo, .stored⟩
                  (signed available ⟨photo.objectKey, .approved, []⟩) with
                db
                activated := photo.id :: w.activated }
      | _ => w
  | .abandon callId => { w with calls := w.move callId .answered }
  | .beginDelete userId => { w with db := w.db.beginDelete userId w.clock }
  | .beginAccountDeletion userId limit =>
      let batch := w.db.accountBatch userId limit
      { w with db := w.db.claimBatch batch w.clock, deleting := batch ++ w.deleting }
  | .findDeleting photoId =>
      if w.db.photos.rows.any fun p ↦ decide (p.id = photoId) && decide (p.status = .deleting) then
        { w with deleting := photoId :: w.deleting }
      else w
  | .completeDeletion photoId => { w with db := w.db.completeDeletion photoId }
  | .claimCleanup now locked limit =>
      let batch := w.db.cleanupBatch (now - minutes photoProcessingStaleMinutes)
        (now - minutes photoDeletionRetryMinutes) locked limit
      { w with db := w.db.claimBatch batch now, deleting := batch ++ w.deleting }
  | .purge before limit => { w with db := w.db.purgeExpiredUploadRequests before limit }
  | .review photoId rejected => { w with db := w.db.reviewPhoto photoId rejected w.clock }
  | .reconcile photoId staleBefore => { w with db := w.db.reconcile photoId staleBefore w.clock }
  | .anonymize userId => { w with db := w.db.anonymize userId }

/-- Time moves on, an account never comes back, photo identifiers are never
drawn twice, the codec answers in time, and a worker completes what it has
read as being deleted. -/
def Enabled : UploadStep → Prop
  | .tick now => w.clock ≤ now
  | .openProfile userId => userId ∉ w.db.closed
  | .receive _ _ _ photoId upload => photoId ∉ w.issued ∧ upload.Received
  | .process callId _ =>
      ((w.calls.find? callId).all fun c ↦ c.phase.inTime w.clock) = true
  | .completeDeletion photoId => photoId ∈ w.deleting
  | .claimCleanup now _ _ => now ≤ w.clock
  | .purge before _ => before ≤ w.clock
  | .anonymize userId => userId ∈ w.db.closed
  | _ => True

end Uploads

def uploads (codec : UploadCodec) : System Uploads UploadStep where
  Enabled := Uploads.Enabled
  next := Uploads.next codec

end Service

end Histae.Media
