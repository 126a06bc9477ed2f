import Mathlib
import Histae.Outbox.Events

/-!
# Data requests and the start of an erasure

The tables that the erasure of an account works on, the review of a data
request and `enqueue_account_erasure`. The trigger that requires a live
account and the keys of the tables are part of each insertion. A failed
transaction leaves no state behind; it is an error here. The notes, the
responses and the access log are left out, and so is the deletion of requests
after five years.
-/

namespace Histae.Privacy

open Relational Outbox

inductive DatabaseError
  | queryFailed
  | accountUnavailable
  | constraint
  deriving DecidableEq

inductive DataRequestType
  | access
  | erasure
  | portability
  | rectification
  | restriction
  | objection
  deriving DecidableEq

inductive DataRequestStatus
  | pending
  | inProgress
  | completed
  | rejected
  deriving DecidableEq

inductive DataRequestTransition
  | inProgress
  | completed
  | rejected
  deriving DecidableEq

namespace DataRequestType

def requiresDetails (type : DataRequestType) : Bool := type = .rectification

def isRetired (type : DataRequestType) : Bool := type = .restriction || type = .objection

end DataRequestType

def DataRequestTransition.asStatus : DataRequestTransition → DataRequestStatus
  | .inProgress => .inProgress
  | .completed => .completed
  | .rejected => .rejected

/-- The request counts for the index of open requests. -/
def DataRequestStatus.isOpen : DataRequestStatus → Bool
  | .pending | .inProgress => true
  | .completed | .rejected => false

def isJavascriptWhitespace (c : Char) : Bool :=
  (0x9 ≤ c.toNat && c.toNat ≤ 0xD) || c.toNat = 0x20 || c.toNat = 0xA0 || c.toNat = 0x1680 ||
    (0x2000 ≤ c.toNat && c.toNat ≤ 0x200A) || c.toNat = 0x2028 || c.toNat = 0x2029 ||
    c.toNat = 0x202F || c.toNat = 0x205F || c.toNat = 0x3000 || c.toNat = 0xFEFF

def javascriptTrim (value : String) : String :=
  String.ofList ((value.toList.dropWhile isJavascriptWhitespace).reverse.dropWhile
    isJavascriptWhitespace).reverse

def normalizedRequestText (value : Option String) : Option String :=
  (value.map javascriptTrim).filter fun value ↦ value ≠ ""

inductive RequestReview
  | update (status : DataRequestStatus)
  | scheduleErasure
  deriving DecidableEq

inductive RequestReviewError
  | invalidTransition
  | missingResponse
  deriving DecidableEq

namespace RequestReview

def allowed : DataRequestStatus → DataRequestTransition → Bool
  | .pending, transition => transition = .inProgress || transition = .rejected
  | .inProgress, transition => transition = .completed || transition = .rejected
  | .completed, _ | .rejected, _ => false

def decide (type : DataRequestType) (current : DataRequestStatus)
    (transition : DataRequestTransition) (response : Option String) :
    Except RequestReviewError RequestReview :=
  if type.isRetired then .error .invalidTransition
  else if type.requiresDetails && transition ≠ .inProgress &&
      (normalizedRequestText response).isNone then .error .missingResponse
  else if !allowed current transition then .error .invalidTransition
  else if type = .erasure ∧ transition = .completed then .ok .scheduleErasure
  else .ok (.update transition.asStatus)

def storedStatus : RequestReview → DataRequestStatus
  | .update status => status
  | .scheduleErasure => .inProgress

end RequestReview

inductive ErasureStep
  | stripe
  | photos
  | swipes
  | postgres
  | completed
  deriving DecidableEq

structure UserAccount where
  userId : Uuid
  deletedAt : Option ℤ
  anonymizedAt : Option ℤ
  deriving DecidableEq

structure DataRequest where
  id : Uuid
  userId : Uuid
  type : DataRequestType
  status : DataRequestStatus
  deriving DecidableEq

structure AccountErasure where
  requestId : Uuid
  userId : Uuid
  step : ErasureStep
  deriving DecidableEq

inductive PhotoStatus
  | pending
  | processing
  | ready
  | deleting
  deriving DecidableEq

structure UserPhoto where
  id : Uuid
  userId : Uuid
  status : PhotoStatus
  deriving DecidableEq

structure SwipeDecision where
  actorId : Uuid
  targetId : Uuid
  expiresAt : ℤ
  distinct : actorId ≠ targetId
  deriving DecidableEq

namespace SwipeDecision

def pair (swipe : SwipeDecision) : Uuid × Uuid := (swipe.actorId, swipe.targetId)

/-- The user is the actor or the target. -/
def concerns (userId : Uuid) (swipe : SwipeDecision) : Bool :=
  swipe.actorId = userId || swipe.targetId = userId

end SwipeDecision

structure PrivacyDb where
  accounts : Table UserAccount.userId
  requests : Table DataRequest.id
  erasures : Table AccountErasure.requestId
  events : OutboxTable
  photos : Table UserPhoto.id
  swipes : Table SwipeDecision.pair

namespace PrivacyDb

variable (db : PrivacyDb)

/-- `fct_require_live_account`: it raises when one of the accounts is deleted. -/
def requireLive (userIds : List Uuid) : Except DatabaseError Unit :=
  if ∃ account ∈ db.accounts.rows, account.userId ∈ userIds ∧ account.deletedAt ≠ none then
    .error .accountUnavailable
  else .ok ()

def orConstraint {α : Type} (o : Option α) : Except DatabaseError α :=
  match o with
  | some a => .ok a
  | none => .error .constraint

def isOpenRequest (userId : Uuid) (type : DataRequestType) (r : DataRequest) : Bool :=
  r.userId = userId && r.type = type && r.status.isOpen

/-- `create_request`, with the id that the database chooses. -/
def createRequest (id userId : Uuid) (type : DataRequestType) : Except DatabaseError PrivacyDb := do
  db.requireLive [userId]
  let _ ← orConstraint (db.accounts.find? userId)
  match db.requests.rows.find? (isOpenRequest userId type) with
  | some _ => return db
  | none =>
      let requests ← orConstraint (db.requests.insert? ⟨id, userId, type, .pending⟩)
      return { db with requests := requests }

/-- The open request for erasure, or a new one. -/
def openErasureRequest (id userId : Uuid) : Except DatabaseError (PrivacyDb × Uuid) := do
  db.requireLive [userId]
  match db.requests.rows.find? (isOpenRequest userId .erasure) with
  | some request =>
      let requests := db.requests.modify (fun r ↦ r.id = request.id)
        (fun r ↦ { r with status := .inProgress }) fun _ ↦ rfl
      return ({ db with requests := requests }, request.id)
  | none =>
      let requests ← orConstraint (db.requests.insert? ⟨id, userId, .erasure, .inProgress⟩)
      return ({ db with requests := requests }, id)

/-- The writes of `enqueue_account_erasure` under a request. -/
def startErasure (requestId userId eventId : Uuid) (now : ℤ) : Except DatabaseError PrivacyDb := do
  let erasures ← orConstraint (db.erasures.insert? ⟨requestId, userId, .stripe⟩)
  let key : EventKey := (.accountErase, requestId)
  return { db with
    erasures := erasures
    events := db.events.upsert (.new eventId key now now) id fun _ ↦ rfl
    accounts := db.accounts.modify (fun a ↦ a.userId = userId)
      (fun a ↦ { a with deletedAt := a.deletedAt.or (some now) }) fun _ ↦ rfl }

/-- `enqueue_account_erasure`, with the ids that the database and the caller
choose for a new request and a new event. -/
def enqueueAccountErasure (userId : Uuid) (supplied : Option Uuid) (newId eventId : Uuid)
    (now : ℤ) : Except DatabaseError PrivacyDb :=
  match db.erasures.rows.find? fun e ↦ e.userId = userId with
  | some erasure =>
      if supplied = none ∨ supplied = some erasure.requestId then .ok db
      else .error .queryFailed
  | none =>
      match supplied with
      | some requestId => db.startErasure requestId userId eventId now
      | none => do
          let (db, requestId) ← db.openErasureRequest newId userId
          db.startErasure requestId userId eventId now

/-- `accept`; `consumed` says whether the deletion token was found and deleted. -/
def accept (userId : Uuid) (consumed : Bool) (newId eventId : Uuid) (now : ℤ) :
    Except DatabaseError PrivacyDb :=
  match db.accounts.find? userId with
  | some account =>
      if account.deletedAt ≠ none || !consumed then .ok db
      else db.enqueueAccountErasure userId none newId eventId now
  | none => .ok db

/-- `update_request`, for the administrator's transition and response. -/
def updateRequest (requestId : Uuid) (transition : DataRequestTransition)
    (response : Option String) (eventId : Uuid) (now : ℤ) : Except DatabaseError PrivacyDb :=
  match db.requests.find? requestId with
  | none => .ok db
  | some request =>
      if (db.erasures.find? requestId).isSome then .ok db
      else
        match RequestReview.decide request.type request.status transition response with
        | .error _ => .ok db
        | .ok review =>
            let reviewed := { db with
              requests := db.requests.modify (fun r ↦ r.id = requestId)
                (fun r ↦ { r with status := review.storedStatus }) fun _ ↦ rfl }
            if review = .scheduleErasure then
              reviewed.enqueueAccountErasure request.userId (some requestId) requestId eventId now
            else .ok reviewed

section Results

variable {α β ε : Type}

theorem bind_eq_ok {x : Except ε α} {f : α → Except ε β} {b : β} :
    x >>= f = .ok b ↔ ∃ a, x = .ok a ∧ f a = .ok b := by
  cases x <;> simp [bind, Except.bind]

theorem orConstraint_eq_ok {o : Option α} {a : α} : orConstraint o = .ok a ↔ o = some a := by
  cases o <;> simp [orConstraint]

end Results

end PrivacyDb

end Histae.Privacy
