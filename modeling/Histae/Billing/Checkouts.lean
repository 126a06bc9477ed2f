import Mathlib
import Histae.Billing.Webhook

/-!
# Checkout attempts

The statements that read and write `billing_checkout_session`: beginning and
retrying an attempt, keeping its request, opening, failing and replacing it,
and recovering the customer it made. `begin_checkout` holds the account's row
and so runs alone among the requests of one user.

Whether the user already has access and whether the plan is on sale are
parameters of `begin_checkout`, and the outbox is left out.
-/

namespace Histae.Billing

open Relational

def checkoutTtl : ℤ := minutes 35

def checkoutCreationStale : ℤ := seconds 60

structure BeginCheckoutInput where
  userId : Uuid
  idempotencyKey : Uuid
  billingPeriod : BillingPeriod
  attemptId : Uuid
  now : ℤ
  expiresAt : ℤ
  staleBefore : ℤ
  deriving DecidableEq

structure CheckoutContext where
  attemptId : Uuid
  creationGeneration : ℕ
  stripeCustomerId : Option String
  deriving DecidableEq

structure PersistedCheckoutSession where
  sessionId : String
  url : String
  expiresAt : ℤ
  deriving DecidableEq

inductive BeginCheckoutResult
  | notFound
  | idempotencyConflict
  | idempotencyConsumed
  | replay (session : PersistedCheckoutSession)
  | inProgress
  | alreadySubscribed
  | customerReconciliationRequired
  | created (context : CheckoutContext)
  | retry (context : CheckoutContext)
  deriving DecidableEq

inductive BillingStoreError
  | database (error : DatabaseError)
  | invalidStoredData
  | checkoutAttemptMissing
  | checkoutCustomerConflict
  deriving DecidableEq

inductive CustomerRecoveryResult
  | notFound
  | alreadyResolved
  | conflict
  | cleared
  | recovered
  deriving DecidableEq

/-- What `begin_checkout` makes of the attempt already stored for its key. -/
inductive Previous
  | conflict
  | consumed
  | expire
  | replay (session : PersistedCheckoutSession)
  | invalid
  | inProgress
  | proceed
  deriving DecidableEq

namespace CheckoutAttempt

def previous (row : CheckoutAttempt) (input : BeginCheckoutInput) : Previous :=
  if row.billingPeriod ≠ input.billingPeriod then .conflict
  else if row.stripeCheckoutRequest = some .legacyUnrecoverable then .consumed
  else if (row.status = .open ∨ row.stripeCheckoutRequest.isSome) ∧ row.expiresAt ≤ input.now then
    .expire
  else if row.status = .open ∧ input.now < row.expiresAt then
    match row.stripeSessionId, row.checkoutUrl with
    | some sessionId, some url => .replay ⟨sessionId, url, row.expiresAt⟩
    | _, _ => .invalid
  else if row.status = .completed ∨ row.status = .expired ∨
      row.status = .failed ∧ row.stripeSessionId.isSome then .consumed
  else if row.status = .creating ∧ input.staleBefore < row.updatedAt then .inProgress
  else .proceed

/-- The request may be in the hands of Stripe, or is about to be. -/
def isLive (now : ℤ) (row : CheckoutAttempt) : Bool :=
  row.status = .creating || row.status = .open ||
    row.status = .failed && row.stripeCheckoutRequest.isSome && now < row.expiresAt

def expire (row : CheckoutAttempt) : CheckoutAttempt :=
  { row with status := .expired, checkoutUrl := none }

def retry (expiresAt clock : ℤ) (row : CheckoutAttempt) : CheckoutAttempt :=
  { row with
    status := .creating
    stripeSessionId := none
    checkoutUrl := none
    expiresAt := if row.stripeCheckoutRequest.isNone then expiresAt else row.expiresAt
    creationGeneration := row.creationGeneration + 1
    updatedAt := clock }

def prepare (input : CheckoutInput) (row : CheckoutAttempt) : CheckoutAttempt :=
  { row with
    stripeCheckoutRequest := row.stripeCheckoutRequest <|> some (.input input)
    expiresAt := if row.stripeCheckoutRequest.isNone then input.expiresAt else row.expiresAt }

def hold (session : PersistedCheckoutSession) (clock : ℤ) (row : CheckoutAttempt) :
    CheckoutAttempt :=
  { row with
    stripeSessionId := some session.sessionId
    checkoutUrl := some session.url
    status := .open
    expiresAt := session.expiresAt
    updatedAt := clock }

def fail (sessionId : Option String) (clock : ℤ) (row : CheckoutAttempt) : CheckoutAttempt :=
  { row with
    status := .failed
    checkoutUrl := none
    stripeSessionId := sessionId <|> row.stripeSessionId
    updatedAt := clock }

/-- The worker of this generation still owns the creation. -/
def isOwned (generation : ℕ) (row : CheckoutAttempt) : Bool :=
  row.status = .creating && row.creationGeneration = generation

end CheckoutAttempt

namespace BillingDb

variable (db : BillingDb)

def isLiveAccount (userId : Uuid) : Bool :=
  (db.accounts.find? userId).any fun account ↦ account.deletedAt.isNone

def checkoutOf (userId idempotencyKey : Uuid) : Option CheckoutAttempt :=
  db.checkouts.rows.find? fun row ↦ row.userId = userId && row.idempotencyKey = idempotencyKey

def expireCheckout (attemptId : Uuid) : BillingDb :=
  { db with
    checkouts := db.checkouts.modify (fun row ↦ row.id = attemptId) CheckoutAttempt.expire
      fun _ ↦ rfl }

/-- The two updates that precede the search for a live attempt. -/
def sweepCheckouts (userId : Uuid) (now staleBefore clock : ℤ) : BillingDb :=
  { db with
    checkouts := (db.checkouts.modify
      (fun row ↦ row.userId = userId && row.expiresAt ≤ now &&
        (row.status = .open || row.status = .failed && row.stripeCheckoutRequest.isSome))
      (fun row ↦ { row.expire with updatedAt := clock }) fun _ ↦ rfl).modify
      (fun row ↦ row.userId = userId && row.status = .creating && row.updatedAt ≤ staleBefore)
      (fun row ↦ { row with status := .failed, updatedAt := clock }) fun _ ↦ rfl }

/-- The customer as a checkout uses it. -/
def customerForUser (userId : Uuid) : Option String :=
  ((db.customers.find? userId).filter fun customer ↦
    customer.stripeCustomerDeletedAt.isNone).map BillingCustomer.stripeCustomerId

def hasLiveCheckout (userId : Uuid) (now : ℤ) (previousId : Option Uuid) : Bool :=
  0 < db.checkouts.count fun row ↦ row.userId = userId && row.isLive now &&
    previousId.all fun id ↦ row.id ≠ id

def hasUnresolvedCustomer (userId : Uuid) (previousId : Option Uuid) : Bool :=
  (db.customerForUser userId).isNone && 0 < db.checkouts.count fun row ↦
    row.userId = userId && row.customerCreationStartedAt.isSome && row.customerErasedAt.isNone &&
      previousId.all fun id ↦ row.id ≠ id

def retryCheckout (userId previousId : Uuid) (expiresAt clock : ℤ) : BillingDb :=
  { db with
    checkouts := db.checkouts.modify (fun row ↦ row.userId = userId && row.id = previousId)
      (CheckoutAttempt.retry expiresAt clock) fun _ ↦ rfl }

def newCheckout (input : BeginCheckoutInput) (clock : ℤ) : CheckoutAttempt where
  id := input.attemptId
  userId := input.userId
  idempotencyKey := input.idempotencyKey
  billingPeriod := input.billingPeriod
  stripeSessionId := none
  checkoutUrl := none
  status := .creating
  expiresAt := input.expiresAt
  updatedAt := clock
  customerCreationStartedAt := none
  createdCustomerId := none
  customerErasedAt := none
  stripeCheckoutRequest := none
  creationGeneration := 1

/-- `begin_checkout` after the attempt of its key let it proceed. -/
def openAttempt (input : BeginCheckoutInput) (previous : Option CheckoutAttempt)
    (subscribed onSale : Bool) (clock : ℤ) :
    Except BillingStoreError (BillingDb × BeginCheckoutResult) :=
  let swept := db.sweepCheckouts input.userId input.now input.staleBefore clock
  let previousId := previous.map CheckoutAttempt.id
  if subscribed then .ok (swept, .alreadySubscribed)
  else if swept.hasLiveCheckout input.userId input.now previousId then .ok (swept, .inProgress)
  else if swept.hasUnresolvedCustomer input.userId previousId then
    .ok (swept, .customerReconciliationRequired)
  else if onSale = false then .error .invalidStoredData
  else
    match previous with
    | some row =>
        .ok (swept.retryCheckout input.userId row.id input.expiresAt clock,
          .retry ⟨row.id, row.creationGeneration + 1, swept.customerForUser input.userId⟩)
    | none =>
        match swept.checkouts.insert? (newCheckout input clock) with
        | none => .error (.database .constraint)
        | some checkouts =>
            .ok ({ swept with checkouts },
              .created ⟨input.attemptId, 1, swept.customerForUser input.userId⟩)

def beginCheckout (input : BeginCheckoutInput) (subscribed onSale : Bool) (clock : ℤ) :
    Except BillingStoreError (BillingDb × BeginCheckoutResult) :=
  if db.isLiveAccount input.userId = false then .ok (db, .notFound)
  else
    match db.checkoutOf input.userId input.idempotencyKey with
    | none => db.openAttempt input none subscribed onSale clock
    | some row =>
        match row.previous input with
        | .conflict => .ok (db, .idempotencyConflict)
        | .consumed => .ok (db, .idempotencyConsumed)
        | .expire => .ok (db.expireCheckout row.id, .idempotencyConsumed)
        | .replay session => .ok (db, .replay session)
        | .invalid => .error .invalidStoredData
        | .inProgress => .ok (db, .inProgress)
        | .proceed => db.openAttempt input (some row) subscribed onSale clock

/-- The session that a request for another formula may close. -/
def checkoutToReplace (userId : Uuid) (billingPeriod : BillingPeriod) (now : ℤ) :
    Option (Uuid × String) :=
  (db.checkouts.rows.find? fun row ↦ row.userId = userId && row.status = .open &&
    row.billingPeriod ≠ billingPeriod && row.stripeSessionId.isSome &&
    !db.hasLiveCheckout userId now (some row.id)).bind fun row ↦
      row.stripeSessionId.map fun sessionId ↦ (row.id, sessionId)

def markCheckoutExpired (userId attemptId : Uuid) (sessionId : String) (clock : ℤ) : BillingDb :=
  { db with
    checkouts := db.checkouts.modify
      (fun row ↦ row.userId = userId && row.id = attemptId &&
        row.stripeSessionId = some sessionId && (row.status = .open || row.status = .expired))
      (fun row ↦ { row.expire with updatedAt := clock }) fun _ ↦ rfl }

def prepareCheckoutRequest (attemptId : Uuid) (generation : ℕ) (input : CheckoutInput) :
    Except BillingStoreError (BillingDb × CheckoutInput) :=
  match (db.checkouts.find? attemptId).filter (CheckoutAttempt.isOwned generation) with
  | none => .error .checkoutAttemptMissing
  | some row =>
      match (row.prepare input).stripeCheckoutRequest with
      | some (.input request) =>
          .ok ({ db with
            checkouts := db.checkouts.modify
              (fun row ↦ row.id = attemptId && row.isOwned generation)
              (CheckoutAttempt.prepare input) fun _ ↦ rfl }, request)
      | _ => .error .invalidStoredData

/-- Another attempt holds the session. -/
def sessionTaken (attemptId : Uuid) (sessionId : String) : Bool :=
  0 < db.checkouts.count fun row ↦ row.id ≠ attemptId && row.stripeSessionId = some sessionId

/-- An update of the attempt that its worker still owns; it reports whether
there is one. -/
def updateOwned (attemptId : Uuid) (generation : ℕ) (f : CheckoutAttempt → CheckoutAttempt)
    (hf : ∀ row, (f row).id = row.id) : BillingDb × Bool :=
  ({ db with
    checkouts := db.checkouts.modify (fun row ↦ row.id = attemptId && row.isOwned generation) f hf },
    (db.checkouts.find? attemptId).any (CheckoutAttempt.isOwned generation))

def markCheckoutOpen (attemptId : Uuid) (generation : ℕ) (session : PersistedCheckoutSession)
    (clock : ℤ) : Except BillingStoreError (BillingDb × Bool) :=
  if db.sessionTaken attemptId session.sessionId then .error (.database .constraint)
  else .ok (db.updateOwned attemptId generation (CheckoutAttempt.hold session clock) fun _ ↦ rfl)

def markCheckoutFailed (attemptId : Uuid) (generation : ℕ) (sessionId : Option String)
    (clock : ℤ) : Except BillingStoreError (BillingDb × Bool) :=
  if (sessionId.any fun id ↦ db.sessionTaken attemptId id) = true then
    .error (.database .constraint)
  else .ok (db.updateOwned attemptId generation (CheckoutAttempt.fail sessionId clock) fun _ ↦ rfl)

def beginCustomerCreation (attemptId : Uuid) (clock : ℤ) : BillingDb :=
  { db with
    checkouts := db.checkouts.modify (fun row ↦ row.id = attemptId)
      (fun row ↦ { row with
        customerCreationStartedAt := row.customerCreationStartedAt <|> some clock }) fun _ ↦ rfl }

def recordCreatedCustomer (attemptId : Uuid) (customerId : String) : BillingDb :=
  { db with
    checkouts := db.checkouts.modify
      (fun row ↦ row.id = attemptId && row.createdCustomerId.all fun id ↦ id = customerId)
      (fun row ↦ { row with createdCustomerId := some customerId }) fun _ ↦ rfl }

def markCreatedCustomerErased (attemptId : Uuid) (clock : ℤ) : BillingDb :=
  { db with
    checkouts := db.checkouts.modify (fun row ↦ row.id = attemptId)
      (fun row ↦ { row with customerErasedAt := some clock }) fun _ ↦ rfl }

/-- The customer belongs to another user. -/
def customerTaken (userId : Uuid) (customerId : String) : Bool :=
  0 < db.customers.count fun c ↦ c.userId ≠ userId && c.stripeCustomerId = customerId

/-- `INSERT INTO billing_customer` with its conflict clause; `none` when the
user keeps another customer. -/
def mapCustomer (userId : Uuid) (customerId : String) (clock : ℤ) :
    Except BillingStoreError (Option BillingDb) :=
  match db.customers.find? userId with
  | some customer =>
      if customer.stripeCustomerId = customerId ∨ customer.stripeCustomerDeletedAt.isSome then
        if db.customerTaken userId customerId then .error (.database .constraint)
        else .ok (some { db with
          customers := db.customers.modify (fun c ↦ c.userId = userId)
            (fun c ↦ { c with
              stripeCustomerId := customerId
              stripeCustomerDeletedAt := none
              stripeReconciliationDueAt := clock
              updatedAt := clock }) fun _ ↦ rfl })
      else .ok none
  | none =>
      if db.customerTaken userId customerId then .error (.database .constraint)
      else .ok ((db.customers.insert? ⟨userId, customerId, none, none, clock, none, clock⟩).map
        fun customers ↦ { db with customers })

def saveCustomer (userId : Uuid) (customerId : String) (clock : ℤ) :
    Except BillingStoreError (BillingDb × Bool) :=
  if db.isLiveAccount userId then do
    match ← db.mapCustomer userId customerId clock with
    | some db => .ok (db, true)
    | none => .ok (db, false)
  else .ok (db, false)

def clearCustomerCreation (attemptId : Uuid) (clock : ℤ) : BillingDb :=
  { db with
    checkouts := db.checkouts.modify (fun row ↦ row.id = attemptId)
      (fun row ↦ { row.fail none clock with customerCreationStartedAt := none }) fun _ ↦ rfl }

def recoverAttempt (attemptId : Uuid) (customerId : String) (clock : ℤ) : BillingDb :=
  { db with
    checkouts := db.checkouts.modify (fun row ↦ row.id = attemptId)
      (fun row ↦ { row.fail none clock with createdCustomerId := some customerId }) fun _ ↦ rfl }

/-- `recover_customer_creation`; it looks at the account, the customer and
the erasure, and at nothing else of the attempt. -/
def recoverCustomerCreation (attemptId : Uuid) (customerId : Option String) (clock : ℤ) :
    BillingDb × CustomerRecoveryResult :=
  match (db.checkouts.find? attemptId).filter fun row ↦ db.isLiveAccount row.userId with
  | none => (db, .notFound)
  | some row =>
      if row.customerErasedAt.isSome then (db, .alreadyResolved)
      else if row.createdCustomerId.isSome ∧ customerId.isSome ∧
          row.createdCustomerId ≠ customerId then (db, .conflict)
      else
        match row.createdCustomerId <|> customerId with
        | none => (db.clearCustomerCreation attemptId clock, .cleared)
        | some recovered =>
            match db.mapCustomer row.userId recovered clock with
            | .ok (some mapped) => (mapped.recoverAttempt attemptId recovered clock, .recovered)
            | _ => (db, .conflict)

end BillingDb

end Histae.Billing
