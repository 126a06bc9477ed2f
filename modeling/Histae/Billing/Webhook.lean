import Mathlib
import Histae.Billing.Store

/-!
# Stripe webhooks

`apply` records the event, resolves the user behind the Stripe customer and
projects the subscription, all in one transaction. Resolving the user locks
the customer's row, and every statement after that acts under the lock, so a
transaction is one step at the moment it holds it; a second delivery of an
event waits for the first at the insertion of the event.

The notification of a failed payment, which the transaction also enqueues,
is left out.
-/

namespace Histae.Billing

open Relational

structure SubscriptionProjection where
  metadataUserId : Option Uuid
  stripeCustomerId : String
  stripeSubscriptionId : String
  stripePriceId : String
  billingPeriod : BillingPeriod
  status : StripeSubscriptionStatus
  cancelAtPeriodEnd : Bool
  currentPeriodStartsAt : ℤ
  currentPeriodEndsAt : ℤ
  trialStartsAt : Option ℤ
  trialEndsAt : Option ℤ
  canceledAt : Option ℤ
  eventCreatedAt : ℤ
  deriving DecidableEq

structure InvoiceProjection where
  stripeInvoiceId : String
  stripeCustomerId : String
  stripeSubscriptionId : Option String
  status : Option String
  currency : String
  amountDue : ℤ
  amountPaid : ℤ
  amountRemaining : ℤ
  periodStartsAt : ℤ
  periodEndsAt : ℤ
  paidAt : Option ℤ
  createdAt : ℤ
  eventCreatedAt : ℤ
  deriving DecidableEq

inductive WebhookCommand
  | receipt (metadata : WebhookMetadata)
  | subscription (metadata : WebhookMetadata) (projection : SubscriptionProjection)
  | invoice (metadata : WebhookMetadata) (subscription : SubscriptionProjection)
      (invoice : InvoiceProjection) (notifyPaymentFailed : Bool)
  | checkout (metadata : WebhookMetadata) (sessionId : String) (status : CheckoutStatus)
  | customerDeleted (metadata : WebhookMetadata) (customerId : String)
  deriving DecidableEq

def WebhookCommand.metadata : WebhookCommand → WebhookMetadata
  | .receipt metadata | .subscription metadata _ | .invoice metadata _ _ _
  | .checkout metadata _ _ | .customerDeleted metadata _ => metadata

structure WebhookEffect where
  userId : Uuid
  subscriptionStatus : Option StripeSubscriptionStatus
  deriving DecidableEq

inductive WebhookProcessResult
  | duplicate
  | applied (effect : Option WebhookEffect)
  deriving DecidableEq

inductive ApplyError
  | database (error : DatabaseError)
  | invalidMapping
  | inactiveAccount
  deriving DecidableEq

inductive WebhookStoreError
  | database (error : DatabaseError)
  | invalidMapping
  deriving DecidableEq

namespace UserSubscription

/-- The columns a projection writes into an absent row. -/
def project (userId : Uuid) (input : SubscriptionProjection) (now : ℤ) : UserSubscription where
  userId := userId
  plan := "premium"
  provider := some .stripe
  providerSubscriptionId := some input.stripeSubscriptionId
  providerPriceId := some input.stripePriceId
  billingPeriod := some input.billingPeriod
  status := some input.status
  cancelAtPeriodEnd := input.cancelAtPeriodEnd
  currentPeriodStartsAt := some input.currentPeriodStartsAt
  currentPeriodEndsAt := some input.currentPeriodEndsAt
  trialEndsAt := input.trialEndsAt
  canceledAt := input.canceledAt
  providerEventCreatedAt := some input.eventCreatedAt
  projectionVersion := 1
  providerSnapshotAt := some input.eventCreatedAt
  updatedAt := now
  provider_check := Or.inr rfl

/-- The columns it writes into a stored row. -/
def overwrite (input : SubscriptionProjection) (now : ℤ) (row : UserSubscription) :
    UserSubscription :=
  { project row.userId input now with
    projectionVersion := row.projectionVersion + 1
    providerSnapshotAt := some (greatest row.providerSnapshotAt input.eventCreatedAt) }

/-- The condition of the conflict clause; a comparison with a null is not
true. -/
def accepts (row : UserSubscription) (input : SubscriptionProjection) : Bool :=
  (row.providerSubscriptionId = none ||
      row.providerSubscriptionId = some input.stripeSubscriptionId ||
      row.status.any fun status ↦ status.isTerminal) &&
    (row.providerEventCreatedAt.all fun eventAt ↦
      eventAt < input.eventCreatedAt ||
        eventAt = input.eventCreatedAt &&
          ((row.status.any fun status ↦ !status.isClosed) || input.status.isClosed)) &&
    row.providerSnapshotAt.all fun snapshotAt ↦ snapshotAt ≤ input.eventCreatedAt

/-- The test that tells a late projection from a foreign one. -/
def isStale (row : UserSubscription) (subscriptionId : String) (input : SubscriptionProjection) :
    Bool :=
  (row.providerEventCreatedAt.any fun eventAt ↦ input.eventCreatedAt ≤ eventAt) ||
    (row.providerSnapshotAt.any fun snapshotAt ↦ input.eventCreatedAt < snapshotAt) ||
    decide (subscriptionId ≠ input.stripeSubscriptionId) && input.status.isTerminal

def cancel (eventCreatedAt now : ℤ) (row : UserSubscription) : UserSubscription :=
  { row with
    status := some .canceled
    cancelAtPeriodEnd := false
    canceledAt := row.canceledAt <|> some eventCreatedAt
    providerEventCreatedAt := some (greatest row.providerEventCreatedAt eventCreatedAt)
    providerSnapshotAt := some (greatest row.providerSnapshotAt eventCreatedAt)
    projectionVersion := row.projectionVersion + 1
    updatedAt := now }

end UserSubscription

namespace BillingInvoice

/-- The statuses that win over the others among events of one time. -/
def isSettled (status : Option String) : Bool :=
  status = some "paid" || status = some "void" || status = some "uncollectible"

def project (userId : Uuid) (input : InvoiceProjection) (now : ℤ) : BillingInvoice where
  stripeInvoiceId := input.stripeInvoiceId
  userId := some userId
  stripeCustomerId := input.stripeCustomerId
  stripeSubscriptionId := input.stripeSubscriptionId
  status := input.status
  currency := input.currency
  amountDue := input.amountDue
  amountPaid := input.amountPaid
  amountRemaining := input.amountRemaining
  periodStartsAt := input.periodStartsAt
  periodEndsAt := input.periodEndsAt
  paidAt := input.paidAt
  createdAt := input.createdAt
  providerEventCreatedAt := some input.eventCreatedAt
  updatedAt := now

/-- The conflict clause leaves `created_at` as it was. -/
def overwrite (userId : Uuid) (input : InvoiceProjection) (now : ℤ) (row : BillingInvoice) :
    BillingInvoice :=
  { project userId input now with
    stripeInvoiceId := row.stripeInvoiceId, createdAt := row.createdAt }

def accepts (row : BillingInvoice) (input : InvoiceProjection) : Bool :=
  row.providerEventCreatedAt.all fun eventAt ↦
    eventAt < input.eventCreatedAt ||
      eventAt = input.eventCreatedAt &&
        (row.status.isSome && !isSettled row.status || isSettled input.status)

end BillingInvoice

/-- The checks on the amounts. -/
def InvoiceProjection.storable (input : InvoiceProjection) : Bool :=
  0 ≤ input.amountDue && 0 ≤ input.amountPaid && 0 ≤ input.amountRemaining

namespace BillingDb

variable (db : BillingDb)

def requireActiveAccount (userId : Uuid) : Except ApplyError Unit :=
  match db.accounts.find? userId with
  | none => .error .invalidMapping
  | some account => if account.deletedAt.isSome then .error .inactiveAccount else .ok ()

def customerOf (stripeCustomerId : String) : Option BillingCustomer :=
  db.customers.rows.find? fun customer ↦ customer.stripeCustomerId = stripeCustomerId

/-- `INSERT INTO billing_customer` of `resolve_user`, the account being
active. -/
def linkCustomer (userId : Uuid) (stripeCustomerId : String) (now : ℤ) :
    Except ApplyError (BillingDb × Uuid) :=
  match db.customers.find? userId with
  | some customer =>
      if customer.stripeCustomerId = stripeCustomerId then
        .ok ({ db with
          customers := db.customers.modify (fun c ↦ c.userId = userId)
            (fun c ↦ { c with updatedAt := now }) fun _ ↦ rfl }, userId)
      else .error .invalidMapping
  | none =>
      match db.customers.insert? ⟨userId, stripeCustomerId, none, none, now, none, now⟩ with
      | none => .error (.database .constraint)
      | some customers => .ok ({ db with customers }, userId)

def resolveUser (projection : SubscriptionProjection) (now : ℤ) :
    Except ApplyError (BillingDb × Uuid) :=
  match db.customerOf projection.stripeCustomerId with
  | some customer => do
      db.requireActiveAccount customer.userId
      if projection.metadataUserId.any fun metadata ↦ metadata ≠ customer.userId then
        .error .invalidMapping
      else .ok (db, customer.userId)
  | none =>
      match projection.metadataUserId with
      | none => .error .invalidMapping
      | some userId => do
          db.requireActiveAccount userId
          db.linkCustomer userId projection.stripeCustomerId now

/-- Another user's row holds the subscription. -/
def subscriptionTaken (userId : Uuid) (input : SubscriptionProjection) : Bool :=
  0 < db.subscriptions.count fun row ↦ row.userId ≠ userId &&
    row.providerSubscriptionId = some input.stripeSubscriptionId

def recordTrial (userId : Uuid) (input : SubscriptionProjection) (now : ℤ) : BillingDb :=
  match input.trialStartsAt with
  | none => db
  | some trialStartsAt =>
      { db with
        customers := db.customers.modify
          (fun c ↦ c.userId = userId && c.stripeCustomerId = input.stripeCustomerId)
          (fun c ↦ { c with trialUsedAt := c.trialUsedAt <|> some trialStartsAt, updatedAt := now })
          fun _ ↦ rfl }

def writeSubscription (userId : Uuid) (input : SubscriptionProjection) (now : ℤ) : BillingDb :=
  { db with
    subscriptions := db.subscriptions.upsert (.project userId input now)
      (UserSubscription.overwrite input now) fun _ ↦ rfl }

def upsertSubscription (userId : Uuid) (input : SubscriptionProjection) (now : ℤ) :
    Except ApplyError (BillingDb × Bool) :=
  let written := db.writeSubscription userId input now
  match db.subscriptions.find? userId with
  | none =>
      if db.subscriptionTaken userId input then .error (.database .constraint)
      else .ok (written.recordTrial userId input now, true)
  | some row =>
      if row.accepts input then
        if db.subscriptionTaken userId input then .error (.database .constraint)
        else .ok (written.recordTrial userId input now, true)
      else
        match row.providerSubscriptionId with
        | none => .error (.database .queryFailed)
        | some subscriptionId =>
            if row.isStale subscriptionId input then .ok (db.recordTrial userId input now, false)
            else .error .invalidMapping

def upsertInvoice (userId : Uuid) (input : InvoiceProjection) (now : ℤ) :
    Except ApplyError (BillingDb × Bool) :=
  if input.storable then
    if (db.invoices.find? input.stripeInvoiceId).all fun row ↦ row.accepts input then
      .ok ({ db with
        invoices := db.invoices.upsert (.project userId input now)
          (BillingInvoice.overwrite userId input now) fun _ ↦ rfl }, true)
    else .ok (db, false)
  else .error (.database .constraint)

def markCustomerDeleted (customerId : String) (eventCreatedAt now : ℤ) :
    Except ApplyError (BillingDb × Option WebhookEffect) :=
  match db.customerOf customerId with
  | none => .ok (db, none)
  | some customer => do
      db.requireActiveAccount customer.userId
      .ok ({ db with
        subscriptions := db.subscriptions.modify
          (fun row ↦ row.userId = customer.userId && row.provider = some .stripe &&
            row.providerSnapshotAt.all fun snapshotAt ↦ snapshotAt ≤ eventCreatedAt)
          (UserSubscription.cancel eventCreatedAt now) fun _ ↦ rfl
        checkouts := db.checkouts.modify
          (fun c ↦ c.userId = customer.userId && (c.status = .creating || c.status = .open))
          (fun c ↦ { c with status := .failed, checkoutUrl := none, updatedAt := now })
          fun _ ↦ rfl
        customers := db.customers.modify (fun c ↦ c.userId = customer.userId)
          (fun c ↦ { c with stripeCustomerDeletedAt := some now, updatedAt := now })
          fun _ ↦ rfl },
        some ⟨customer.userId, some .canceled⟩)

def closeCheckout (sessionId : String) (status : CheckoutStatus) (now : ℤ) :
    BillingDb × Option WebhookEffect :=
  let held := fun c : CheckoutAttempt ↦
    c.stripeSessionId = some sessionId && (c.status = .open || c.status = .creating)
  ({ db with
    checkouts := db.checkouts.modify held
      (fun c ↦ { c with status, checkoutUrl := none, updatedAt := now }) fun _ ↦ rfl },
    (db.checkouts.rows.find? held).map fun c ↦ ⟨c.userId, none⟩)

def applyCommand (command : WebhookCommand) (now : ℤ) :
    Except ApplyError (BillingDb × Option WebhookEffect) :=
  match command with
  | .receipt _ => .ok (db, none)
  | .subscription _ projection => do
      let (db, userId) ← db.resolveUser projection now
      let (db, applied) ← db.upsertSubscription userId projection now
      .ok (db, if applied then some ⟨userId, some projection.status⟩ else none)
  | .invoice _ subscription state _ => do
      let (db, userId) ← db.resolveUser subscription now
      let (db, applied) ← db.upsertSubscription userId subscription now
      let (db, _) ← db.upsertInvoice userId state now
      .ok (db, if applied then some ⟨userId, some subscription.status⟩ else none)
  | .checkout _ sessionId status => .ok (db.closeCheckout sessionId status now)
  | .customerDeleted metadata customerId =>
      db.markCustomerDeleted customerId metadata.createdAt now

def apply (command : WebhookCommand) (now : ℤ) :
    Except WebhookStoreError (BillingDb × WebhookProcessResult) :=
  match db.events.insert? command.metadata with
  | none => .ok (db, .duplicate)
  | some events =>
      let recorded : BillingDb := { db with events }
      match recorded.applyCommand command now with
      | .ok (db, effect) => .ok (db, .applied effect)
      | .error .inactiveAccount => .ok (recorded, .applied none)
      | .error .invalidMapping => .error .invalidMapping
      | .error (.database error) => .error (.database error)

end BillingDb

end Histae.Billing
