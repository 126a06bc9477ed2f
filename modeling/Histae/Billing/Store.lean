import Mathlib
import Histae.Relational.Table
import Histae.Shared.Time

/-!
# Tables of the billing module

The rows that checkouts, Stripe webhooks and reconciliation share. The
columns `created_at`, which nothing reads, are left out, as are the checks on
the shape of Stripe's identifiers, which are opaque here.
-/

namespace Histae.Billing

open Relational

inductive BillingPeriod
  | monthly
  | annual
  deriving DecidableEq

inductive StripeSubscriptionStatus
  | incomplete
  | incompleteExpired
  | trialing
  | active
  | pastDue
  | canceled
  | unpaid
  | paused
  deriving DecidableEq

namespace StripeSubscriptionStatus

def grantsAccess : StripeSubscriptionStatus → Bool
  | trialing | active | pastDue => true
  | _ => false

def isTerminal : StripeSubscriptionStatus → Bool
  | canceled | incompleteExpired => true
  | _ => false

/-- The statuses that win over the others among events of one time. -/
def isClosed : StripeSubscriptionStatus → Bool
  | canceled | unpaid | incompleteExpired => true
  | _ => false

end StripeSubscriptionStatus

inductive SubscriptionProvider
  | stripe
  | appStore
  | googlePlay
  deriving DecidableEq

structure Account where
  userId : Uuid
  deletedAt : Option ℤ
  deriving DecidableEq

structure BillingCustomer where
  userId : Uuid
  stripeCustomerId : String
  stripeCustomerDeletedAt : Option ℤ
  trialUsedAt : Option ℤ
  stripeReconciliationDueAt : ℤ
  stripeReconciledAt : Option ℤ
  updatedAt : ℤ
  deriving DecidableEq

/-- A row of `user_subscription`; `provider_check` is the check of the
column. -/
structure UserSubscription where
  userId : Uuid
  plan : String
  provider : Option SubscriptionProvider
  providerSubscriptionId : Option String
  providerPriceId : Option String
  billingPeriod : Option BillingPeriod
  status : Option StripeSubscriptionStatus
  cancelAtPeriodEnd : Bool
  currentPeriodStartsAt : Option ℤ
  currentPeriodEndsAt : Option ℤ
  trialEndsAt : Option ℤ
  canceledAt : Option ℤ
  providerEventCreatedAt : Option ℤ
  projectionVersion : ℕ
  providerSnapshotAt : Option ℤ
  updatedAt : ℤ
  provider_check : provider = none ∨ provider = some .stripe
  deriving DecidableEq

structure BillingInvoice where
  stripeInvoiceId : String
  userId : Option Uuid
  stripeCustomerId : String
  stripeSubscriptionId : Option String
  status : Option String
  currency : String
  amountDue : ℤ
  amountPaid : ℤ
  amountRemaining : ℤ
  periodStartsAt : ℤ
  periodEndsAt : ℤ
  paidAt : Option ℤ
  createdAt : ℤ
  providerEventCreatedAt : Option ℤ
  updatedAt : ℤ
  deriving DecidableEq

structure WebhookMetadata where
  id : String
  eventType : String
  objectId : Option String
  livemode : Bool
  apiVersion : Option String
  createdAt : ℤ
  deriving DecidableEq

inductive Language
  | fr
  | en
  | es
  | it
  deriving DecidableEq

structure CheckoutInput where
  locale : Option Language
  userId : Uuid
  customerId : String
  priceId : String
  billingPeriod : BillingPeriod
  trialDays : ℤ
  expiresAt : ℤ
  idempotencyKey : String
  successUrl : String
  cancelUrl : String
  automaticTax : Bool
  allowPromotionCodes : Bool
  deriving DecidableEq

/-- The contents of `stripe_checkout_request`. -/
inductive StoredRequest
  | input (input : CheckoutInput)
  | legacyUnrecoverable
  deriving DecidableEq

inductive CheckoutStatus
  | creating
  | open
  | completed
  | expired
  | failed
  deriving DecidableEq

structure CheckoutAttempt where
  id : Uuid
  userId : Uuid
  idempotencyKey : Uuid
  billingPeriod : BillingPeriod
  stripeSessionId : Option String
  checkoutUrl : Option String
  status : CheckoutStatus
  expiresAt : ℤ
  updatedAt : ℤ
  customerCreationStartedAt : Option ℤ
  createdCustomerId : Option String
  customerErasedAt : Option ℤ
  stripeCheckoutRequest : Option StoredRequest
  creationGeneration : ℕ
  deriving DecidableEq

structure BillingDb where
  accounts : Table Account.userId
  customers : Table BillingCustomer.userId
  subscriptions : Table UserSubscription.userId
  invoices : Table BillingInvoice.stripeInvoiceId
  events : Table WebhookMetadata.id
  checkouts : Table CheckoutAttempt.id

inductive DatabaseError
  | constraint
  | queryFailed
  deriving DecidableEq

/-- `GREATEST` ignores nulls. -/
def greatest : Option ℤ → ℤ → ℤ
  | none, t => t
  | some s, t => max s t

end Histae.Billing
