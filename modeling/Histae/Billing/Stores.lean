import Mathlib
import Histae.Billing.Store
import Histae.Matches.Cursor
import Histae.Outbox.Events

/-!
# Purchases of the application stores

The statements of `StoreRepository` over `billing_store_account`,
`billing_store_subscription` and the outbox, and what the anonymization of an
account does to the first two. A purchase is stored under its provider,
environment and original identifier. The snapshots are those that passed
`StoreSnapshot::valid`; the encrypted reference is opaque, and the digest
that makes the Google account identifier is a parameter.
-/

namespace Histae.Billing

open Relational Outbox

inductive StoreProvider
  | appStore
  | googlePlay
  deriving DecidableEq

inductive StoreEnvironment
  | production
  | sandbox
  deriving DecidableEq

inductive StoreStatus
  | pending
  | active
  | gracePeriod
  | pastDue
  | onHold
  | paused
  | canceled
  | expired
  | revoked
  deriving DecidableEq

inductive Role
  | user
  | admin
  | superadmin
  deriving DecidableEq

/-- A row of `user_account`, with the check on review accounts. -/
structure UserAccount where
  userId : Uuid
  role : Role
  isReviewAccount : Bool
  isBanned : Bool
  createdAt : ℤ
  deletedAt : Option ℤ
  review_role_check : isReviewAccount = true → role = .user
  deriving DecidableEq

structure StoreAccount where
  id : Uuid
  userId : Option Uuid
  googleAccountId : String
  createdAt : ℤ
  deriving DecidableEq

structure Purchase where
  provider : StoreProvider
  environment : StoreEnvironment
  originalId : String
  deriving DecidableEq

structure StoreSnapshot where
  provider : StoreProvider
  originalId : String
  transactionId : String
  productId : String
  basePlanId : Option String
  accountBinding : String
  environment : StoreEnvironment
  billingPeriod : BillingPeriod
  status : StoreStatus
  startsAt : ℤ
  expiresAt : ℤ
  autoRenew : Bool
  acknowledgementRequired : Bool
  linkedReferenceHash : Option String
  deriving DecidableEq

def StoreSnapshot.purchase (s : StoreSnapshot) : Purchase :=
  ⟨s.provider, s.environment, s.originalId⟩

structure StoreSubscription where
  id : Uuid
  userId : Option Uuid
  accountId : Uuid
  provider : StoreProvider
  originalId : String
  referenceEncrypted : String
  environment : StoreEnvironment
  productId : String
  basePlanId : Option String
  transactionId : String
  billingPeriod : BillingPeriod
  status : StoreStatus
  startsAt : ℤ
  expiresAt : ℤ
  autoRenew : Bool
  acknowledged : Bool
  superseded : Bool
  verifiedAt : ℤ
  nextCheckAt : ℤ
  deriving DecidableEq

namespace StoreSubscription

def purchase (row : StoreSubscription) : Purchase :=
  ⟨row.provider, row.environment, row.originalId⟩

/-- The row that `APPLY_SUBSCRIPTION_SQL` inserts. -/
def new (id owner account : Uuid) (encrypted : String) (observedAt : ℤ) (s : StoreSnapshot) :
    StoreSubscription where
  id := id
  userId := some owner
  accountId := account
  provider := s.provider
  originalId := s.originalId
  referenceEncrypted := encrypted
  environment := s.environment
  productId := s.productId
  basePlanId := s.basePlanId
  transactionId := s.transactionId
  billingPeriod := s.billingPeriod
  status := s.status
  startsAt := s.startsAt
  expiresAt := s.expiresAt
  autoRenew := s.autoRenew
  acknowledged := !s.acknowledgementRequired
  superseded := false
  verifiedAt := observedAt
  nextCheckAt := observedAt + hours 6

/-- The guard of its conflict clause. -/
def accepts (owner account : Uuid) (observedAt : ℤ) (row : StoreSubscription) : Bool :=
  row.userId = some owner && row.accountId = account && row.verifiedAt ≤ observedAt &&
    !row.superseded

/-- The assignments of its conflict clause. -/
def refresh (encrypted : String) (observedAt : ℤ) (s : StoreSnapshot) (row : StoreSubscription) :
    StoreSubscription :=
  { row with
    referenceEncrypted := encrypted
    productId := s.productId
    basePlanId := s.basePlanId
    transactionId := s.transactionId
    billingPeriod := s.billingPeriod
    status := s.status
    startsAt := s.startsAt
    expiresAt := s.expiresAt
    autoRenew := s.autoRenew
    acknowledged := row.acknowledged || !s.acknowledgementRequired
    verifiedAt := observedAt
    nextCheckAt := observedAt + hours 6 }

/-- The guard of `SUPERSEDE_LINKED_SQL`. -/
def isReplaced (owner account : Uuid) (observedAt : ℤ) (s : StoreSnapshot)
    (row : StoreSubscription) : Bool :=
  row.provider = .googlePlay && s.linkedReferenceHash = some row.originalId &&
    row.environment = s.environment && row.originalId ≠ s.originalId &&
    row.verifiedAt ≤ observedAt && row.userId = some owner && row.accountId = account

def supersede (observedAt : ℤ) (row : StoreSubscription) : StoreSubscription :=
  { row with status := .expired, autoRenew := false, superseded := true, verifiedAt := observedAt }

def detach (row : StoreSubscription) : StoreSubscription :=
  { row with userId := none, referenceEncrypted := "" }

/-- Whether `DUE_SUBSCRIPTIONS_SQL` selects the row. -/
def isDue (now : ℤ) (row : StoreSubscription) : Bool :=
  row.userId.isSome && !row.superseded && row.nextCheckAt ≤ now &&
    (now - days 60 < row.expiresAt || !row.acknowledged)

/-- `ORDER BY next_check_at, id`. -/
def before (row row' : StoreSubscription) : Bool :=
  row.nextCheckAt < row'.nextCheckAt || row.nextCheckAt = row'.nextCheckAt && row.id ≤ row'.id

end StoreSubscription

inductive StoreError
  | unavailable
  | invalid
  | ownership
  | alreadySubscribed
  | accountUnavailable
  | database (error : DatabaseError)
  deriving DecidableEq

structure StoreDb where
  members : Table UserAccount.userId
  accounts : Table StoreAccount.id
  purchases : Table StoreSubscription.purchase
  outbox : OutboxTable

def uuidText (id : Uuid) : String := String.ofList (Matches.StandardCodec.hyphenated id)

namespace StoreDb

variable (db : StoreDb)

/-- `UPSERT_ACCOUNT_SQL`. -/
def account (googleId : Uuid → String) (userId newId : Uuid) (clock : ℤ) :
    Except StoreError (StoreDb × StoreAccount) :=
  if (db.members.find? userId).any fun m ↦ m.deletedAt.isNone && !m.isBanned then
    match db.accounts.rows.find? fun a ↦ a.userId = some userId with
    | some account => .ok (db, account)
    | none =>
        if 0 < db.accounts.count fun a ↦ a.googleAccountId = googleId newId then
          .error (.database .constraint)
        else
          match db.accounts.insert? ⟨newId, some userId, googleId newId, clock⟩ with
          | some accounts => .ok ({ db with accounts }, ⟨newId, some userId, googleId newId, clock⟩)
          | none => .error (.database .constraint)
  else .error .accountUnavailable

/-- `OWNER_SQL`; a detached account has no owner. -/
def owner (provider : StoreProvider) (accountBinding : String) : Option Uuid :=
  (db.accounts.rows.find? fun a ↦ match provider with
    | .appStore => uuidText a.id = accountBinding
    | .googlePlay => a.googleAccountId = accountBinding).bind StoreAccount.userId

/-- `LOCK_OWNER_SQL`. -/
def isAlive (userId : Uuid) : Bool :=
  (db.members.find? userId).any fun m ↦ m.deletedAt.isNone

/-- `LOCK_ACCOUNT_SQL`. -/
def accountOf (userId : Uuid) : Option Uuid :=
  (db.accounts.rows.find? fun a ↦ a.userId = some userId).map StoreAccount.id

/-- `LINKED_OWNER_CONFLICT_SQL`. -/
def linkedOwnerConflict (environment : StoreEnvironment) (linked : String) (account : Uuid) :
    Bool :=
  0 < db.purchases.count fun row ↦ row.provider = .googlePlay && row.environment = environment &&
    row.originalId = linked && row.accountId ≠ account

/-- `APPLY_SUBSCRIPTION_SQL`; `none` when the guard of the conflict clause
rejects the stored row. -/
def applySubscription (owner account newId : Uuid) (encrypted : String) (observedAt : ℤ)
    (s : StoreSnapshot) : Except StoreError (Option (StoreDb × Uuid)) :=
  match db.purchases.find? s.purchase with
  | some row =>
      if row.accepts owner account observedAt then
        .ok (some ({ db with
          purchases := db.purchases.modify (fun row ↦ row.purchase = s.purchase)
            (StoreSubscription.refresh encrypted observedAt s) fun _ ↦ rfl }, row.id))
      else .ok none
  | none =>
      if 0 < db.purchases.count fun row ↦ row.id = newId then .error (.database .constraint)
      else
        match db.purchases.insert? (.new newId owner account encrypted observedAt s) with
        | some purchases => .ok (some ({ db with purchases }, newId))
        | none => .error (.database .constraint)

/-- `SUPERSEDE_LINKED_SQL`. -/
def supersedeLinked (owner account : Uuid) (observedAt : ℤ) (s : StoreSnapshot) : StoreDb :=
  { db with
    purchases := db.purchases.modify (StoreSubscription.isReplaced owner account observedAt s)
      (StoreSubscription.supersede observedAt) fun _ ↦ rfl }

def enqueue (eventType : OutboxEventType) (aggregateId eventId : Uuid) (clock : ℤ) : StoreDb :=
  { db with
    outbox := db.outbox.upsert (.new eventId (eventType, aggregateId) clock clock)
      (fun event ↦ if event.isCompleted then event.reset clock else event)
      (fun event ↦ by split <;> rfl) }

/-- `StoreRepository::apply`, one transaction. -/
def apply (s : StoreSnapshot) (encrypted : String) (expectedUser : Option Uuid) (observedAt : ℤ)
    (newId eventId : Uuid) (clock : ℤ) : Except StoreError (StoreDb × Option Uuid) :=
  match db.owner s.provider s.accountBinding with
  | none => .error .ownership
  | some owner =>
      if expectedUser.any fun user ↦ user ≠ owner then .error .ownership
      else if db.isAlive owner = false then .error .accountUnavailable
      else
        match db.accountOf owner with
        | none => .error (.database .queryFailed)
        | some account =>
            if s.linkedReferenceHash.any fun linked ↦
                db.linkedOwnerConflict s.environment linked account then .error .ownership
            else
              match db.applySubscription owner account newId encrypted observedAt s with
              | .error error => .error error
              | .ok none =>
                  if (db.purchases.find? s.purchase).bind StoreSubscription.userId = some owner then
                    .ok (db, none)
                  else .error .ownership
              | .ok (some (applied, id)) =>
                  let superseded := applied.supersedeLinked owner account observedAt s
                  if s.acknowledgementRequired then
                    .ok (superseded.enqueue .storeAcknowledge id eventId clock, some owner)
                  else .ok (superseded, some owner)

def acknowledged (id : Uuid) : StoreDb :=
  { db with
    purchases := db.purchases.modify (fun row ↦ row.id = id)
      (fun row ↦ { row with acknowledged := true }) fun _ ↦ rfl }

/-- The rows `schedule` picks; `locked` are the rows that other transactions
hold, which it skips. -/
def dueSubscriptions (now : ℤ) (locked : List Uuid) : List Uuid :=
  (((db.purchases.select fun row ↦ row.isDue now && !decide (row.id ∈ locked)).insertionSort
    fun row row' ↦ row.before row').take 100).map StoreSubscription.id

def schedule (now : ℤ) (locked : List Uuid) (eventIds : Uuid → Uuid) : StoreDb :=
  let ids := db.dueSubscriptions now locked
  let enqueued := ids.foldl (fun db id ↦ db.enqueue .storeReconcile id (eventIds id) now) db
  { enqueued with
    purchases := enqueued.purchases.modify (fun row ↦ row.id ∈ ids)
      (fun row ↦ { row with nextCheckAt := now + hours 6 }) fun _ ↦ rfl }

/-- What `fct_anonymize_user` does to the stores and the account. -/
def anonymize (userId : Uuid) (now : ℤ) : StoreDb :=
  { db with
    purchases := db.purchases.modify (fun row ↦ row.userId = some userId)
      StoreSubscription.detach fun _ ↦ rfl
    accounts := db.accounts.modify (fun a ↦ a.userId = some userId)
      (fun a ↦ { a with userId := none }) fun _ ↦ rfl
    members := db.members.modify (fun m ↦ m.userId = userId)
      (fun m ↦ { m with isBanned := false, deletedAt := m.deletedAt <|> some now }) fun _ ↦ rfl }

end StoreDb

end Histae.Billing
