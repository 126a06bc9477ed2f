import Histae.Matches.Continuation
import Histae.Matches.Cursor

/-!
# Advertising rewards

The transactions of `src/advertising/pg.rs`. A completed intent keeps the hash
of the transaction that consumed it, under a unique index over all intents; a
proof of an earlier week is consumed without a credit. Every transaction is
rolled back when it answers an error, so the functions return new tables only
with a success. The digest of the transaction id is a parameter.
-/

namespace Histae.Advertising

open Relational Matches

def rewardCredits : ℤ := 1

inductive RewardPlatform
  | android
  | ios
  deriving DecidableEq

inductive RewardStatus
  | pending
  | credited
  | cancelled
  | expired
  deriving DecidableEq

structure RewardIntent where
  id : Uuid
  adUnit : String
  customData : List Char
  expiresAt : ℤ
  status : RewardStatus
  rewardCredits : ℤ
  deriving DecidableEq

inductive RewardError
  | disabled
  | notEligible
  | stockFull
  | notFound
  | invalidProof
  | database (error : DatabaseError)
  deriving DecidableEq

structure AdvertisingConfig where
  enabled : Bool
  androidAdUnit : String
  iosAdUnit : String
  rewardItem : String
  deriving DecidableEq

/-- The verified callback of the ad network. -/
structure Callback where
  intentId : Uuid
  adUnit : String
  transactionId : String
  timestampMs : ℤ
  rewardAmount : ℤ
  rewardItem : String
  deriving DecidableEq

/-- A row of `advertising_reward_intent`. -/
structure Intent where
  id : Uuid
  userId : Uuid
  adUnit : String
  createdAt : ℤ
  expiresAt : ℤ
  completedAt : Option ℤ
  creditedAt : Option ℤ
  cancelledAt : Option ℤ
  transactionHash : Option String
  deriving DecidableEq

/-- The intents beside the tables of the match transactions, which hold the
accounts and the wallets. -/
structure RewardDb where
  base : Db
  intents : Table Intent.id

def mapIntent (row : Intent) (outcome : Option RewardStatus) (now : ℤ) : RewardIntent where
  id := row.id
  adUnit := row.adUnit
  customData := StandardCodec.hyphenated row.id
  expiresAt := row.expiresAt
  status := outcome.getD (if row.expiresAt ≤ now then .expired else .pending)
  rewardCredits := rewardCredits

def status (db : RewardDb) (userId id : Uuid) (now : ℤ) : Except RewardError RewardIntent :=
  match (db.intents.find? id).filter fun row ↦ row.userId = userId with
  | none => .error .notFound
  | some row =>
      let outcome :=
        if row.cancelledAt.isSome then some RewardStatus.cancelled
        else if row.creditedAt.isSome then some .credited
        else if row.completedAt.isSome then some .expired
        else none
      .ok (mapIntent row outcome now)

def Intent.cancel (clock : ℤ) (row : Intent) : Intent :=
  { row with cancelledAt := some (row.cancelledAt.getD clock) }

theorem Intent.id_cancel (clock : ℤ) (row : Intent) : (row.cancel clock).id = row.id := rfl

/-- An update of an intent passes through the trigger that requires a live
account. -/
def cancelOn (db : RewardDb) (userId id : Uuid) (clock : ℤ) : Except RewardError RewardDb :=
  let target := fun row : Intent ↦
    row.id = id && row.userId = userId && row.completedAt.isNone
  if db.intents.count target ≠ 1 then .error .notFound
  else if db.base.anyDeleted [userId] then .error (.database .accountUnavailable)
  else .ok { db with intents := db.intents.modify target (Intent.cancel clock) (Intent.id_cancel clock) }

/-- The clock readings of a creation: the transaction's own and those of the
two column defaults. -/
structure CreationClock where
  now : ℤ
  created : ℤ
  expires : ℤ
  deriving DecidableEq

/-- The intent that keeps the last stock slot. -/
def outstanding (db : RewardDb) (userId : Uuid) (now : ℤ) : Option Intent :=
  ((db.intents.select fun row ↦
    row.userId = userId && row.completedAt.isNone && row.cancelledAt.isNone &&
      decide (now < row.expiresAt + hours 24) &&
      decide (days (startOfUtcWeek now) ≤ row.expiresAt)).insertionSort fun row other ↦
        other.createdAt ≤ row.createdAt).head?

def insertIntent (db : RewardDb) (id userId : Uuid) (adUnit : String) (t : CreationClock) :
    Except RewardError (RewardIntent × RewardDb) :=
  let row : Intent :=
    { id, userId, adUnit, createdAt := t.created, expiresAt := t.expires + minutes 15
      completedAt := none, creditedAt := none, cancelledAt := none, transactionHash := none }
  if row.expiresAt ≤ row.createdAt then .error (.database (.constraint .check))
  else
    match db.intents.insert? row with
    | none => .error (.database (.constraint .unique))
    | some intents => .ok (mapIntent row none t.now, { db with intents })

def createOn (db : RewardDb) (id userId : Uuid) (adUnit : String) (legal : LegalConfig)
    (t : CreationClock) : Except RewardError (RewardIntent × RewardDb) :=
  match lockEligibleAccounts db.base [userId] (some legal) with
  | .error error => .error (.database error)
  | .ok () =>
      let quota := quotaOn db.base userId t.now
      if quota.weeklyLimit.isNone then .error .notEligible
      else if advertisingStockLimit ≤ quota.advertisingBalance then .error .stockFull
      else
        match outstanding db userId t.now with
        | some row =>
            if t.now < row.expiresAt then
              if row.adUnit ≠ adUnit then .error .notEligible
              else .ok (mapIntent row none t.now, db)
            else .error .notEligible
        | none => insertIntent db id userId adUnit t

def create (config : AdvertisingConfig) (db : RewardDb) (id userId : Uuid)
    (platform : RewardPlatform) (legal : LegalConfig) (t : CreationClock) :
    Except RewardError (RewardIntent × RewardDb) :=
  if !config.enabled then .error .disabled
  else
    let adUnit := match platform with
      | .android => config.androidAdUnit
      | .ios => config.iosAdUnit
    createOn db id userId adUnit legal t

/-- What follows the last slash. -/
def lastSegment (text : String) : String :=
  String.ofList (text.toList.reverse.takeWhile (· ≠ '/')).reverse

def toAsciiLowercase (text : String) : String := String.ofList (text.toList.map Char.toLower)

/-- `DateTime::from_timestamp_millis`, in microseconds. -/
def fromTimestampMillis (millis : ℤ) : Option ℤ :=
  if -8334601228800000 ≤ millis ∧ millis ≤ 8210266876799999 then some (millis * 1000) else none

section Complete

variable (digest : String → String)

def Callback.hash (callback : Callback) : String := digest (toAsciiLowercase callback.transactionId)

/-- The answer to a callback whose intent is locked: the proof was consumed
before, or it may be consumed now, for the current week or not. -/
inductive Admission
  | replayed
  | accepted (currentWeek : Bool)
  deriving DecidableEq

def judge (row : Intent) (callback : Callback) (now : ℤ) : Except RewardError Admission :=
  if row.cancelledAt.isSome then .error .invalidProof
  else if callback.adUnit ≠ row.adUnit ∧ callback.adUnit ≠ lastSegment row.adUnit then
    .error .invalidProof
  else
    match row.transactionHash with
    | some existing =>
        if existing = callback.hash digest then .ok .replayed else .error .invalidProof
    | none =>
        match fromTimestampMillis callback.timestampMs with
        | none => .error .invalidProof
        | some event =>
            if event < row.createdAt - seconds 5 then .error .invalidProof
            else if row.expiresAt < event then .error .invalidProof
            else if now + minutes 5 < event then .error .invalidProof
            else if row.expiresAt + hours 24 < now then .error .invalidProof
            else .ok (.accepted (startOfUtcWeek event = startOfUtcWeek now))

def Intent.consume (now : ℤ) (hash : String) (currentWeek : Bool) (row : Intent) : Intent :=
  { row with
    completedAt := some now
    transactionHash := some hash
    creditedAt := if currentWeek then some now else none }

theorem Intent.id_consume (now : ℤ) (hash : String) (currentWeek : Bool) (row : Intent) :
    (row.consume now hash currentWeek).id = row.id := rfl

/-- The update that the unique index on the hash may refuse. -/
def consumeIntent (db : RewardDb) (callback : Callback) (now : ℤ) (currentWeek : Bool) :
    Except RewardError RewardDb :=
  let hash := callback.hash digest
  if db.intents.rows.any fun row ↦ row.id ≠ callback.intentId && row.transactionHash = some hash then
    .error .invalidProof
  else .ok { db with
    intents := db.intents.modify (fun row ↦ row.id = callback.intentId)
      (Intent.consume now hash currentWeek) (Intent.id_consume now hash currentWeek) }

/-- The credit of a proof of the current week. -/
def creditOwner (db : RewardDb) (owner : Uuid) (now : ℤ) (currentWeek : Bool) :
    Except RewardError RewardDb :=
  if !currentWeek then .ok db
  else
    match grantAdvertisingCredit db.base owner now with
    | (false, _) => .error .stockFull
    | (true, base) => .ok { db with base }

def lockIntent (db : RewardDb) (owner : Uuid) (callback : Callback) (now : ℤ) :
    Except RewardError Admission :=
  match lockEligibleAccounts db.base [owner] none with
  | .error error => .error (.database error)
  | .ok () =>
      match db.intents.find? callback.intentId with
      | none => .error .notFound
      | some row => judge digest row callback now

def completeOn (db : RewardDb) (callback : Callback) (now : ℤ) : Except RewardError RewardDb :=
  match db.intents.find? callback.intentId with
  | none => .error .notFound
  | some row =>
      match lockIntent digest db row.userId callback now with
      | .error error => .error error
      | .ok .replayed => .ok db
      | .ok (.accepted currentWeek) =>
          match consumeIntent digest db callback now currentWeek with
          | .error error => .error error
          | .ok db => creditOwner db row.userId now currentWeek

def checkReward (config : AdvertisingConfig) (callback : Callback) : Except RewardError Unit :=
  if !config.enabled then .error .disabled
  else if callback.rewardAmount ≠ rewardCredits then .error .invalidProof
  else if callback.rewardItem ≠ config.rewardItem then .error .invalidProof
  else .ok ()

def complete (config : AdvertisingConfig) (db : RewardDb) (callback : Callback) (now : ℤ) :
    Except RewardError RewardDb :=
  match checkReward config callback with
  | .error error => .error error
  | .ok () => completeOn digest db callback now

end Complete

end Histae.Advertising
