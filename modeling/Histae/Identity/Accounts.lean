import Histae.Identity.Families
import Histae.Privacy.Retention
import Histae.Systems.Transactions

/-!
# Accounts, bans and sign-up as transactions

The transactions that create accounts, open and refresh sessions, ban and
erase, statement by statement. `SELECT ... FOR UPDATE` selects a row that
satisfies its condition in the snapshot, waits for the lock of the row and
tests the condition again. An insertion waits while another transaction holds
an uncommitted change of its unique key.
-/

namespace Histae.Identity

open Relational Systems

inductive AdminUserRole
  | user
  | admin
  | superadmin
  deriving DecidableEq

inductive AdminRole
  | admin
  | superadmin
  deriving DecidableEq

/-- The column holds a keyed hash, or the random text of an anonymization. -/
inductive PhoneHash
  | keyed (digest : List Char)
  | anon (random : List Char)
  deriving DecidableEq

/-- A row of `user_account`. -/
structure UserAccount where
  userId : Uuid
  role : AdminUserRole
  phoneNumberHash : PhoneHash
  isBanned : Bool
  deletedAt : Option ℤ
  isReviewAccount : Bool
  deriving DecidableEq

structure AccountTombstone where
  phoneNumberHash : List Char
  expiresAt : ℤ
  deriving DecidableEq

/-- A row of `mobile_otp_request`. -/
structure MobileOtpRequest where
  id : Uuid
  phoneHash : List Char
  registration : Bool
  createdAt : ℤ
  expiresAt : ℤ
  deriving DecidableEq

structure WebBillingChallenge where
  id : Uuid
  userId : Option Uuid
  phoneHash : List Char
  attempts : ℕ
  consumed : Bool
  expiresAt : ℤ
  deriving DecidableEq

structure WebBillingSession where
  tokenHash : List Char
  userId : Uuid
  expiresAt : ℤ
  deriving DecidableEq

structure AccountDb where
  accounts : Table UserAccount.userId
  tombstones : Table AccountTombstone.phoneNumberHash
  otpRequests : List MobileOtpRequest
  /-- The users of the erasures that were accepted and are not complete. -/
  erasures : List Uuid
  families : Table Family.id
  tokens : Table RefreshToken.id
  challenges : Table WebBillingChallenge.id
  webSessions : Table WebBillingSession.tokenHash

def tombstoneYears : ℤ := 3

def webSessionMinutes : ℤ := 30

def UserAccount.account (a : UserAccount) : Account where
  userId := a.userId
  isBanned := a.isBanned
  deleted := a.deletedAt.isSome

def UserAccount.ban (isBanned : Bool) (a : UserAccount) : UserAccount := { a with isBanned }

def UserAccount.delete (now : ℤ) (a : UserAccount) : UserAccount :=
  { a with deletedAt := some (a.deletedAt.getD now) }

def UserAccount.anonymize (random : List Char) (now : ℤ) (a : UserAccount) : UserAccount :=
  { a with
    phoneNumberHash := .anon random
    isBanned := false
    deletedAt := some (a.deletedAt.getD now) }

def AccountTombstone.extend (expiresAt : ℤ) (t : AccountTombstone) : AccountTombstone :=
  { t with expiresAt := max t.expiresAt expiresAt }

def WebBillingChallenge.consume (c : WebBillingChallenge) : WebBillingChallenge :=
  { c with consumed := true }

inductive BanResult
  | updated
  | notFound
  | forbidden
  deriving DecidableEq

/-- A review account that is neither banned nor deleted. -/
def UserAccount.isAdoptable (phone : List Char) (a : UserAccount) : Bool :=
  a.phoneNumberHash = .keyed phone && a.isReviewAccount && a.role = .user && !a.isBanned &&
    a.deletedAt.isNone

namespace AccountDb

variable (db : AccountDb)

/-- The tables of the mobile sessions. -/
def store : Store where
  accounts :=
    { rows := db.accounts.rows.map UserAccount.account
      nodup := by
        rw [List.map_map]
        exact db.accounts.nodup }
  families := db.families
  tokens := db.tokens

def withSessions (s : Store) : AccountDb := { db with families := s.families, tokens := s.tokens }

/-- The tombstone check of both sign-up paths. -/
def isTombstoned (phone : List Char) (now : ℤ) : Bool :=
  (db.tombstones.find? phone).any fun t ↦ decide (now < t.expiresAt)

/-- The unique key on `phone_number_hash` is taken. -/
def hasPhone (phone : PhoneHash) : Bool :=
  db.accounts.rows.any fun a ↦ a.phoneNumberHash = phone

def insertAccount (row : UserAccount) : Option AccountDb :=
  if db.hasPhone row.phoneNumberHash then none
  else (db.accounts.insert? row).map fun accounts ↦ { db with accounts }

/-- The latest request for a phone is an unexpired sign-up. -/
def isRegistering (phone : List Char) (now : ℤ) : Bool :=
  let own := db.otpRequests.filter fun r ↦ r.phoneHash = phone
  let latest := own.find? fun r ↦ own.all fun q ↦
    decide (q.createdAt < r.createdAt ∨ q.createdAt = r.createdAt ∧ q.id ≤ r.id)
  latest.any fun r ↦ r.registration && decide (now < r.expiresAt)

def findUndeleted (userId : Uuid) : Option UserAccount :=
  (db.accounts.find? userId).filter fun a ↦ a.deletedAt.isNone

/-- `set_ban`, with `revoke_mobile_sessions`, under the lock of the account. -/
def setBan (targetId : Uuid) (isBanned : Bool) (adminId : Uuid) (adminRole : AdminRole)
    (now : ℤ) : BanResult × AccountDb :=
  match db.findUndeleted targetId with
  | none => (.notFound, db)
  | some row =>
      if targetId = adminId ∨ row.role = .superadmin ∨ (adminRole = .admin ∧ row.role ≠ .user) then
        (.forbidden, db)
      else
        let updated : AccountDb :=
          { db with
            accounts := db.accounts.modify (fun a ↦ a.userId = targetId)
              (UserAccount.ban isBanned) fun _ ↦ rfl }
        (.updated,
          if isBanned then
            updated.withSessions (db.store.revokeFamilies now targetId .banned none)
          else updated)

/-- The trigger on `deleted_at` erases the mobile sessions. -/
def eraseMobileSessions (userId : Uuid) : AccountDb :=
  { db with
    families := db.families.delete fun f ↦ f.userId = userId
    tokens := db.tokens.delete fun t ↦ t.userId = userId }

/-- `enqueue_account_erasure`. -/
def enqueueAccountErasure (userId : Uuid) (now : ℤ) : AccountDb :=
  { db.eraseMobileSessions userId with
    accounts := db.accounts.modify (fun a ↦ a.userId = userId) (UserAccount.delete now)
      fun _ ↦ rfl
    erasures := userId :: db.erasures }

/-- The tombstone that an anonymization asks for. -/
def tombstoneOf (userId : Uuid) (started : ℤ) : Option AccountTombstone :=
  match db.accounts.find? userId with
  | some ⟨_, _, .keyed phone, true, _, _⟩ =>
      some ⟨phone, Privacy.yearsBefore (-tombstoneYears) started⟩
  | _ => none

/-- `fct_anonymize_user` in a transaction that started at `started`; `none`
when the random text is taken. -/
def anonymizeUser (userId : Uuid) (random : List Char) (started : ℤ) : Option AccountDb :=
  if db.hasPhone (.anon random) then none
  else some
    { db.eraseMobileSessions userId with
      accounts := db.accounts.modify (fun a ↦ a.userId = userId)
        (UserAccount.anonymize random started) fun _ ↦ rfl
      tombstones :=
        match db.tombstoneOf userId started with
        | none => db.tombstones
        | some row => db.tombstones.upsert row (AccountTombstone.extend row.expiresAt) fun _ ↦ rfl
      erasures := db.erasures.filter (· ≠ userId)
      challenges := db.challenges.delete fun c ↦ c.userId = some userId
      webSessions := db.webSessions.delete fun s ↦ s.userId = userId }

/-- The challenge belongs to the user and is still to be consumed. -/
def isConsumable (challengeId userId : Uuid) (now : ℤ) : Bool :=
  (db.challenges.find? challengeId).any fun c ↦
    c.userId = some userId && !c.consumed && decide (now < c.expiresAt)

/-- The insertion of a web session and its challenge marked consumed. -/
def openWebSession (challengeId userId : Uuid) (tokenHash : List Char) (now : ℤ) :
    Option AccountDb :=
  (db.webSessions.insert? ⟨tokenHash, userId, now + minutes webSessionMinutes⟩).map
    fun webSessions ↦
      { db with
        webSessions
        challenges := db.challenges.modify (fun c ↦ c.id = challengeId)
          WebBillingChallenge.consume fun _ ↦ rfl }

/-- `IDENTITY_SQL`, for the user; whether onboarding is complete is left out. -/
def identity (tokenHash : List Char) (now : ℤ) : Option Uuid :=
  ((db.webSessions.find? tokenHash).filter fun s ↦
    decide (now < s.expiresAt) &&
      (db.accounts.find? s.userId).any fun a ↦ a.deletedAt.isNone && !a.isBanned).map
    WebBillingSession.userId

end AccountDb

/-- What `authenticate` makes of an access token that names a user and a
session. -/
inductive MobileAuthentication
  | authenticated
  | authenticationRequired
  | accountUnavailable
  deriving DecidableEq

/-- `active_account` and the check of its answer. -/
def AccountDb.authenticate (db : AccountDb) (userId sessionId : Uuid) (now : ℤ) :
    MobileAuthentication :=
  match (db.findUndeleted userId).filter fun _ ↦ db.store.activeFamily now userId sessionId with
  | none => .authenticationRequired
  | some a => if a.isBanned then .accountUnavailable else .authenticated

end Histae.Identity
