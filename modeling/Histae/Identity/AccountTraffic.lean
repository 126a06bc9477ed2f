import Histae.Identity.Accounts

/-!
# Account transactions in flight

The protocol of the account transactions. A call holds the lock of an account
row from the phase `locked` or `adopted` on; a sign-up holds the advisory lock
of its phone, and the phone itself once its row is inserted.
-/

namespace Histae.Identity

open Relational Systems

inductive AccountRequest
  | createAccount (userId : Uuid) (phone : List Char)
  | createReviewSession (userId : Uuid) (phone : List Char) (sessionId : Uuid)
      (token : NewRefreshToken)
  | create (userId sessionId : Uuid) (token : NewRefreshToken)
  | rotate (jti : Uuid) (hash : List Char) (next : NewRefreshToken)
      (recovery : Option RefreshRecovery)
  | openWebSession (challengeId userId : Uuid) (tokenHash : List Char)
  | setBan (targetId : Uuid) (isBanned : Bool) (adminId : Uuid) (adminRole : AdminRole)
  | acceptErasure (userId : Uuid) (consumed : Bool)
  | anonymize (userId : Uuid) (random : List Char)
  | cleanTombstones (now : ℤ) (limit : ℕ) (chosen : List (List Char))
  deriving DecidableEq

/-- How far a transaction has come. -/
inductive AccountPhase
  | begun
  | reviewing
  | cleared
  | registering (registers : Bool)
  | inserted (created : Bool)
  | rechecked (created : Bool)
  | chosen (userId : Uuid)
  | adopted (userId : Uuid) (created : Bool)
  | waiting (userId : Uuid) (started : ℤ)
  | locked (userId : Uuid) (started : ℤ)
  | matched
  | consumed
  | selected (phones : List (List Char))
  deriving DecidableEq

inductive AccountOutcome
  /-- An account row with the phone commits at an instant. -/
  | signedUp (userId : Uuid) (at_ : ℤ)
  | session (identity : MobileSessionIdentity)
  /-- A review session; the instant when its account row commits with it. -/
  | reviewed (identity : MobileSessionIdentity) (created : Option ℤ)
  | rotation (result : RefreshRotation)
  | webSession (opened : Bool)
  | ban (result : BanResult)
  | accepted
  | anonymized (tombstone : Option AccountTombstone)
  | cleaned
  | refused
  deriving DecidableEq

abbrev AccountCall := Systems.Call AccountRequest AccountPhase

abbrev AccountTraffic := Traffic AccountDb AccountRequest AccountPhase AccountOutcome

abbrev AccountStep := CallStep AccountRequest Readings

abbrev AccountAnswer := Answer AccountRequest AccountOutcome

abbrev AccountProgress := Progress AccountDb AccountPhase AccountOutcome

instance : Inhabited Readings := ⟨⟨0, 0, 0⟩⟩

def newAccount (userId : Uuid) (phone : List Char) (isReviewAccount : Bool) : UserAccount where
  userId := userId
  role := .user
  phoneNumberHash := .keyed phone
  isBanned := false
  deletedAt := none
  isReviewAccount := isReviewAccount

section Statements

variable (c : TokenCrypto) (db : AccountDb) (r : Readings)

/-- `MobileAccountRepository::create`. -/
def createAccountStatement (userId : Uuid) (phone : List Char) : AccountPhase → AccountProgress
  | .begun => if db.isTombstoned phone r.token then .commit .refused db else .proceed .cleared
  | .cleared =>
      match db.insertAccount (newAccount userId phone false) with
      | none => .commit .refused db
      | some _ => .proceed (.inserted true)
  | .inserted _ =>
      match db.insertAccount (newAccount userId phone false) with
      | none => .rollback
      | some db' => .commit (.signedUp userId r.token) db'
  | _ => .rollback

/-- The session of a review account, in the transaction that may have created
the account. -/
def reviewSession (db : AccountDb) (userId sessionId : Uuid) (token : NewRefreshToken)
    (created : Option ℤ) : AccountProgress :=
  match db.store.insertSession c userId sessionId token with
  | .error _ => .rollback
  | .ok (identity, s) => .commit (.reviewed identity created) (db.withSessions s)

def createReviewSessionStatement (userId : Uuid) (phone : List Char) (sessionId : Uuid)
    (token : NewRefreshToken) : AccountPhase → AccountProgress
  | .begun => .proceed .reviewing
  | .reviewing => if db.isTombstoned phone r.token then .commit .refused db else .proceed .cleared
  | .cleared => .proceed (.registering (db.isRegistering phone r.token))
  | .registering registers =>
      if !registers || db.hasPhone (.keyed phone) then .proceed (.inserted false)
      else
        match db.insertAccount (newAccount userId phone true) with
        | none => .rollback
        | some _ => .proceed (.inserted true)
  | .inserted created =>
      if db.isTombstoned phone r.token then .rollback else .proceed (.rechecked created)
  | .rechecked true => .proceed (.adopted userId true)
  | .rechecked false =>
      match db.accounts.rows.find? (UserAccount.isAdoptable phone) with
      | none => .commit .refused db
      | some row => .proceed (.chosen row.userId)
  | .chosen user =>
      if (db.accounts.find? user).any (UserAccount.isAdoptable phone) then .proceed (.adopted user false)
      else .commit .refused db
  | .adopted user false => reviewSession c db user sessionId token none
  | .adopted user true =>
      match db.insertAccount (newAccount user phone true) with
      | none => .rollback
      | some db' => reviewSession c db' user sessionId token (some r.token)
  | _ => .rollback

/-- A row selected for update: the condition holds in the snapshot and again
under the lock. -/
def lockStatement (userId : Uuid) (condition : Bool) (refusal : AccountOutcome)
    (locked : AccountProgress) : AccountPhase → AccountProgress
  | .begun =>
      if condition then .proceed (.waiting userId r.token) else .commit refusal db
  | .waiting user started =>
      if condition then .proceed (.locked user started) else .commit refusal db
  | .locked _ _ => locked
  | _ => .rollback

/-- `MobileSessionRepository::create`. -/
def createStatement (userId sessionId : Uuid) (token : NewRefreshToken) :
    AccountPhase → AccountProgress :=
  lockStatement db r userId (db.store.lockActiveAccount userId) .refused
    (match db.store.insertSession c userId sessionId token with
    | .error _ => .rollback
    | .ok (identity, s) => .commit (.session identity) (db.withSessions s))

/-- `rotate` and `rotate_recoverable`; the owner of the token is read before
the lock. -/
def rotateStatement (jti : Uuid) (hash : List Char) (next : NewRefreshToken)
    (recovery : Option RefreshRecovery) (phase : AccountPhase) : AccountProgress :=
  let rotated : AccountProgress :=
    match db.store.rotateInner c r jti hash next recovery with
    | .error _ => .rollback
    | .ok (rotation, s) => .commit (.rotation rotation) (db.withSessions s)
  let invalid : AccountOutcome := .rotation (.outcome .invalid)
  match phase with
  | .begun =>
      match (db.tokens.rows.find? fun t ↦ t.jti = jti).filter (·.tokenHash = hash) with
      | none => .commit invalid db
      | some candidate =>
          lockStatement db r candidate.userId (db.store.lockActiveAccount candidate.userId) invalid
            rotated .begun
  | .waiting user started =>
      lockStatement db r user (db.store.lockActiveAccount user) invalid rotated
        (.waiting user started)
  | phase => lockStatement db r 0 false invalid rotated phase

def setBanStatement (targetId : Uuid) (isBanned : Bool) (adminId : Uuid) (adminRole : AdminRole) :
    AccountPhase → AccountProgress :=
  lockStatement db r targetId (db.findUndeleted targetId).isSome (.ban .notFound)
    (let (result, db') := db.setBan targetId isBanned adminId adminRole r.write
     .commit (.ban result) db')

/-- The challenge is updated in a snapshot that also sees the account; the
insertion waits for the account's row, as its foreign key asks. -/
def openWebSessionStatement (challengeId userId : Uuid) (tokenHash : List Char) :
    AccountPhase → AccountProgress
  | .begun =>
      if db.isConsumable challengeId userId r.token && db.store.lockActiveAccount userId then
        .proceed .matched
      else .commit (.webSession false) db
  | .matched =>
      if db.isConsumable challengeId userId r.token then .proceed .consumed
      else .commit (.webSession false) db
  | .consumed =>
      match db.openWebSession challengeId userId tokenHash r.token with
      | none => .rollback
      | some db' => .commit (.webSession true) db'
  | _ => .rollback

def acceptErasureStatement (userId : Uuid) (consumed : Bool) : AccountPhase → AccountProgress :=
  lockStatement db r userId (db.findUndeleted userId).isSome .refused
    (if consumed then .commit .accepted (db.enqueueAccountErasure userId r.write)
    else .commit .refused db)

/-- The last step of an erasure. -/
def anonymizeStatement (userId : Uuid) (random : List Char) : AccountPhase → AccountProgress
  | .locked user started =>
      if user ∈ db.erasures then
        match db.anonymizeUser user random started with
        | none => .rollback
        | some db' => .commit (.anonymized (db.tombstoneOf user started)) db'
      else .commit .refused db
  | phase => lockStatement db r userId (decide (userId ∈ db.erasures)) .refused .rollback phase

/-- The deletion finds the selected rows by their key. -/
def cleanTombstonesStatement (now : ℤ) (limit : ℕ) (chosen : List (List Char)) :
    AccountPhase → AccountProgress
  | .begun =>
      .proceed (.selected ((chosen.filter fun phone ↦
        (db.tombstones.find? phone).any fun t ↦ decide (t.expiresAt ≤ now)).take limit))
  | .selected phones =>
      .commit .cleaned
        { db with tombstones := db.tombstones.delete fun t ↦ t.phoneNumberHash ∈ phones }
  | _ => .rollback

def accountStatement (db : AccountDb) (request : AccountRequest) (phase : AccountPhase)
    (r : Readings) : AccountProgress :=
  match request with
  | .createAccount userId phone => createAccountStatement db r userId phone phase
  | .createReviewSession userId phone sessionId token =>
      createReviewSessionStatement c db r userId phone sessionId token phase
  | .create userId sessionId token => createStatement c db r userId sessionId token phase
  | .rotate jti hash next recovery => rotateStatement c db r jti hash next recovery phase
  | .openWebSession challengeId userId tokenHash =>
      openWebSessionStatement db r challengeId userId tokenHash phase
  | .setBan targetId isBanned adminId adminRole =>
      setBanStatement db r targetId isBanned adminId adminRole phase
  | .acceptErasure userId consumed => acceptErasureStatement db r userId consumed phase
  | .anonymize userId random => anonymizeStatement db r userId random phase
  | .cleanTombstones now limit chosen => cleanTombstonesStatement db now limit chosen phase

end Statements

section Waits

/-- The committed account row whose lock the call holds. -/
def lockedAccount (call : AccountCall) : Option Uuid :=
  match call.phase with
  | .locked user _ | .adopted user false => some user
  | _ => none

def holdsAccount (userId : Uuid) (call : AccountCall) : Bool := lockedAccount call = some userId

def reviewsPhone (phone : List Char) (call : AccountCall) : Bool :=
  match call.request with
  | .createReviewSession _ p _ _ => p = phone && call.phase ≠ .begun
  | _ => false

/-- The phone of an inserted account row that has not committed. -/
def insertedPhone (call : AccountCall) : Option (List Char) :=
  match call.request, call.phase with
  | .createAccount _ phone, .inserted _ => some phone
  | .createReviewSession _ phone _ _, .inserted true
  | .createReviewSession _ phone _ _, .rechecked true
  | .createReviewSession _ phone _ _, .adopted _ true => some phone
  | _, _ => none

/-- The call may have changed the phone of an account, without having
committed. -/
def changesPhone (db : AccountDb) (phone : List Char) (call : AccountCall) : Bool :=
  match call.request, call.phase with
  | .anonymize _ _, .locked user _ =>
      (db.accounts.find? user).any fun a ↦ a.phoneNumberHash = .keyed phone
  | _, _ => false

def keepsPhone (db : AccountDb) (phone : List Char) (call : AccountCall) : Bool :=
  insertedPhone call = some phone || changesPhone db phone call

def consumesChallenge (challengeId : Uuid) (call : AccountCall) : Bool :=
  match call.request with
  | .openWebSession id _ _ => id = challengeId && call.phase = .consumed
  | _ => false

def accountWaits (calls : List AccountCall) (db : AccountDb) (request : AccountRequest)
    (phase : AccountPhase) : Bool :=
  match request, phase with
  | .createReviewSession _ phone _ _, .begun => calls.any (reviewsPhone phone)
  | .createAccount _ phone, .cleared => calls.any (keepsPhone db phone)
  | .createReviewSession _ phone _ _, .registering true => calls.any (keepsPhone db phone)
  | .openWebSession id _ _, .matched => calls.any (consumesChallenge id)
  | .openWebSession _ userId _, .consumed => calls.any (holdsAccount userId)
  | _, .waiting user _ => calls.any (holdsAccount user)
  | _, .chosen user => calls.any (holdsAccount user)
  | _, _ => false

end Waits

def accountProtocol (c : TokenCrypto) :
    Protocol AccountDb AccountRequest AccountPhase AccountOutcome Readings where
  start := .begun
  statement := accountStatement c
  waits := accountWaits

def accountTraffic (c : TokenCrypto) : System AccountTraffic AccountStep :=
  (accountProtocol c).system

instance (c : TokenCrypto) (s : AccountTraffic) (a : AccountStep) :
    Decidable ((accountTraffic c).Enabled s a) :=
  inferInstanceAs (Decidable ((accountProtocol c).system.Enabled s a))

end Histae.Identity
