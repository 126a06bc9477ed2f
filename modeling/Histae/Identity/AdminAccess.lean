import Histae.Identity.Accounts
import Histae.Systems.RowTransactions

/-!
# Administrator access

Credentials, sessions, bootstraps and challenges of the administrators, with
the transactions that change them. Every statement selects in its own
snapshot, and a row that another transaction changed in between is tested
again under its lock. The account joined to such a row is not: it stays the
one of the snapshot.
-/

namespace Histae.Identity

open Relational Systems

inductive ChallengePurpose
  | bootstrapRegistration
  | additionalRegistration
  | authentication
  deriving DecidableEq

inductive DeviceType
  | singleDevice
  | multiDevice
  deriving DecidableEq

structure NewCredential where
  credentialId : List Char
  publicKey : List UInt8
  counter : UInt32
  deviceType : DeviceType
  backedUp : Bool
  transports : List (List Char)
  aaguid : Option Uuid
  name : List Char
  deriving DecidableEq

/-- A row of `admin_webauthn_credential`. -/
structure AdminCredential extends NewCredential where
  id : Uuid
  userId : Uuid
  lastUsedAt : Option ℤ
  revokedAt : Option ℤ
  deriving DecidableEq

structure NewSession where
  tokenHash : List UInt8
  idleExpiresAt : ℤ
  absoluteExpiresAt : ℤ
  deriving DecidableEq

/-- A row of `admin_session`. -/
structure AdminSession extends NewSession where
  id : Uuid
  userId : Uuid
  credentialId : Uuid
  lastSeenAt : ℤ
  revokedAt : Option ℤ
  createdAt : ℤ
  deriving DecidableEq

/-- A row of `admin_webauthn_bootstrap`. -/
structure AdminBootstrap where
  id : Uuid
  userId : Uuid
  secretHash : List UInt8
  expiresAt : ℤ
  consumedAt : Option ℤ
  deriving DecidableEq

structure NewChallenge where
  purpose : ChallengePurpose
  challengeHash : List UInt8
  ceremonyState : List UInt8
  userId : Option Uuid
  bootstrapId : Option Uuid
  expiresAt : ℤ
  deriving DecidableEq

/-- A row of `admin_webauthn_challenge`. -/
structure AdminChallenge extends NewChallenge where
  id : Uuid
  consumedAt : Option ℤ
  deriving DecidableEq

structure AdminDb where
  accounts : Table UserAccount.userId
  credentials : Table AdminCredential.id
  sessions : Table AdminSession.id
  bootstraps : Table AdminBootstrap.id
  challenges : Table AdminChallenge.id

inductive AdminRow
  | account (userId : Uuid)
  | credential (id : Uuid)
  | session (id : Uuid)
  | bootstrap (id : Uuid)
  | challenge (id : Uuid)
  deriving DecidableEq

inductive CredentialRevocation
  | revoked
  | notFound
  | lastCredential
  deriving DecidableEq

inductive RoleChangeResult
  | updated
  | unchanged
  | notFound
  | forbidden
  deriving DecidableEq

inductive RemovedTable
  | challenges
  | bootstraps
  | sessions
  deriving DecidableEq

/-- The transactions, with the identifiers that they generate. -/
inductive AdminRequest
  | createChallenge (id : Uuid) (input : NewChallenge)
  | consumeChallenge (id : Uuid) (purpose : ChallengePurpose) (userId bootstrapId : Option Uuid)
  | completeBootstrap (bootstrapId : Uuid) (secretHash : List UInt8) (credentialId : Uuid)
      (credential : NewCredential) (sessionId : Uuid) (session : NewSession)
  | addCredential (userId credentialId : Uuid) (credential : NewCredential)
  | completeAuthentication (credentialId : Uuid) (expectedCounter nextCounter : UInt32)
      (deviceType : DeviceType) (backedUp : Bool) (sessionId : Uuid) (session : NewSession)
  | activeSession (tokenHash : List UInt8)
  | revokeSession (userId sessionId : Uuid)
  | revokeOtherSessions (userId currentSessionId : Uuid)
  | revokeSelectedSession (userId targetSessionId currentSessionId : Uuid)
  | renameCredential (userId credentialId : Uuid) (name : List Char)
  | revokeCredential (userId credentialId currentSessionId : Uuid)
  | issueBootstrap (userId bootstrapId : Uuid) (secretHash : List UInt8) (expiresAt : ℤ)
  | setRole (targetId : Uuid) (role : AdminUserRole) (actorId : Uuid)
  | setBan (targetId : Uuid) (isBanned : Bool) (adminId : Uuid) (adminRole : AdminRole)
  | cleanUp (table : RemovedTable) (ids : List Uuid)
  deriving DecidableEq

inductive AdminOutcome
  | challenge
  | consumed (ceremonyState : Option (List UInt8))
  | opened (session : AdminSession)
  /-- The limits are tested before the use is stored. -/
  | accepted (session : AdminSession) (tested stored : ℤ)
  | noSession
  | added (added : Bool)
  | done
  | selected (revoked : Bool)
  | renamed (renamed : Bool)
  | revocation (result : CredentialRevocation)
  | issued (issued : Bool)
  | role (result : RoleChangeResult)
  | ban (result : BanResult)
  | cleaned
  deriving DecidableEq

inductive AdminWrite
  | insertCredential (row : AdminCredential)
  | insertSession (row : AdminSession)
  | insertBootstrap (row : AdminBootstrap)
  | insertChallenge (row : AdminChallenge)
  | useCredential (id : Uuid) (counter : UInt32) (deviceType : DeviceType) (backedUp : Bool)
      (at_ : ℤ)
  | renameCredential (id : Uuid) (name : List Char)
  | revokeCredential (id : Uuid) (at_ : ℤ)
  | touchSession (id : Uuid) (at_ : ℤ)
  | revokeSession (id : Uuid) (at_ : ℤ)
  | consumeBootstrap (id : Uuid) (at_ : ℤ)
  | consumeChallenge (id : Uuid) (at_ : ℤ)
  | setRole (userId : Uuid) (role : AdminUserRole)
  | setBan (userId : Uuid) (isBanned : Bool)
  | deleteSession (id : Uuid)
  | deleteBootstrap (id : Uuid)
  | deleteChallenge (id : Uuid)
  deriving DecidableEq

/-- How far a transaction has come; a phase keeps what its statements read. -/
inductive AdminPhase
  | begun
  | challengeSeen (row : AdminChallenge)
  | bootstrapSeen (row : AdminBootstrap)
  | bootstrapTaken (userId : Uuid)
  | bootstrapRegistered (userId : Uuid)
  | accountSeen
  | accountLocked
  | credentialSeen (row : AdminCredential)
  | credentialLocked (row : AdminCredential)
  | credentialUsed (row : AdminCredential)
  | sessionSeen (row : AdminSession) (at_ : ℤ)
  | counting (ids : List Uuid)
  | credentialRevoked
  | revoking
  | consuming
  | actorSeen
  | actorLocked
  | targetSeen
  | targetLocked (row : UserAccount)
  | roleChanged
  | demotedSessions
  | demotedCredentials
  | demotedBootstraps
  | demotedChallenges
  | cleaning
  /-- Nothing is left but the commit. -/
  | decided (result : AdminOutcome)
  deriving DecidableEq

section Rows

variable (now : ℤ)

def UserAccount.isAdministrator (a : UserAccount) : Bool :=
  (a.role = .admin || a.role = .superadmin) && a.deletedAt.isNone && !a.isBanned

theorem UserAccount.userId_ban (isBanned : Bool) (a : UserAccount) :
    (a.ban isBanned).userId = a.userId := rfl

def UserAccount.withRole (role : AdminUserRole) (a : UserAccount) : UserAccount := { a with role }

def NewCredential.row (c : NewCredential) (id userId : Uuid) : AdminCredential :=
  { c with id, userId, lastUsedAt := none, revokedAt := none }

def NewSession.row (s : NewSession) (id userId credentialId : Uuid) : AdminSession :=
  { s with id, userId, credentialId, lastSeenAt := now, revokedAt := none, createdAt := now }

def NewChallenge.row (c : NewChallenge) (id : Uuid) : AdminChallenge :=
  { c with id, consumedAt := none }

def AdminCredential.use (counter : UInt32) (deviceType : DeviceType) (backedUp : Bool)
    (k : AdminCredential) : AdminCredential :=
  { k with counter, deviceType, backedUp, lastUsedAt := some now }

def AdminCredential.rename (name : List Char) (k : AdminCredential) : AdminCredential :=
  { k with name }

def AdminCredential.revoke (k : AdminCredential) : AdminCredential := { k with revokedAt := some now }

/-- A session that is revoked twice keeps its first instant. -/
def AdminSession.revoke (s : AdminSession) : AdminSession :=
  { s with revokedAt := some (s.revokedAt.getD now) }

/-- A used session is idle until the limit of its age at most. -/
def AdminSession.touch (idleTtl : ℤ) (s : AdminSession) : AdminSession :=
  { s with lastSeenAt := now, idleExpiresAt := min s.absoluteExpiresAt (now + idleTtl) }

/-- `admin_session_check` and `admin_session_check1`. -/
def AdminSession.checked (s : AdminSession) : Bool :=
  s.createdAt < s.idleExpiresAt && s.idleExpiresAt ≤ s.absoluteExpiresAt

def AdminSession.isLive (s : AdminSession) : Bool :=
  s.revokedAt.isNone && now < s.idleExpiresAt && now < s.absoluteExpiresAt

def AdminBootstrap.consume (b : AdminBootstrap) : AdminBootstrap := { b with consumedAt := some now }

def AdminBootstrap.isOpen (secretHash : List UInt8) (b : AdminBootstrap) : Bool :=
  b.secretHash = secretHash && b.consumedAt.isNone && now < b.expiresAt

def AdminChallenge.consume (c : AdminChallenge) : AdminChallenge := { c with consumedAt := some now }

def AdminChallenge.isOpen (purpose : ChallengePurpose) (userId bootstrapId : Option Uuid)
    (c : AdminChallenge) : Bool :=
  c.purpose = purpose && c.consumedAt.isNone && now < c.expiresAt && c.userId = userId &&
    c.bootstrapId = bootstrapId

end Rows

namespace AdminDb

variable (db : AdminDb) (now : ℤ)

def isAdministrator (userId : Uuid) : Bool :=
  (db.accounts.find? userId).any UserAccount.isAdministrator

def hasAccount (userId : Uuid) : Bool := (db.accounts.find? userId).isSome

/-- The joins of `active_session`: the credential is the user's and active, the
account an administrator's. -/
def backs (s : AdminSession) : Bool :=
  (db.credentials.find? s.credentialId).any (fun k ↦ k.userId = s.userId && k.revokedAt.isNone) &&
    db.isAdministrator s.userId

def activeSessionOf (tokenHash : List UInt8) : Option AdminSession :=
  db.sessions.rows.find? fun s ↦ s.tokenHash = tokenHash && s.isLive now && db.backs s

def openSessions (userId : Uuid) : List AdminSession :=
  db.sessions.select fun s ↦ s.userId = userId && s.revokedAt.isNone

def openCredentials (userId : Uuid) : List AdminCredential :=
  db.credentials.select fun k ↦ k.userId = userId && k.revokedAt.isNone

def openBootstraps (userId : Uuid) : List AdminBootstrap :=
  db.bootstraps.select fun b ↦ b.userId = userId && b.consumedAt.isNone

def openChallenges (userId : Uuid) : List AdminChallenge :=
  db.challenges.select fun c ↦ c.userId = some userId && c.consumedAt.isNone

variable (idleTtl : ℤ)

/-- One write, which fails when it violates a constraint. -/
def write : AdminWrite → Option AdminDb
  | .insertCredential k =>
      if db.hasAccount k.userId && db.credentials.rows.all fun x ↦ x.credentialId ≠ k.credentialId then
        (db.credentials.insert? k).map fun credentials ↦ { db with credentials }
      else none
  | .insertSession s =>
      if db.hasAccount s.userId && (db.credentials.find? s.credentialId).isSome && s.checked &&
          db.sessions.rows.all fun x ↦ x.tokenHash ≠ s.tokenHash then
        (db.sessions.insert? s).map fun sessions ↦ { db with sessions }
      else none
  | .insertBootstrap b =>
      if db.hasAccount b.userId && (db.openBootstraps b.userId).isEmpty then
        (db.bootstraps.insert? b).map fun bootstraps ↦ { db with bootstraps }
      else none
  | .insertChallenge c =>
      if c.userId.all db.hasAccount && c.bootstrapId.all fun id ↦ (db.bootstraps.find? id).isSome then
        (db.challenges.insert? c).map fun challenges ↦ { db with challenges }
      else none
  | .useCredential id counter deviceType backedUp at_ =>
      some { db with
        credentials := db.credentials.modify (fun k ↦ k.id = id)
          (AdminCredential.use at_ counter deviceType backedUp) fun _ ↦ rfl }
  | .renameCredential id name =>
      some { db with
        credentials := db.credentials.modify (fun k ↦ k.id = id) (AdminCredential.rename name)
          fun _ ↦ rfl }
  | .revokeCredential id at_ =>
      some { db with
        credentials := db.credentials.modify (fun k ↦ k.id = id) (AdminCredential.revoke at_)
          fun _ ↦ rfl }
  | .touchSession id at_ =>
      if (db.sessions.find? id).all fun s ↦ (s.touch at_ idleTtl).checked then
        some { db with
          sessions := db.sessions.modify (fun s ↦ s.id = id) (AdminSession.touch at_ idleTtl)
            fun _ ↦ rfl }
      else none
  | .revokeSession id at_ =>
      some { db with
        sessions := db.sessions.modify (fun s ↦ s.id = id) (AdminSession.revoke at_) fun _ ↦ rfl }
  | .consumeBootstrap id at_ =>
      some { db with
        bootstraps := db.bootstraps.modify (fun b ↦ b.id = id) (AdminBootstrap.consume at_)
          fun _ ↦ rfl }
  | .consumeChallenge id at_ =>
      some { db with
        challenges := db.challenges.modify (fun c ↦ c.id = id) (AdminChallenge.consume at_)
          fun _ ↦ rfl }
  | .setRole userId role =>
      some { db with
        accounts := db.accounts.modify (fun a ↦ a.userId = userId) (UserAccount.withRole role)
          fun _ ↦ rfl }
  | .setBan userId isBanned =>
      some { db with
        accounts := db.accounts.modify (fun a ↦ a.userId = userId) (UserAccount.ban isBanned)
          (UserAccount.userId_ban isBanned) }
  | .deleteSession id => some { db with sessions := db.sessions.delete fun s ↦ s.id = id }
  | .deleteBootstrap id => some { db with bootstraps := db.bootstraps.delete fun b ↦ b.id = id }
  | .deleteChallenge id => some { db with challenges := db.challenges.delete fun c ↦ c.id = id }

end AdminDb

abbrev AdminMove := Move AdminRow AdminWrite AdminPhase AdminOutcome

abbrev AdminLock := RowLock AdminRow

section Statements

def keyShare (row : AdminRow) : AdminLock := ⟨row, .keyShare⟩

def noKeyUpdate (row : AdminRow) : AdminLock := ⟨row, .noKeyUpdate⟩

def forUpdate (row : AdminRow) : AdminLock := ⟨row, .update⟩

def UserAccount.maySetRole (a : UserAccount) : Bool :=
  a.role = .superadmin && a.deletedAt.isNone && !a.isBanned

def UserAccount.forbidsRole (a : UserAccount) (role : AdminUserRole) : Bool :=
  a.role = .superadmin || role = .superadmin || (role = .admin && a.isBanned) ||
    (role ≠ .user && a.isReviewAccount)

def UserAccount.forbidsBan (a : UserAccount) (targetId adminId : Uuid) (adminRole : AdminRole) : Bool :=
  targetId = adminId || a.role = .superadmin || (adminRole = .admin && a.role ≠ .user)

def RemovedTable.row : RemovedTable → Uuid → AdminRow
  | .challenges => .challenge
  | .bootstraps => .bootstrap
  | .sessions => .session

def AdminRow.delete : AdminRow → List AdminWrite
  | .challenge id => [.deleteChallenge id]
  | .bootstrap id => [.deleteBootstrap id]
  | .session id => [.deleteSession id]
  | _ => []

/-- Whether a retention statement may remove the row. -/
def RemovedTable.isDue (db : AdminDb) (now : ℤ) : RemovedTable → Uuid → Bool
  | .challenges, id =>
      (db.challenges.find? id).any fun c ↦ c.consumedAt.isSome || c.expiresAt ≤ now
  | .bootstraps, id =>
      (db.bootstraps.find? id).any fun b ↦ b.consumedAt.isSome || b.expiresAt ≤ now
  | .sessions, id =>
      (db.sessions.find? id).any fun s ↦
        s.absoluteExpiresAt ≤ now || s.revokedAt.any fun at_ ↦ at_ ≤ now - hours 24

namespace AdminDb

variable (db : AdminDb) (now : ℤ)

/-- `SELECT … FROM user_account … FOR UPDATE` of an administrator. -/
def selectAdministrator (userId : Uuid) (refusal : AdminOutcome) : AdminMove :=
  if db.isAdministrator userId then .scan [forUpdate (.account userId)] [] .accountSeen
  else .commit refusal

/-- `insert_credential`; the foreign key locks the account. -/
def insertCredential (userId id : Uuid) (credential : NewCredential) (phase : AdminPhase) : AdminMove :=
  .scan [keyShare (.account userId)] [.insertCredential (credential.row id userId)] phase

/-- `insert_session`; the foreign keys lock the account and the credential. -/
def insertSession (userId credentialId id : Uuid) (session : NewSession) : AdminMove :=
  .scan [keyShare (.account userId), keyShare (.credential credentialId)]
    [.insertSession (session.row now id userId credentialId)]
    (.decided (.opened (session.row now id userId credentialId)))

def createChallengeStatement (id : Uuid) (input : NewChallenge) : AdminPhase → AdminMove
  | .begun =>
      .scan (input.userId.toList.map (fun u ↦ keyShare (.account u)) ++
        input.bootstrapId.toList.map fun b ↦ keyShare (.bootstrap b))
        [.insertChallenge (input.row id)] (.decided .challenge)
  | .decided result => .commit result
  | _ => .rollback

def consumeChallengeStatement (id : Uuid) (purpose : ChallengePurpose)
    (userId bootstrapId : Option Uuid) : AdminPhase → AdminMove
  | .begun =>
      match (db.challenges.find? id).filter (AdminChallenge.isOpen now purpose userId bootstrapId) with
      | none => .commit (.consumed none)
      | some row => .scan [noKeyUpdate (.challenge id)] [] (.challengeSeen row)
  | .decided result => .commit result
  | _ => .rollback

def completeBootstrapStatement (bootstrapId : Uuid) (secretHash : List UInt8) (credentialId : Uuid)
    (credential : NewCredential) (sessionId : Uuid) (session : NewSession) : AdminPhase → AdminMove
  | .begun =>
      match (db.bootstraps.find? bootstrapId).filter
          fun b ↦ b.isOpen now secretHash && db.isAdministrator b.userId with
      | none => .commit .noSession
      | some row => .scan [noKeyUpdate (.bootstrap bootstrapId)] [] (.bootstrapSeen row)
  | .bootstrapTaken userId =>
      insertCredential userId credentialId credential (.bootstrapRegistered userId)
  | .bootstrapRegistered userId => insertSession now userId credentialId sessionId session
  | .decided result => .commit result
  | _ => .rollback

def addCredentialStatement (userId credentialId : Uuid) (credential : NewCredential) :
    AdminPhase → AdminMove
  | .begun => db.selectAdministrator userId (.added false)
  | .accountLocked => insertCredential userId credentialId credential (.decided (.added true))
  | .decided result => .commit result
  | _ => .rollback

def completeAuthenticationStatement (credentialId : Uuid) (expectedCounter nextCounter : UInt32)
    (deviceType : DeviceType) (backedUp : Bool) (sessionId : Uuid) (session : NewSession) :
    AdminPhase → AdminMove
  | .begun =>
      match (db.credentials.find? credentialId).filter
          fun k ↦ k.revokedAt.isNone && db.isAdministrator k.userId with
      | none => .commit .noSession
      | some row => .scan [forUpdate (.credential credentialId)] [] (.credentialSeen row)
  | .credentialLocked row =>
      if row.counter ≠ expectedCounter then .commit .noSession
      else
        .scan [noKeyUpdate (.credential credentialId)]
          [.useCredential credentialId nextCounter deviceType backedUp now] (.credentialUsed row)
  | .credentialUsed row => insertSession now row.userId credentialId sessionId session
  | .decided result => .commit result
  | _ => .rollback

def activeSessionStatement (tokenHash : List UInt8) : AdminPhase → AdminMove
  | .begun =>
      match db.activeSessionOf now tokenHash with
      | none => .commit .noSession
      | some row => .scan [noKeyUpdate (.session row.id)] [] (.sessionSeen row now)
  | .decided result => .commit result
  | _ => .rollback

/-- An update of one session of the user, tested by `condition`. -/
def updateSessionStatement (sessionId : Uuid) (condition : AdminSession → Bool)
    (refusal : AdminOutcome) : AdminPhase → AdminMove
  | .begun =>
      match (db.sessions.find? sessionId).filter condition with
      | none => .commit refusal
      | some row => .scan [noKeyUpdate (.session sessionId)] [] (.sessionSeen row now)
  | .decided result => .commit result
  | _ => .rollback

def revokeSessionStatement (userId sessionId : Uuid) : AdminPhase → AdminMove :=
  updateSessionStatement db now sessionId (fun s ↦ s.userId = userId) .done

def revokeSelectedSessionStatement (userId targetSessionId currentSessionId : Uuid) :
    AdminPhase → AdminMove :=
  updateSessionStatement db now targetSessionId
    (fun s ↦ s.userId = userId && s.id ≠ currentSessionId && s.isLive now) (.selected false)

/-- The locks of an update that revokes all sessions of the user but one. -/
def otherSessions (userId currentSessionId : Uuid) : List AdminLock :=
  ((db.openSessions userId).filter fun s ↦ s.id ≠ currentSessionId).map
    fun s ↦ noKeyUpdate (.session s.id)

def revokeOtherSessionsStatement (userId currentSessionId : Uuid) : AdminPhase → AdminMove
  | .begun => .scan (db.otherSessions userId currentSessionId) [] .revoking
  | .revoking => .commit .done
  | _ => .rollback

def renameCredentialStatement (userId credentialId : Uuid) : AdminPhase → AdminMove
  | .begun =>
      match (db.credentials.find? credentialId).filter
          fun k ↦ k.userId = userId && k.revokedAt.isNone with
      | none => .commit (.renamed false)
      | some row => .scan [noKeyUpdate (.credential credentialId)] [] (.credentialSeen row)
  | .decided result => .commit result
  | _ => .rollback

/-- The credential of a row while it is active. -/
def openCredential : AdminRow → List Uuid
  | .credential id =>
      if (db.credentials.find? id).any fun k ↦ k.revokedAt.isNone then [id] else []
  | _ => []

def revokeCredentialStatement (userId credentialId currentSessionId : Uuid) : AdminPhase → AdminMove
  | .begun =>
      .scan ((((db.openCredentials userId).map AdminCredential.id).insertionSort (· ≤ ·)).map
        fun id ↦ forUpdate (.credential id)) [] (.counting [])
  | .counting ids =>
      if credentialId ∉ ids then .commit (.revocation .notFound)
      else if ids.length ≤ 1 then .commit (.revocation .lastCredential)
      else
        .scan [noKeyUpdate (.credential credentialId)] [.revokeCredential credentialId now]
          .credentialRevoked
  | .credentialRevoked => .scan (db.otherSessions userId currentSessionId) [] .revoking
  | .revoking => .commit (.revocation .revoked)
  | _ => .rollback

def issueBootstrapStatement (userId bootstrapId : Uuid) (secretHash : List UInt8) (expiresAt : ℤ) :
    AdminPhase → AdminMove
  | .begun => db.selectAdministrator userId (.issued false)
  | .accountLocked =>
      .scan ((db.openBootstraps userId).map fun b ↦ noKeyUpdate (.bootstrap b.id)) [] .consuming
  | .consuming =>
      .scan [keyShare (.account userId)]
        [.insertBootstrap ⟨bootstrapId, userId, secretHash, expiresAt, none⟩]
        (.decided (.issued true))
  | .decided result => .commit result
  | _ => .rollback

def findUndeleted (userId : Uuid) : Option UserAccount :=
  (db.accounts.find? userId).filter fun a ↦ a.deletedAt.isNone

/-- `set_role` and the four updates of `revoke_admin_access`. -/
def setRoleStatement (targetId : Uuid) (role : AdminUserRole) (actorId : Uuid) :
    AdminPhase → AdminMove
  | .begun =>
      if (db.accounts.find? actorId).any UserAccount.maySetRole then
        .scan [forUpdate (.account actorId)] [] .actorSeen
      else .commit (.role .forbidden)
  | .actorLocked =>
      if targetId = actorId then .commit (.role .forbidden)
      else if (db.findUndeleted targetId).isSome then
        .scan [forUpdate (.account targetId)] [] .targetSeen
      else .commit (.role .notFound)
  | .targetLocked row =>
      if row.forbidsRole role then .commit (.role .forbidden)
      else if row.role = role then .commit (.role .unchanged)
      else .scan [noKeyUpdate (.account targetId)] [.setRole targetId role] .roleChanged
  | .roleChanged =>
      if role = .user then
        .scan ((db.openSessions targetId).map fun s ↦ noKeyUpdate (.session s.id)) [] .demotedSessions
      else .commit (.role .updated)
  | .demotedSessions =>
      .scan ((db.openCredentials targetId).map fun k ↦ noKeyUpdate (.credential k.id)) []
        .demotedCredentials
  | .demotedCredentials =>
      .scan ((db.openBootstraps targetId).map fun b ↦ noKeyUpdate (.bootstrap b.id)) []
        .demotedBootstraps
  | .demotedBootstraps =>
      .scan ((db.openChallenges targetId).map fun c ↦ noKeyUpdate (.challenge c.id)) []
        .demotedChallenges
  | .demotedChallenges => .commit (.role .updated)
  | .decided result => .commit result
  | _ => .rollback

def setBanStatement (targetId : Uuid) (isBanned : Bool) (adminId : Uuid) (adminRole : AdminRole) :
    AdminPhase → AdminMove
  | .begun =>
      if (db.findUndeleted targetId).isSome then .scan [forUpdate (.account targetId)] [] .targetSeen
      else .commit (.ban .notFound)
  | .targetLocked row =>
      if row.forbidsBan targetId adminId adminRole then .commit (.ban .forbidden)
      else
        .scan [noKeyUpdate (.account targetId)] [.setBan targetId isBanned] (.decided (.ban .updated))
  | .decided result => .commit result
  | _ => .rollback

def cleanUpStatement (table : RemovedTable) (ids : List Uuid) : AdminPhase → AdminMove
  | .begun =>
      if ids.all (table.isDue db now) then
        .scan (ids.map fun id ↦ forUpdate (table.row id)) [] .cleaning
      else .rollback
  | .cleaning => .commit .cleaned
  | _ => .rollback

def statement : AdminRequest → AdminPhase → AdminMove
  | .createChallenge id input => createChallengeStatement id input
  | .consumeChallenge id purpose userId bootstrapId =>
      consumeChallengeStatement db now id purpose userId bootstrapId
  | .completeBootstrap bootstrapId secretHash credentialId credential sessionId session =>
      completeBootstrapStatement db now bootstrapId secretHash credentialId credential sessionId session
  | .addCredential userId credentialId credential =>
      addCredentialStatement db userId credentialId credential
  | .completeAuthentication credentialId expectedCounter nextCounter deviceType backedUp sessionId
      session =>
      completeAuthenticationStatement db now credentialId expectedCounter nextCounter deviceType
        backedUp sessionId session
  | .activeSession tokenHash => activeSessionStatement db now tokenHash
  | .revokeSession userId sessionId => revokeSessionStatement db now userId sessionId
  | .revokeOtherSessions userId currentSessionId =>
      revokeOtherSessionsStatement db userId currentSessionId
  | .revokeSelectedSession userId targetSessionId currentSessionId =>
      revokeSelectedSessionStatement db now userId targetSessionId currentSessionId
  | .renameCredential userId credentialId _ => renameCredentialStatement db userId credentialId
  | .revokeCredential userId credentialId currentSessionId =>
      revokeCredentialStatement db now userId credentialId currentSessionId
  | .issueBootstrap userId bootstrapId secretHash expiresAt =>
      issueBootstrapStatement db userId bootstrapId secretHash expiresAt
  | .setRole targetId role actorId => setRoleStatement db targetId role actorId
  | .setBan targetId isBanned adminId adminRole =>
      setBanStatement db targetId isBanned adminId adminRole
  | .cleanUp table ids => cleanUpStatement db now table ids

/-- The row under its lock: still the one of the snapshot, or one that another
transaction has changed and that passes the test again. -/
def passes {ρ : Type} [DecidableEq ρ] (current : Option ρ) (seen : ρ) (condition : ρ → Bool) : Bool :=
  current.any fun row ↦ row = seen || condition row

def consumeChallengeLock (id : Uuid) (purpose : ChallengePurpose) (userId bootstrapId : Option Uuid) :
    AdminPhase → AdminPhase × List AdminWrite
  | .challengeSeen row =>
      if passes (db.challenges.find? id) row (AdminChallenge.isOpen now purpose userId bootstrapId) then
        (.decided (.consumed (some row.ceremonyState)), [.consumeChallenge id now])
      else (.decided (.consumed none), [])
  | phase => (phase, [])

def completeBootstrapLock (bootstrapId : Uuid) (secretHash : List UInt8) :
    AdminPhase → AdminPhase × List AdminWrite
  | .bootstrapSeen row =>
      match (db.bootstraps.find? bootstrapId).filter fun b ↦ b = row || b.isOpen now secretHash with
      | some current => (.bootstrapTaken current.userId, [.consumeBootstrap bootstrapId now])
      | none => (.decided .noSession, [])
  | phase => (phase, [])

/-- `FOR UPDATE` of an administrator's account, under the lock. -/
def lockAdministrator (userId : Uuid) (refusal : AdminOutcome) :
    AdminPhase → AdminPhase × List AdminWrite
  | .accountSeen => (if db.isAdministrator userId then .accountLocked else .decided refusal, [])
  | phase => (phase, [])

def completeAuthenticationLock (credentialId : Uuid) : AdminPhase → AdminPhase × List AdminWrite
  | .credentialSeen _ =>
      match (db.credentials.find? credentialId).filter fun k ↦ k.revokedAt.isNone with
      | some current => (.credentialLocked current, [])
      | none => (.decided .noSession, [])
  | phase => (phase, [])

/-- The session is accepted as the statement has found it, or as it finds it
under its lock. -/
def activeSessionLock (tokenHash : List UInt8) : AdminPhase → AdminPhase × List AdminWrite
  | .sessionSeen row at_ =>
      match db.sessions.find? row.id with
      | none => (.decided .noSession, [])
      | some current =>
          if current = row then (.decided (.accepted current at_ now), [.touchSession row.id now])
          else if current.tokenHash = tokenHash && current.isLive now then
            (.decided (.accepted current now now), [.touchSession row.id now])
          else (.decided .noSession, [])
  | phase => (phase, [])

def updateSessionLock (sessionId : Uuid) (condition : AdminSession → Bool)
    (result refusal : AdminOutcome) : AdminPhase → AdminPhase × List AdminWrite
  | .sessionSeen row _ =>
      if passes (db.sessions.find? sessionId) row condition then
        (.decided result, [.revokeSession sessionId now])
      else (.decided refusal, [])
  | phase => (phase, [])

def renameCredentialLock (userId credentialId : Uuid) (name : List Char) :
    AdminPhase → AdminPhase × List AdminWrite
  | .credentialSeen row =>
      if passes (db.credentials.find? credentialId) row
          (fun k ↦ k.userId = userId && k.revokedAt.isNone) then
        (.decided (.renamed true), [.renameCredential credentialId name])
      else (.decided (.renamed false), [])
  | phase => (phase, [])

/-- What an update that ends every open row does with a row under its lock. -/
def endRow : AdminRow → List AdminWrite
  | .session id =>
      if (db.sessions.find? id).any fun s ↦ s.revokedAt.isNone then [.revokeSession id now] else []
  | .credential id =>
      if (db.credentials.find? id).any fun k ↦ k.revokedAt.isNone then [.revokeCredential id now]
      else []
  | .bootstrap id =>
      if (db.bootstraps.find? id).any fun b ↦ b.consumedAt.isNone then [.consumeBootstrap id now]
      else []
  | .challenge id =>
      if (db.challenges.find? id).any fun c ↦ c.consumedAt.isNone then [.consumeChallenge id now]
      else []
  | .account _ => []

def revokeOtherSessionsLock (row : AdminRow) : AdminPhase → AdminPhase × List AdminWrite
  | .revoking => (.revoking, db.endRow now row)
  | phase => (phase, [])

def revokeCredentialLock (row : AdminRow) : AdminPhase → AdminPhase × List AdminWrite
  | .counting ids => (.counting (ids ++ db.openCredential row), [])
  | .revoking => (.revoking, db.endRow now row)
  | phase => (phase, [])

def issueBootstrapLock (userId : Uuid) (row : AdminRow) : AdminPhase → AdminPhase × List AdminWrite
  | .consuming => (.consuming, db.endRow now row)
  | phase => db.lockAdministrator userId (.issued false) phase

def setRoleLock (targetId actorId : Uuid) (row : AdminRow) : AdminPhase → AdminPhase × List AdminWrite
  | .actorSeen =>
      (if (db.accounts.find? actorId).any UserAccount.maySetRole then .actorLocked
        else .decided (.role .forbidden), [])
  | .targetSeen =>
      ((db.findUndeleted targetId).elim (.decided (.role .notFound)) .targetLocked, [])
  | .demotedSessions => (.demotedSessions, db.endRow now row)
  | .demotedCredentials => (.demotedCredentials, db.endRow now row)
  | .demotedBootstraps => (.demotedBootstraps, db.endRow now row)
  | .demotedChallenges => (.demotedChallenges, db.endRow now row)
  | phase => (phase, [])

def setBanLock (targetId : Uuid) : AdminPhase → AdminPhase × List AdminWrite
  | .targetSeen =>
      ((db.findUndeleted targetId).elim (.decided (.ban .notFound)) .targetLocked, [])
  | phase => (phase, [])

def cleanUpLock (row : AdminRow) : AdminPhase → AdminPhase × List AdminWrite
  | .cleaning => (.cleaning, row.delete)
  | phase => (phase, [])

/-- What a statement does with a row under its lock. -/
def lock (row : AdminRow) : AdminRequest → AdminPhase → AdminPhase × List AdminWrite
  | .createChallenge _ _, phase => (phase, [])
  | .consumeChallenge id purpose userId bootstrapId, phase =>
      db.consumeChallengeLock now id purpose userId bootstrapId phase
  | .completeBootstrap bootstrapId secretHash _ _ _ _, phase =>
      db.completeBootstrapLock now bootstrapId secretHash phase
  | .addCredential userId _ _, phase => db.lockAdministrator userId (.added false) phase
  | .completeAuthentication credentialId _ _ _ _ _ _, phase =>
      db.completeAuthenticationLock credentialId phase
  | .activeSession tokenHash, phase => db.activeSessionLock now tokenHash phase
  | .revokeSession userId sessionId, phase =>
      db.updateSessionLock now sessionId (fun s ↦ s.userId = userId) .done .done phase
  | .revokeOtherSessions _ _, phase => db.revokeOtherSessionsLock now row phase
  | .revokeSelectedSession userId targetSessionId currentSessionId, phase =>
      db.updateSessionLock now targetSessionId
        (fun s ↦ s.userId = userId && s.id ≠ currentSessionId && s.isLive now) (.selected true)
        (.selected false) phase
  | .renameCredential userId credentialId name, phase =>
      db.renameCredentialLock userId credentialId name phase
  | .revokeCredential _ _ _, phase => db.revokeCredentialLock now row phase
  | .issueBootstrap userId _ _ _, phase => db.issueBootstrapLock now userId row phase
  | .setRole targetId _ actorId, phase => db.setRoleLock now targetId actorId row phase
  | .setBan targetId _ _ _, phase => db.setBanLock targetId phase
  | .cleanUp _ _, phase => cleanUpLock row phase

end AdminDb

end Statements

def AdminRequest.creates : AdminRequest → List AdminRow
  | .createChallenge id _ => [.challenge id]
  | .completeBootstrap _ _ credentialId _ sessionId _ => [.credential credentialId, .session sessionId]
  | .addCredential _ credentialId _ => [.credential credentialId]
  | .completeAuthentication _ _ _ _ _ sessionId _ => [.session sessionId]
  | .issueBootstrap _ bootstrapId _ _ => [.bootstrap bootstrapId]
  | _ => []

abbrev AdminProtocol :=
  RowProtocol AdminDb AdminRow AdminWrite AdminRequest AdminPhase AdminOutcome ℤ

abbrev AdminTransaction := RowTransaction AdminRow AdminWrite AdminRequest AdminPhase

abbrev AdminCommitted := Committed AdminDb AdminRow AdminRequest AdminOutcome

abbrev AdminTraffic := RowTraffic AdminDb AdminRow AdminWrite AdminRequest AdminPhase AdminOutcome

/-- Administrator access with an idle limit of the sessions. -/
def adminAccess (idleTtl : ℤ) : AdminProtocol where
  start := .begun
  creates := AdminRequest.creates
  statement := fun db q phase now ↦ db.statement now q phase
  lock := fun db q phase lock now ↦ db.lock now lock.row q phase
  write := fun db w ↦ db.write idleTtl w

end Histae.Identity
