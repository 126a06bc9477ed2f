import Mathlib
import Histae.Identity.Tokens
import Histae.Relational.Table
import Histae.Shared.Time

/-!
# Mobile sessions

A session is a family of refresh tokens; rotation consumes a token and
inserts its child. Every transaction below locks the account before it reads
a token for the second time, and what it read before (the owner and the
digest of a token) never changes, so a transaction is one step at the moment
it holds the lock. `clock_timestamp()` goes on while a transaction runs: the
readings of one transaction are a `Readings`.

Devices, web billing sessions and notifications, which the transactions also
write, are not part of a session's state.
-/

namespace Histae.Identity

open Relational

inductive RevocationReason
  | replay
  | logout
  | logoutAll
  | userRevoked
  | banned
  deriving DecidableEq

/-- `revoked_at` and `revocation_reason` are null together. -/
structure Family where
  id : Uuid
  userId : Uuid
  createdAt : ℤ
  lastRefreshedAt : ℤ
  expiresAt : ℤ
  revocation : Option (ℤ × RevocationReason)
  deriving DecidableEq

structure RefreshToken where
  id : Uuid
  userId : Uuid
  tokenHash : List Char
  jti : Uuid
  revoked : Bool
  expiresAt : ℤ
  createdAt : ℤ
  familyId : Uuid
  parentTokenId : Option Uuid
  rotatedAt : Option ℤ
  rotationRequestHash : Option (List Char)
  rotationResult : Option (List UInt8)
  rotation : rotatedAt = none ∨ revoked = true
  deriving DecidableEq

structure Account where
  userId : Uuid
  isBanned : Bool
  deleted : Bool
  deriving DecidableEq

structure Store where
  accounts : Table Account.userId
  families : Table Family.id
  tokens : Table RefreshToken.id

/-- The instants at which a transaction reads the token, the family and the
clock for what it writes or recovers. -/
structure Readings where
  token : ℤ
  family : ℤ
  write : ℤ
  deriving DecidableEq

inductive DatabaseError
  | queryFailed
  deriving DecidableEq

structure MobileSessionIdentity where
  userId : Uuid
  sessionId : Uuid
  deriving DecidableEq

inductive RotationOutcome
  | rotated (session : MobileSessionIdentity)
  | invalid
  | replayRevoked
  deriving DecidableEq

inductive RefreshRotation
  | outcome (result : RotationOutcome)
  | recovered (session : MobileSessionIdentity) (refreshToken : List Char)
  deriving DecidableEq

def RefreshRotation.intoOutcome : RefreshRotation → RotationOutcome
  | .outcome result => result
  | .recovered session _ => .rotated session

def RefreshToken.rotate (at_ : ℤ) (recovery : Option RefreshRecovery) (t : RefreshToken) :
    RefreshToken :=
  { t with
    revoked := true, rotatedAt := some at_
    rotationRequestHash := recovery.map RefreshRecovery.requestHash
    rotationResult := recovery.map RefreshRecovery.encryptedToken
    rotation := Or.inr rfl }

def RefreshToken.revoke (t : RefreshToken) : RefreshToken :=
  { t with revoked := true, rotationResult := none, rotation := Or.inr rfl }

def RefreshToken.eraseReceipt (t : RefreshToken) : RefreshToken := { t with rotationResult := none }

def RefreshToken.new (c : TokenCrypto) (userId sessionId : Uuid) (token : NewRefreshToken)
    (parent : Option Uuid) : RefreshToken where
  id := token.id
  userId := userId
  tokenHash := token.hash c
  jti := token.jti
  revoked := false
  expiresAt := token.expiresAt
  createdAt := token.createdAt
  familyId := sessionId
  parentTokenId := parent
  rotatedAt := none
  rotationRequestHash := none
  rotationResult := none
  rotation := Or.inl rfl

namespace Store

variable (c : TokenCrypto) (s : Store)

def lockActiveAccount (userId : Uuid) : Bool :=
  (s.accounts.find? userId).any fun a ↦ !a.deleted && !a.isBanned

def activeFamily (now : ℤ) (userId sessionId : Uuid) : Bool :=
  (s.families.find? sessionId).any fun f ↦
    f.userId = userId && f.revocation.isNone && decide (now < f.expiresAt)

def lockToken (now : ℤ) (jti : Uuid) (suppliedHash : List Char) (ownerId : Option Uuid)
    (recoveryHash : Option (List Char)) : Option RefreshToken :=
  match s.tokens.rows.find? fun t ↦ t.jti = jti with
  | none => none
  | some candidate =>
      if ownerId.any (· ≠ candidate.userId) || candidate.tokenHash ≠ suppliedHash then none
      else if !s.lockActiveAccount candidate.userId then none
      else if now < candidate.expiresAt ||
          recoveryHash.isSome && candidate.rotationRequestHash = recoveryHash &&
            candidate.revoked && candidate.rotatedAt.any (now - days 7 < ·) then
        some candidate
      else none

/-- The insertion fails on a taken id or jti, on a second unrevoked token of
the family and on a second child of the parent. -/
def insertToken (userId sessionId : Uuid) (token : NewRefreshToken) (parent : Option Uuid) :
    Except DatabaseError Store :=
  let row := RefreshToken.new c userId sessionId token parent
  if s.tokens.rows.any fun t ↦ t.jti = row.jti || t.familyId = sessionId && !t.revoked ||
      parent.isSome && t.parentTokenId = parent then
    .error .queryFailed
  else
    match s.tokens.insert? row with
    | none => .error .queryFailed
    | some tokens => .ok { s with tokens := tokens }

def insertSession (userId sessionId : Uuid) (token : NewRefreshToken) :
    Except DatabaseError (MobileSessionIdentity × Store) :=
  match s.families.insert? ⟨sessionId, userId, token.createdAt, token.createdAt, token.expiresAt,
    none⟩ with
  | none => .error .queryFailed
  | some families => do
      let s' ← insertToken c { s with families := families } userId sessionId token none
      return (⟨userId, sessionId⟩, s')

def revokes (userId : Uuid) (sessionId : Option Uuid) (f : Family) : Bool :=
  f.userId = userId && f.revocation.isNone && sessionId.all (· = f.id)

def revokesToken (userId : Uuid) (sessionId : Option Uuid) (t : RefreshToken) : Bool :=
  t.userId = userId && (!t.revoked || t.rotationResult.isSome) && sessionId.all (· = t.familyId)

def revokeFamilies (now : ℤ) (userId : Uuid) (reason : RevocationReason)
    (sessionId : Option Uuid) : Store :=
  { s with
    families := s.families.modify (revokes userId sessionId)
      (fun f ↦ { f with revocation := some (now, reason) }) fun _ ↦ rfl
    tokens := s.tokens.modify (revokesToken userId sessionId) RefreshToken.revoke fun _ ↦ rfl }

def create (userId sessionId : Uuid) (token : NewRefreshToken) :
    Except DatabaseError (Option MobileSessionIdentity × Store) :=
  if !s.lockActiveAccount userId then .ok (none, s)
  else do
    let (session, s') ← insertSession c s userId sessionId token
    return (some session, s')

def logout (r : Readings) (userId sessionId jti : Uuid) (hash : List Char) : Bool × Store :=
  match s.lockToken r.token jti hash (some userId) none with
  | none => (false, s)
  | some token =>
      if token.familyId ≠ sessionId || !s.activeFamily r.family userId sessionId then (false, s)
      else (true, s.revokeFamilies r.write userId .logout (some sessionId))

/-- `revoke` of one session, or of all of them. -/
def revoke (r : Readings) (userId currentSessionId : Uuid) (targetId : Option Uuid) :
    Option ℕ × Store :=
  if !s.lockActiveAccount userId || !s.activeFamily r.family userId currentSessionId then (none, s)
  else if targetId.any fun target ↦ (s.families.find? target).all (·.userId ≠ userId) then
    (some 0, s)
  else
    (some (if targetId.isSome then 1 else s.families.count (revokes userId targetId)),
      s.revokeFamilies r.write userId (if targetId.isSome then .userRevoked else .logoutAll)
        targetId)

/-- The moderator's ban: `revoke_mobile_sessions` within the ban's transaction. -/
def ban (now : ℤ) (userId : Uuid) : Store :=
  { s.revokeFamilies now userId .banned none with
    accounts := s.accounts.modify (fun a ↦ a.userId = userId) (fun a ↦ { a with isBanned := true })
      fun _ ↦ rfl }

def unban (userId : Uuid) : Store :=
  { s with
    accounts := s.accounts.modify (fun a ↦ a.userId = userId)
      (fun a ↦ { a with isBanned := false }) fun _ ↦ rfl }

/-- The maintenance erases the receipts that are seven days old, a batch at a
time. -/
def eraseReceipts (now : ℤ) (batch : List Uuid) : Store :=
  { s with
    tokens := s.tokens.modify
      (fun t ↦ t.id ∈ batch && t.rotationResult.isSome && t.rotatedAt.any (· ≤ now - days 7))
      RefreshToken.eraseReceipt fun _ ↦ rfl }

/-- The row `recover_rotation` selects: the receipt and the child of a token. -/
def recoverable (now : ℤ) (parent : RefreshToken) : Option (List UInt8 × RefreshToken) :=
  match parent.rotationResult,
    s.tokens.rows.find? fun child ↦
      child.parentTokenId = some parent.id && child.familyId = parent.familyId &&
        !child.revoked && decide (now < child.expiresAt) with
  | some encrypted, some child =>
      if parent.rotatedAt.any (now - days 7 < ·) then some (encrypted, child) else none
  | _, _ => none

def recoverRotation (now : ℤ) (parent : RefreshToken) (recovery : RefreshRecovery) :
    Except DatabaseError RefreshRotation :=
  match s.recoverable now parent with
  | none => .ok (.outcome .invalid)
  | some (encrypted, child) =>
      match recovery.open c encrypted with
      | none => .error .queryFailed
      | some raw =>
          if parseRefreshToken c raw = some ⟨child.jti, child.tokenHash⟩ then
            .ok (.recovered ⟨parent.userId, parent.familyId⟩ raw)
          else .error .queryFailed

def rotateInner (r : Readings) (jti : Uuid) (hash : List Char) (next : NewRefreshToken)
    (recovery : Option RefreshRecovery) : Except DatabaseError (RefreshRotation × Store) :=
  let requestHash := recovery.map RefreshRecovery.requestHash
  match s.lockToken r.token jti hash none requestHash with
  | none => .ok (.outcome .invalid, s)
  | some token =>
      if !s.activeFamily r.family token.userId token.familyId then .ok (.outcome .invalid, s)
      else if token.revoked then
        match recovery.filter fun receipt ↦
          token.rotationRequestHash = some receipt.requestHash with
        | some receipt => do
            let rotation ← s.recoverRotation c r.write token receipt
            return (rotation, s)
        | none =>
            if token.rotatedAt.isSome then
              .ok (.outcome .replayRevoked,
                s.revokeFamilies r.write token.userId .replay (some token.familyId))
            else .ok (.outcome .invalid, s)
      else do
        let consumed : Store :=
          { s with
            tokens := s.tokens.modify (fun t ↦ t.id = token.id)
              (RefreshToken.rotate r.write recovery) fun _ ↦ rfl }
        let inserted ← insertToken c consumed token.userId token.familyId next (some token.id)
        return (.outcome (.rotated ⟨token.userId, token.familyId⟩),
          { inserted with
            families := inserted.families.modify (fun f ↦ f.id = token.familyId)
              (fun f ↦ { f with lastRefreshedAt := r.write, expiresAt := next.expiresAt })
              fun _ ↦ rfl })

end Store

inductive MobileAuthError
  | invalidRefreshToken
  | internal
  deriving DecidableEq

/-- `refresh_with_attempt`: the session and the refresh token it answers with,
next to the access token. -/
def refreshWithAttempt (c : TokenCrypto) (s : Store) (r : Readings) (rawToken : List Char)
    (attempt : Option Uuid) (next : NewRefreshToken) (nonce : List UInt8) :
    Except MobileAuthError (MobileSessionIdentity × List Char) × Store :=
  match parseRefreshToken c rawToken with
  | none => (.error .invalidRefreshToken, s)
  | some parsed =>
      let recovery := attempt.map fun a ↦ RefreshRecovery.new c rawToken a (next.plain c) nonce
      match s.rotateInner c r parsed.jti parsed.hash next recovery with
      | .error _ => (.error .internal, s)
      | .ok (rotation, s') =>
          match if attempt.isSome then rotation else .outcome rotation.intoOutcome with
          | .outcome (.rotated session) => (.ok (session, next.plain c), s')
          | .recovered session refreshToken => (.ok (session, refreshToken), s')
          | .outcome .invalid | .outcome .replayRevoked => (.error .invalidRefreshToken, s')

end Histae.Identity
