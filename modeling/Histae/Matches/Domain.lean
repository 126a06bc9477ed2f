import Histae.Shared.Time

/-!
# Matches, messages and continuation credits

The data types and constants of `src/matches/domain.rs`, together with the
rows of the tables that the continuation transaction reads and writes.
-/

namespace Histae

inductive ConstraintKind
  | notNull
  | foreignKey
  | unique
  | check
  deriving DecidableEq

inductive DatabaseError
  | accountUnavailable
  | constraint (kind : ConstraintKind)
  | rowNotFound
  | queryFailed
  deriving DecidableEq

namespace Matches

def advertisingStockLimit : ℤ := 3

def freeWeeklyCredits : ℤ := 2

def freeWeeklyContinuationLimit : ℤ := 5

def matchWindowHours : ℤ := 24

def matchPurgeDays : ℤ := 30

def matchInactivityDays : ℤ := 30

inductive MatchStatus
  | awaitingContinuation
  | active
  | confirmed
  | expired
  | ended
  deriving DecidableEq

/-- A row of `match_init`. -/
structure MatchRecord where
  id : Uuid
  user1Id : Uuid
  user2Id : Uuid
  status : MatchStatus
  expiresAt : ℤ
  purgeAfter : Option ℤ
  continuationInitiatorId : Option Uuid
  createdAt : ℤ
  lastMessageAt : Option ℤ
  photoRevealVersion : ℕ
  deriving DecidableEq

def MatchRecord.isParticipant (m : MatchRecord) (userId : Uuid) : Bool :=
  m.user1Id = userId || m.user2Id = userId

/-- A row of `match_state`. -/
structure MatchState where
  matchId : Uuid
  userId : Uuid
  revealed : Bool
  continued : Bool
  deriving DecidableEq

def MatchState.key (s : MatchState) : Uuid × Uuid := (s.matchId, s.userId)

inductive Source
  | free
  | advertising
  | premium
  deriving DecidableEq

/-- A row of `continuation_reservation`. -/
structure Reservation where
  matchId : Uuid
  userId : Uuid
  source : Source
  weekStart : ℤ
  deriving DecidableEq

def Reservation.key (r : Reservation) : Uuid × Uuid := (r.matchId, r.userId)

/-- A row of `continuation_usage`. -/
structure Usage where
  userId : Uuid
  weekStart : ℤ
  usedCount : ℕ
  freeUsedCount : ℕ
  deriving DecidableEq

def Usage.key (u : Usage) : Uuid × ℤ := (u.userId, u.weekStart)

/-- A row of `continuation_wallet`. -/
structure Wallet where
  userId : Uuid
  advertisingCredits : ℕ
  weekStart : ℤ
  deriving DecidableEq

/-- A row of `chat_message`. -/
structure MessageRecord where
  id : Uuid
  matchId : Uuid
  senderId : Uuid
  idempotencyKey : Option Uuid
  content : String
  createdAt : ℤ
  readAt : Option ℤ
  deriving DecidableEq

structure EffectivePlan where
  plan : String
  /-- Included weekly credits; `none` means unlimited continuations. -/
  weeklyCredits : Option ℕ
  deriving DecidableEq

structure ContinuationQuota where
  plan : String
  used : ℤ
  weeklyLimit : Option ℤ
  remaining : Option ℤ
  weeklyCredits : ℤ
  freeRemaining : ℤ
  advertisingBalance : ℤ
  advertisingRemaining : ℤ
  reserved : ℤ
  advertisingStockLimit : ℤ
  deriving DecidableEq

inductive MatchAvailabilityFailure
  | notFound
  | invalidState
  | expired
  deriving DecidableEq

inductive MatchCommandResult (α : Type)
  | available (value : α)
  | unavailable (reason : MatchAvailabilityFailure)
  deriving DecidableEq

structure MatchEnd where
  participantIds : Uuid × Uuid
  changed : Bool
  deriving DecidableEq

inductive ContinuationResult
  | pending
  | confirmed
  | alreadyConfirmed
  | alreadyRecorded
  | notAvailableYet
  | notFound
  | invalidState
  | expired
  | quotaReached
  | planChanged
  deriving DecidableEq

inductive PhotoRevealConsent
  | granted
  | withdrawn
  deriving DecidableEq

def PhotoRevealConsent.isGranted : PhotoRevealConsent → Bool
  | granted => true
  | withdrawn => false

structure MessageRead where
  updatedCount : ℕ
  participantIds : Uuid × Uuid
  readThroughMessageId : Uuid
  deriving DecidableEq

structure MessageCreation where
  message : MessageRecord
  participantIds : Uuid × Uuid
  created : Bool
  deriving DecidableEq

inductive MessageCreationResult
  | available (creation : MessageCreation)
  | unavailable (reason : MatchAvailabilityFailure)
  | idempotencyConflict
  deriving DecidableEq

inductive MatchStoreError
  | blocked
  | participantUnavailable
  | continuationExpired
  | photoRequired
  | database (error : DatabaseError)
  deriving DecidableEq

inductive NotificationIntent
  | newMatch (matchId : Uuid)
  | newMessage (matchId messageId senderId : Uuid)
  | matchExpiring (matchId : Uuid) (expiresAt : ℤ)
  | continuationRequested (matchId actorId : Uuid)
  | conversationContinued (matchId : Uuid)
  | photosRevealed (matchId : Uuid) (revealVersion : ℕ)
  | firstPeriodEnding (matchId : Uuid) (expiresAt : ℤ)
  deriving DecidableEq

inductive NotificationType
  | newMatch
  | newMessage
  | matchExpiring
  | continuationRequested
  | conversationContinued
  | photosRevealed
  | firstPeriodEnding
  deriving DecidableEq

namespace NotificationIntent

def kind : NotificationIntent → NotificationType
  | newMatch .. => .newMatch
  | newMessage .. => .newMessage
  | matchExpiring .. => .matchExpiring
  | continuationRequested .. => .continuationRequested
  | conversationContinued .. => .conversationContinued
  | photosRevealed .. => .photosRevealed
  | firstPeriodEnding .. => .firstPeriodEnding

def matchId : NotificationIntent → Uuid
  | newMatch m | newMessage m .. | matchExpiring m _ | continuationRequested m _
  | conversationContinued m | photosRevealed m _ | firstPeriodEnding m _ => m

def expiresAt : NotificationIntent → Option ℤ
  | matchExpiring _ t | firstPeriodEnding _ t => some t
  | _ => none

end NotificationIntent

def NotificationType.retentionSeconds : NotificationType → ℤ
  | .newMatch | .newMessage | .matchExpiring => 90 * 24 * 60 * 60
  | .continuationRequested | .conversationContinued | .photosRevealed
  | .firstPeriodEnding => 1 * 24 * 60 * 60

/-- The source text of a notification: an identifier, or an identifier
followed by a deadline in microseconds or by a reveal version. -/
inductive NotificationSource
  | id (id : Uuid)
  | deadline (id : Uuid) (at_ : ℤ)
  | version (id : Uuid) (version : ℕ)
  deriving DecidableEq

/-- A row of `notification`. -/
structure Notification where
  userId : Uuid
  source : NotificationSource
  intent : NotificationIntent
  expiresAt : ℤ
  deriving DecidableEq

/-- The deduplication key hashes the type, the source and the recipient. -/
def Notification.deduplicationKey (n : Notification) :
    NotificationType × NotificationSource × Uuid := (n.intent.kind, n.source, n.userId)

inductive Role
  | user
  | admin
  | superadmin
  deriving DecidableEq

/-- A row of `user_account`. -/
structure Account where
  userId : Uuid
  role : Role
  isBanned : Bool
  deletedAt : Option ℤ
  discoveryPaused : Bool
  deriving DecidableEq

inductive ConsentType
  | termsOfServiceAcceptance
  | privacyNoticeAcknowledgement
  | other (name : String)
  deriving DecidableEq

/-- A row of `user_consent`. -/
structure Consent where
  userId : Uuid
  consentType : ConsentType
  documentVersion : String
  granted : Bool
  withdrawnAt : Option ℤ
  deriving DecidableEq

structure LegalConfig where
  termsVersion : String
  privacyVersion : String
  deriving DecidableEq

end Matches

end Histae
