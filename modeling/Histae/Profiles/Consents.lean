import Mathlib
import Histae.Discovery.Eligibility
import Histae.Profiles.Ages
import Histae.Systems.Run

/-!
# Profiles, positions and consents

The write transactions of `src/profiles/pg.rs` and the retention passes over
positions and consents. A transaction of a user holds the lock of the account,
so that the transactions of one user follow one another. A pass over positions
deletes what it has selected, also when a position was written in between. The
cell of a position is the centre that `coarse_coordinates` gives, in
millionths of a degree.
-/

namespace Histae.Profiles

open Relational Systems Text Discovery

inductive Language
  | fr
  | en
  | es
  | it
  deriving DecidableEq

structure LegalConfig where
  termsVersion : String
  privacyVersion : String
  sensitiveDataVersion : String
  locationVersion : String
  deriving DecidableEq

def onboarding : List ConsentType := [.termsOfServiceAcceptance, .privacyNoticeAcknowledgement]

def version (legal : LegalConfig) : ConsentType → String
  | .termsOfServiceAcceptance => legal.termsVersion
  | .privacyNoticeAcknowledgement => legal.privacyVersion
  | .sensitiveDataConsent => legal.sensitiveDataVersion
  | .locationConsent => legal.locationVersion

/-- A row of `user_account`. -/
structure AccountRow where
  userId : Uuid
  deletedAt : Option ℤ
  deriving DecidableEq

/-- A row of `user_profile`. -/
structure ProfileRow where
  userId : Uuid
  firstname : String
  birthdate : CivilDate
  sex : Option Sex
  bio : Option String
  deriving DecidableEq

/-- A row of `user_presence`. -/
structure PresenceRow where
  userId : Uuid
  latitude : Option ℤ
  longitude : Option ℤ
  isLocationFresh : Bool
  updatedAt : ℤ
  locationChangedAt : ℤ
  deriving DecidableEq

/-- A row of `user_consent`. -/
structure ConsentEvent where
  eventSequence : ℕ
  userId : Uuid
  consentType : ConsentType
  granted : Bool
  documentVersion : String
  documentLanguage : Language
  grantedAt : ℤ
  withdrawnAt : Option ℤ
  deriving DecidableEq

structure ProfileDb where
  accounts : Table AccountRow.userId
  profiles : Table ProfileRow.userId
  preferences : Table UserPreferences.userId
  presences : Table PresenceRow.userId
  consents : Table ConsentEvent.eventSequence
  /-- The next value of the sequence of `event_sequence`. -/
  nextSequence : ℕ

structure ProfileInput where
  firstname : String
  birthdate : CivilDate
  sex : Option Sex
  bio : Option String

structure PresenceInput where
  latitude : ℤ
  longitude : ℤ
  updatedAt : ℤ

structure VersionedConsentChange where
  consentType : ConsentType
  granted : Bool
  documentVersion : String
  documentLanguage : Language
  deriving DecidableEq

structure ConsentRecord where
  consentType : ConsentType
  granted : Bool
  documentVersion : String
  documentLanguage : Language
  grantedAt : ℤ
  deriving DecidableEq

inductive WriteOutcome
  | updated
  | accountNotFound
  | requiredConsentMissing
  | presenceUpdateLimited
  deriving DecidableEq

def locationChangeIntervalSeconds : ℤ := 300

/-- `(latitude, longitude) IS NOT DISTINCT FROM (EXCLUDED.latitude, EXCLUDED.longitude)`. -/
def PresenceRow.isAt (input : PresenceInput) (row : PresenceRow) : Bool :=
  row.latitude = some input.latitude && row.longitude = some input.longitude

/-- The position may be written: at its cell, from nowhere, or after the delay. -/
def PresenceRow.admits (input : PresenceInput) (row : PresenceRow) : Bool :=
  row.isAt input || row.latitude.isNone || row.longitude.isNone ||
    decide (row.locationChangedAt ≤ input.updatedAt - seconds locationChangeIntervalSeconds)

def PresenceRow.place (userId : Uuid) (input : PresenceInput) : PresenceRow :=
  ⟨userId, some input.latitude, some input.longitude, true, input.updatedAt, input.updatedAt⟩

def PresenceRow.move (input : PresenceInput) (row : PresenceRow) : PresenceRow where
  userId := row.userId
  latitude := some input.latitude
  longitude := some input.longitude
  isLocationFresh := true
  updatedAt := input.updatedAt
  locationChangedAt := if row.isAt input then row.locationChangedAt else input.updatedAt

theorem PresenceRow.userId_move (input : PresenceInput) (row : PresenceRow) :
    (row.move input).userId = row.userId := rfl

/-- Granted and not withdrawn. -/
def ConsentEvent.isActive (e : ConsentEvent) : Bool := e.granted && e.withdrawnAt.isNone

def ConsentEvent.concerns (userId : Uuid) (type : ConsentType) (e : ConsentEvent) : Bool :=
  e.userId = userId && e.consentType = type

def ConsentEvent.withdraw (clock : ℤ) (e : ConsentEvent) : ConsentEvent :=
  { e with withdrawnAt := some clock }

theorem ConsentEvent.eventSequence_withdraw (clock : ℤ) (e : ConsentEvent) :
    (e.withdraw clock).eventSequence = e.eventSequence := rfl

/-- The clock readings for one change: of the update, and of the two columns
of the inserted row. -/
structure ChangeClock where
  withdrawn : ℤ
  granted : ℤ
  refused : ℤ
  deriving DecidableEq

namespace ProfileDb

variable (db : ProfileDb)

def isLive (userId : Uuid) : Bool := (db.accounts.find? userId).any fun a ↦ a.deletedAt.isNone

def lockLegalChoices (userId : Uuid) (sensitive : Option ConsentType) (legal : LegalConfig) :
    WriteOutcome :=
  if !db.isLive userId then .accountNotFound
  else if (onboarding ++ sensitive.toList).all fun type ↦
      db.consents.rows.any fun e ↦
        e.concerns userId type && e.isActive && e.documentVersion = version legal type then
    .updated
  else .requiredConsentMissing

/-- The trigger on the profile table refuses minors. -/
def upsertProfile (userId : Uuid) (input : ProfileInput) (legal : LegalConfig) (today : CivilDate) :
    Except String (WriteOutcome × ProfileDb) :=
  let sensitive := input.sex.map fun _ ↦ ConsentType.sensitiveDataConsent
  match db.lockLegalChoices userId sensitive legal with
  | .updated => do
      checkUserAge today input.birthdate
      let row : ProfileRow := ⟨userId, input.firstname, input.birthdate, input.sex, input.bio⟩
      return (.updated, { db with
        profiles := db.profiles.upsert row
          (fun old ↦ { row with userId := old.userId }) fun _ ↦ rfl })
  | outcome => .ok (outcome, db)

def upsertPreferences (input : UserPreferences) (legal : LegalConfig) : WriteOutcome × ProfileDb :=
  match db.lockLegalChoices input.userId (some .sensitiveDataConsent) legal with
  | .updated =>
      (.updated, { db with
        preferences := db.preferences.upsert input
          (fun old ↦ { input with userId := old.userId }) fun _ ↦ rfl })
  | outcome => (outcome, db)

def upsertPresence (userId : Uuid) (input : PresenceInput) (legal : LegalConfig) :
    WriteOutcome × ProfileDb :=
  match db.lockLegalChoices userId (some .locationConsent) legal with
  | .updated =>
      if (db.presences.find? userId).all (PresenceRow.admits input) then
        (.updated, { db with
          presences := db.presences.upsert (PresenceRow.place userId input)
            (PresenceRow.move input) (PresenceRow.userId_move input) })
      else (.presenceUpdateLimited, db)
  | outcome => (outcome, db)

/-- The event of a type with the greatest sequence number. -/
def latestEvent (userId : Uuid) (type : ConsentType) : Option ConsentEvent :=
  ((db.consents.select (ConsentEvent.concerns userId type)).insertionSort fun e e' ↦
    e'.eventSequence ≤ e.eventSequence).head?

def currentConsents (userId : Uuid) : List ConsentRecord :=
  [ConsentType.locationConsent, .privacyNoticeAcknowledgement, .sensitiveDataConsent,
    .termsOfServiceAcceptance].filterMap fun type ↦
      (db.latestEvent userId type).map fun e ↦
        ⟨e.consentType, e.granted, e.documentVersion, e.documentLanguage, e.grantedAt⟩

/-- Ends the active consent of a type. -/
def withdrawActive (userId : Uuid) (type : ConsentType) (clock : ℤ) : ProfileDb :=
  { db with
    consents := db.consents.modify (fun e ↦ e.concerns userId type && e.isActive)
      (ConsentEvent.withdraw clock) (ConsentEvent.eventSequence_withdraw clock) }

/-- Two active consents of one type violate a unique index. -/
def insertConsent (userId : Uuid) (change : VersionedConsentChange) (t : ChangeClock) :
    Option ProfileDb :=
  let row : ConsentEvent :=
    { eventSequence := db.nextSequence
      userId := userId
      consentType := change.consentType
      granted := change.granted
      documentVersion := change.documentVersion
      documentLanguage := change.documentLanguage
      grantedAt := t.granted
      withdrawnAt := if change.granted then none else some t.refused }
  if change.granted && db.consents.rows.any fun e ↦
      e.concerns userId change.consentType && e.isActive then none
  else (db.consents.insert? row).map fun consents ↦
    { db with consents, nextSequence := db.nextSequence + 1 }

/-- What a refusal removes at once. -/
def eraseRefused (userId : Uuid) (change : VersionedConsentChange) : ProfileDb :=
  if change.granted then db
  else match change.consentType with
    | .sensitiveDataConsent =>
        { db with
          profiles := db.profiles.modify (fun p ↦ p.userId = userId)
            (fun p ↦ { p with sex := none }) fun _ ↦ rfl
          preferences := db.preferences.delete fun p ↦ p.userId = userId }
    | .locationConsent => { db with presences := db.presences.delete fun p ↦ p.userId = userId }
    | _ => db

def recordChange (userId : Uuid) (change : VersionedConsentChange) (t : ChangeClock) :
    Option ProfileDb :=
  if (db.latestEvent userId change.consentType).any fun e ↦
      e.granted = change.granted && e.documentVersion = change.documentVersion then some db
  else ((db.withdrawActive userId change.consentType t.withdrawn).insertConsent userId change t).map
    fun db ↦ db.eraseRefused userId change

def recordChanges (userId : Uuid) : List (VersionedConsentChange × ChangeClock) → ProfileDb →
    Option ProfileDb
  | [], db => some db
  | (change, t) :: rest, db => (db.recordChange userId change t).bind (recordChanges userId rest)

/-- `none` when a statement fails and the transaction is rolled back. -/
def recordConsents (userId : Uuid) (changes : List (VersionedConsentChange × ChangeClock)) :
    Option (Bool × ProfileDb) :=
  if db.isLive userId then (recordChanges userId changes db).map fun db ↦ (true, db)
  else some (false, db)

end ProfileDb

section System

inductive ProfileAction
  | upsertProfile (userId : Uuid) (input : ProfileInput) (legal : LegalConfig) (today : CivilDate)
      (now : ℤ)
  | upsertPreferences (input : UserPreferences) (legal : LegalConfig) (now : ℤ)
  | upsertPresence (userId : Uuid) (input : PresenceInput) (legal : LegalConfig)
  | recordConsents (userId : Uuid) (changes : List (VersionedConsentChange × ChangeClock))
      (now : ℤ)
  | markStale (chosen : List Uuid) (now : ℤ)
  | selectPresences (chosen : List Uuid) (now : ℤ)
  | deletePresences (now : ℤ)
  | purgeConsents (cutoff : ℤ) (limit : ℕ) (chosen : List ℕ) (now : ℤ)

/-- A stored cell, as it was written. -/
structure CellChange where
  userId : Uuid
  latitude : ℤ
  longitude : ℤ
  at_ : ℤ
  deriving DecidableEq

structure ProfileWorld where
  db : ProfileDb
  clock : ℤ
  /-- What a retention pass is about to delete. -/
  selected : List Uuid
  /-- The cells that were stored, the last one first. -/
  changes : List CellChange

def readings : List (VersionedConsentChange × ChangeClock) → List ℤ
  | [] => []
  | (_, t) :: rest => t.withdrawn :: t.granted :: t.refused :: readings rest

/-- The clock readings of an action, in their order. -/
def ProfileAction.times : ProfileAction → List ℤ
  | .upsertProfile _ _ _ _ now => [now]
  | .upsertPreferences _ _ now => [now]
  | .upsertPresence _ input _ => [input.updatedAt]
  | .recordConsents _ changes now => now :: readings changes
  | .markStale _ now => [now]
  | .selectPresences _ now => [now]
  | .deletePresences now => [now]
  | .purgeConsents _ _ _ now => [now]

/-- A batch of withdrawn consents: those withdrawn first. -/
structure IsBatch (db : ProfileDb) (cutoff : ℤ) (limit : ℕ) (chosen : List ℕ) : Prop where
  length_le : chosen.length ≤ limit
  withdrawn : ∀ e ∈ db.consents, e.eventSequence ∈ chosen →
    ∃ t, e.withdrawnAt = some t ∧ t ≤ cutoff
  first : ∀ e ∈ db.consents, e.eventSequence ∈ chosen → ∀ e' ∈ db.consents, ∀ t t',
    e.withdrawnAt = some t → e'.withdrawnAt = some t' → t' < t → e'.eventSequence ∈ chosen

/-- What a pass may do: the batches hold what is old enough. -/
def ProfileAction.Admissible (w : ProfileWorld) : ProfileAction → Prop
  | .markStale chosen now =>
      ∀ p ∈ w.db.presences, p.userId ∈ chosen → p.updatedAt ≤ now - hours 1
  | .selectPresences chosen now =>
      ∀ p ∈ w.db.presences, p.userId ∈ chosen → p.updatedAt ≤ now - hours 24
  | .purgeConsents cutoff limit chosen _ => IsBatch w.db cutoff limit chosen
  | _ => True

def ProfileAction.apply (db : ProfileDb) (selected : List Uuid) : ProfileAction → ProfileDb
  | .upsertProfile userId input legal today _ =>
      match db.upsertProfile userId input legal today with
      | .error _ => db
      | .ok (_, db) => db
  | .upsertPreferences input legal _ => (db.upsertPreferences input legal).2
  | .upsertPresence userId input legal => (db.upsertPresence userId input legal).2
  | .recordConsents userId changes _ =>
      match db.recordConsents userId changes with
      | none => db
      | some (_, db) => db
  | .markStale chosen _ =>
      { db with
        presences := db.presences.modify (fun p ↦ p.userId ∈ chosen)
          (fun p ↦ { p with isLocationFresh := false }) fun _ ↦ rfl }
  | .selectPresences _ _ => db
  | .deletePresences _ =>
      { db with presences := db.presences.delete fun p ↦ p.userId ∈ selected }
  | .purgeConsents _ _ chosen _ =>
      { db with consents := db.consents.delete fun e ↦ e.eventSequence ∈ chosen }

/-- The cell that an action stores anew. -/
def ProfileAction.stores (w : ProfileWorld) : ProfileAction → Option CellChange
  | .upsertPresence userId input legal =>
      if (w.db.upsertPresence userId input legal).1 = .updated ∧
          (w.db.presences.find? userId).any (PresenceRow.isAt input) = false then
        some ⟨userId, input.latitude, input.longitude, input.updatedAt⟩
      else none
  | _ => none

def ProfileWorld.next (w : ProfileWorld) (a : ProfileAction) : ProfileWorld where
  db := a.apply w.db w.selected
  clock := (a.times.getLast?).getD w.clock
  selected := match a with
    | .selectPresences chosen _ => chosen
    | .deletePresences _ => []
    | _ => w.selected
  changes := (a.stores w).toList ++ w.changes

/-- The clock never runs backwards. -/
def profiles : System ProfileWorld ProfileAction where
  Enabled w a := (w.clock :: a.times).Pairwise (· ≤ ·) ∧ a.Admissible w
  next := ProfileWorld.next

/-- No two readings of the clock agree. -/
def ProfileAction.Strict (w : ProfileWorld) (a : ProfileAction) : Prop :=
  (w.clock :: a.times).Pairwise (· < ·)

structure ProfileInitial (w : ProfileWorld) : Prop where
  profiles : w.db.profiles = ∅
  preferences : w.db.preferences = ∅
  presences : w.db.presences = ∅
  consents : w.db.consents = ∅
  changes : w.changes = []

end System

end Histae.Profiles
