import Mathlib
import Histae.Discovery.Feed
import Histae.Matches.Domain
import Histae.Relational.Table
import Histae.Shared.Time
import Histae.Text.Dates

/-!
# Who may meet whom

The conditions of the feed query, of the candidate check behind a swipe, of
the readiness query and of the status, each written as in its own statement
and read at one instant. Coordinates are stored in millionths of a degree. The
floating-point functions of the database are a parameter; of them only the
symmetries under a change of sign and of the order of a product are used.
-/

namespace Histae.Discovery

open Relational Text

inductive LookingFor
  | male
  | female
  | both
  | other
  deriving DecidableEq

structure UserAccount where
  userId : Uuid
  deletedAt : Option ℤ
  isBanned : Bool
  discoveryPaused : Bool
  deriving DecidableEq

structure UserProfile where
  userId : Uuid
  birthdate : CivilDate
  sex : Option Sex
  deriving DecidableEq

structure UserPreferences where
  userId : Uuid
  minAge : ℤ
  maxAge : ℤ
  maxDistanceKm : ℤ
  lookingFor : LookingFor
  age_range : 18 ≤ minAge ∧ minAge ≤ maxAge ∧ maxAge ≤ 99
  distance_pos : 0 < maxDistanceKm
  deriving DecidableEq

structure UserPresence where
  userId : Uuid
  latitude : Option ℤ
  longitude : Option ℤ
  isLocationFresh : Bool
  updatedAt : ℤ
  deriving DecidableEq

inductive PhotoStatus
  | pending
  | processing
  | ready
  | deleting
  deriving DecidableEq

structure UserPhoto where
  id : Uuid
  userId : Uuid
  status : PhotoStatus
  deriving DecidableEq

inductive ModerationStatus
  | pending
  | approved
  | rejected
  deriving DecidableEq

structure PhotoCase where
  photoId : Uuid
  status : ModerationStatus
  deriving DecidableEq

inductive ConsentType
  | termsOfServiceAcceptance
  | privacyNoticeAcknowledgement
  | sensitiveDataConsent
  | locationConsent
  deriving DecidableEq

structure UserConsent where
  userId : Uuid
  consentType : ConsentType
  granted : Bool
  documentVersion : String
  withdrawnAt : Option ℤ
  deriving DecidableEq

structure UserBlock where
  blockerId : Uuid
  blockedId : Uuid
  deriving DecidableEq

inductive SwipeDecision
  | like
  | pass
  deriving DecidableEq

structure SwipeRow where
  actorId : Uuid
  targetId : Uuid
  decision : SwipeDecision
  expiresAt : ℤ
  deriving DecidableEq

structure MatchRow where
  user1Id : Uuid
  user2Id : Uuid
  status : Matches.MatchStatus
  expiresAt : ℤ
  deriving DecidableEq

structure DiscoveryDb where
  accounts : Table UserAccount.userId
  profiles : Table UserProfile.userId
  preferences : Table UserPreferences.userId
  presences : Table UserPresence.userId
  photos : List UserPhoto
  photoCases : List PhotoCase
  consents : List UserConsent
  blocks : List UserBlock
  swipes : List SwipeRow
  matchInit : List MatchRow

/-- The instant of a statement and the versions of the legal documents. -/
structure Reading where
  now : ℤ
  today : CivilDate
  sensitiveVersion : String
  locationVersion : String

/-- Double-precision numbers of the database, as far as a distance needs them. -/
structure Geometry (F : Type) where
  ofNumeric : ℤ → F
  ofInteger : ℤ → F
  neg : F → F
  half : F → F
  radians : F → F
  sin : F → F
  cos : F → F
  square : F → F
  add : F → F → F
  mul : F → F → F
  kilometres : F → F

namespace Geometry

variable {F : Type} (geometry : Geometry F)

/-- The haversine formula of the two queries; `kilometres` is
`6371.0088 * 2 * asin(sqrt(least(1.0, greatest(0.0, x))))`. -/
def distanceKm (viewerLatitude viewerLongitude latitude longitude : ℤ) : F :=
  let latitudeCos := geometry.cos (geometry.radians (geometry.ofNumeric viewerLatitude))
  geometry.kilometres (geometry.add
    (geometry.square (geometry.sin (geometry.radians
      (geometry.half (geometry.ofNumeric (latitude - viewerLatitude))))))
    (geometry.mul
      (geometry.mul latitudeCos (geometry.cos (geometry.radians (geometry.ofNumeric latitude))))
      (geometry.square (geometry.sin (geometry.radians
        (geometry.half (geometry.ofNumeric (longitude - viewerLongitude))))))))

/-- Signs, products and the order of double-precision numbers. -/
structure Lawful [LinearOrder F] : Prop where
  ofInteger_mono : Monotone geometry.ofInteger
  ofNumeric_neg : ∀ z, geometry.ofNumeric (-z) = geometry.neg (geometry.ofNumeric z)
  half_neg : ∀ x, geometry.half (geometry.neg x) = geometry.neg (geometry.half x)
  radians_neg : ∀ x, geometry.radians (geometry.neg x) = geometry.neg (geometry.radians x)
  sin_neg : ∀ x, geometry.sin (geometry.neg x) = geometry.neg (geometry.sin x)
  square_neg : ∀ x, geometry.square (geometry.neg x) = geometry.square x
  mul_comm : ∀ x y, geometry.mul x y = geometry.mul y x

variable {geometry} [LinearOrder F]

theorem Lawful.square_sin_comm (h : geometry.Lawful) (a b : ℤ) :
    geometry.square (geometry.sin (geometry.radians (geometry.half
      (geometry.ofNumeric (a - b))))) =
      geometry.square (geometry.sin (geometry.radians (geometry.half
        (geometry.ofNumeric (b - a))))) := by
  rw [← neg_sub b a, h.ofNumeric_neg, h.half_neg, h.radians_neg, h.sin_neg, h.square_neg]

theorem Lawful.distanceKm_comm (h : geometry.Lawful) (a b c d : ℤ) :
    geometry.distanceKm a b c d = geometry.distanceKm c d a b := by
  simp only [distanceKm]
  rw [h.square_sin_comm c a, h.square_sin_comm d b, h.mul_comm (geometry.cos _) (geometry.cos _)]

end Geometry

structure DiscoveryStatusRow where
  paused : Bool
  hasProfile : Bool
  hasSex : Bool
  hasApprovedPhoto : Bool
  hasPreferences : Bool
  hasSensitiveConsent : Bool
  hasLocationConsent : Bool
  hasFreshPresence : Bool
  presenceExpiresAt : Option ℤ

inductive DiscoveryRequiredAction
  | profile
  | sex
  | photo
  | preferences
  | sensitiveDataConsent
  | locationConsent
  | freshPresence
  | resumeDiscovery
  deriving DecidableEq

def DiscoveryStatusRow.requiredActions (row : DiscoveryStatusRow) : List DiscoveryRequiredAction :=
  (if row.paused then [.resumeDiscovery] else []) ++
    (if !row.hasProfile then [.profile] else if !row.hasSex then [.sex] else []) ++
    (if !row.hasPreferences then [.preferences] else []) ++
    (if !row.hasApprovedPhoto then [.photo] else []) ++
    (if !row.hasSensitiveConsent then [.sensitiveDataConsent] else []) ++
    (if !row.hasLocationConsent then [.locationConsent] else []) ++
    (if !row.hasFreshPresence then [.freshPresence] else [])

structure Viewer where
  birthdate : CivilDate
  sex : Sex
  age : ℤ
  minAge : ℤ
  maxAge : ℤ
  maxDistanceKm : ℤ
  lookingFor : LookingFor
  oldestBirthdate : CivilDate
  youngestBirthdate : CivilDate
  latitude : Option ℤ
  longitude : Option ℤ

def UserAccount.isOpen (a : UserAccount) : Bool := a.deletedAt.isNone && !a.isBanned

/-- Located less than an hour ago. -/
def UserPresence.isFresh (now : ℤ) (p : UserPresence) : Bool :=
  p.isLocationFresh && now - hours 1 < p.updatedAt

def UserPresence.inRange (p : UserPresence) : Bool :=
  (p.latitude.any fun x ↦ -90000000 ≤ x ∧ x ≤ 90000000) &&
    p.longitude.any fun x ↦ -180000000 ≤ x ∧ x ≤ 180000000

/-- `looking_for = sex OR (looking_for = 'both' AND sex IN ('male', 'female'))`. -/
def LookingFor.admits (wish : LookingFor) (sex : Sex) : Bool :=
  match wish, sex with
  | .male, .male => true
  | .female, .female => true
  | .other, .other => true
  | .both, .male => true
  | .both, .female => true
  | _, _ => false

namespace DiscoveryDb

variable (db : DiscoveryDb) (at_ : Reading)

def hasApprovedPhoto (userId : Uuid) : Bool :=
  db.photos.any fun photo ↦ photo.userId = userId && photo.status = .ready &&
    db.photoCases.any fun moderation ↦ moderation.photoId = photo.id && moderation.status = .approved

def hasConsent (type : ConsentType) (version : String) (userId : Uuid) : Bool :=
  db.consents.any fun c ↦ c.userId = userId && c.consentType = type && c.granted &&
    c.withdrawnAt.isNone && c.documentVersion = version

/-- `STATUS_SQL`. -/
def status (userId : Uuid) : DiscoveryStatusRow where
  paused := ((db.accounts.find? userId).map UserAccount.discoveryPaused).getD false
  hasProfile := (db.profiles.find? userId).isSome
  hasSex := (db.profiles.find? userId).any fun p ↦ p.sex.isSome
  hasApprovedPhoto := db.hasApprovedPhoto userId
  hasPreferences := (db.preferences.find? userId).isSome
  hasSensitiveConsent := db.hasConsent .sensitiveDataConsent at_.sensitiveVersion userId
  hasLocationConsent := db.hasConsent .locationConsent at_.locationVersion userId
  hasFreshPresence := (db.presences.find? userId).any (UserPresence.isFresh at_.now)
  presenceExpiresAt := (db.presences.find? userId).map fun p ↦ p.updatedAt + hours 1

/-- `DiscoveryService::status().ready`. -/
def ready (userId : Uuid) : Bool := (db.status at_ userId).requiredActions.isEmpty

/-- `READY_SQL`. -/
def isReady (userId : Uuid) : Bool :=
  ((db.accounts.find? userId).any fun a ↦ a.isOpen && !a.discoveryPaused) &&
    ((db.profiles.find? userId).any fun p ↦ p.sex.isSome) &&
    (db.preferences.find? userId).isSome &&
    (db.presences.find? userId).any (UserPresence.isFresh at_.now) &&
    db.hasApprovedPhoto userId &&
    db.hasConsent .sensitiveDataConsent at_.sensitiveVersion userId &&
    db.hasConsent .locationConsent at_.locationVersion userId

/-- `VIEWER_SQL`. -/
def viewer (userId : Uuid) : Option Viewer := do
  let _ ← (db.accounts.find? userId).filter fun a ↦ a.isOpen && !a.discoveryPaused
  let profile ← db.profiles.find? userId
  let sex ← profile.sex
  let preferences ← db.preferences.find? userId
  let presence ← (db.presences.find? userId).filter (UserPresence.isFresh at_.now)
  if db.hasApprovedPhoto userId &&
      db.hasConsent .sensitiveDataConsent at_.sensitiveVersion userId &&
      db.hasConsent .locationConsent at_.locationVersion userId then
    some
      { birthdate := profile.birthdate
        sex := sex
        age := at_.today.age profile.birthdate
        minAge := preferences.minAge
        maxAge := preferences.maxAge
        maxDistanceKm := preferences.maxDistanceKm
        lookingFor := preferences.lookingFor
        oldestBirthdate := at_.today.subYears (preferences.maxAge + 1)
        youngestBirthdate := at_.today.subYears preferences.minAge
        latitude := presence.latitude
        longitude := presence.longitude }
  else none

def blocks_ (a b : Uuid) : Bool := db.blocks.any fun block ↦ block.blockerId = a && block.blockedId = b

/-- The exclusions of the feed: every match, block and unexpired swipe. -/
def feedExcluded (viewerId userId : Uuid) : Bool :=
  (db.matchInit.any fun m ↦ m.user1Id = viewerId && m.user2Id = userId) ||
    (db.matchInit.any fun m ↦ m.user2Id = viewerId && m.user1Id = userId) ||
    db.blocks_ viewerId userId || db.blocks_ userId viewerId ||
    db.swipes.any fun s ↦ s.actorId = viewerId && s.targetId = userId && at_.now < s.expiresAt

/-- A live match of the pair that the viewer's stored like explains. -/
def isReplayable (viewerId targetId : Uuid) (m : MatchRow) : Bool :=
  (m.status = .confirmed && at_.now < m.expiresAt ||
      m.status = .active && at_.now < m.expiresAt + hours 24 ||
      m.status = .awaitingContinuation && at_.now < m.expiresAt) &&
    db.swipes.any fun s ↦ s.actorId = viewerId && s.targetId = targetId && s.decision = .like &&
      at_.now < s.expiresAt

def least (a b : Uuid) : Uuid := if a < b then a else b

def greatest (a b : Uuid) : Uuid := if a < b then b else a

/-- The exclusions of a targeted check. -/
def targetExcluded (viewerId targetId : Uuid) : Bool :=
  (db.matchInit.any fun m ↦ m.user1Id = least viewerId targetId &&
      m.user2Id = greatest viewerId targetId && !db.isReplayable at_ viewerId targetId m) ||
    db.blocks_ viewerId targetId || db.blocks_ targetId viewerId

section Queries

variable {F : Type} [LinearOrder F] (geometry : Geometry F)

/-- The distance between the viewer and a presence, if both have coordinates. -/
def distance (viewer : Viewer) (p : UserPresence) : Option F :=
  match viewer.latitude, viewer.longitude, p.latitude, p.longitude with
  | some a, some b, some c, some d => some (geometry.distanceKm a b c d)
  | _, _, _, _ => none

/-- The conditions of the lateral join in the feed query. -/
def feedCandidate (viewerId : Uuid) (viewer : Viewer) (distanceKm : F) (userId : Uuid) : Bool :=
  (db.profiles.find? userId).any fun target ↦
    (target.sex.any fun sex ↦
      db.hasApprovedPhoto userId &&
      decide (viewer.oldestBirthdate.Before target.birthdate) &&
      !decide (viewer.youngestBirthdate.Before target.birthdate) &&
      ((db.accounts.find? userId).any fun a ↦ a.isOpen && !a.discoveryPaused) &&
      (db.preferences.find? userId).any fun preferences ↦
        decide (preferences.minAge ≤ viewer.age) && decide (viewer.age ≤ preferences.maxAge) &&
        viewer.lookingFor.admits sex && preferences.lookingFor.admits viewer.sex &&
        decide (distanceKm ≤ geometry.ofInteger preferences.maxDistanceKm) &&
        db.hasConsent .sensitiveDataConsent at_.sensitiveVersion userId &&
        db.hasConsent .locationConsent at_.locationVersion userId &&
        !db.feedExcluded at_ viewerId userId)

/-- The feed query within a radius; `isNear` is its spatial prefilter. -/
def feedPage (viewerId : Uuid) (isNear : UserPresence → Bool) (cursor : Option (F × Uuid))
    (radiusKm : F) (limit : ℕ) : List (F × Uuid) :=
  match db.viewer at_ viewerId with
  | none => []
  | some viewer =>
      let located := db.presences.rows.filterMap fun p ↦
        if p.userId ≠ viewerId && p.isFresh at_.now && p.inRange && isNear p then
          (distance geometry viewer p).map fun d ↦ (d, p.userId)
        else none
      let nearby := located.filter fun x ↦
        decide (x.1 ≤ min (geometry.ofInteger viewer.maxDistanceKm) radiusKm) &&
          cursor.all fun c ↦ decide (toLex (c.1, c.2.toNat) < toLex (x.1, x.2.toNat))
      ((nearby.filter fun x ↦ db.feedCandidate at_ geometry viewerId viewer x.1 x.2).insertionSort
        fun x y ↦ toLex (x.1, x.2.toNat) ≤ toLex (y.1, y.2.toNat)).take limit

/-- The joins and conditions of the targeted query. -/
def targetCandidate (viewerId : Uuid) (viewer : Viewer) (distanceKm : F) (targetId userId : Uuid) :
    Bool :=
  (db.profiles.find? userId).any fun target ↦
    (target.sex.any fun sex ↦
      db.hasApprovedPhoto userId &&
      decide (viewer.oldestBirthdate.Before target.birthdate) &&
      !decide (viewer.youngestBirthdate.Before target.birthdate) &&
      decide (userId = targetId) &&
      ((db.accounts.find? userId).any fun a ↦ a.isOpen && !a.discoveryPaused) &&
      (db.preferences.find? userId).any fun preferences ↦
        decide (preferences.minAge ≤ viewer.age) && decide (viewer.age ≤ preferences.maxAge) &&
        viewer.lookingFor.admits sex && preferences.lookingFor.admits viewer.sex &&
        (db.hasConsent .sensitiveDataConsent at_.sensitiveVersion targetId &&
          db.hasConsent .locationConsent at_.locationVersion targetId) &&
        !db.targetExcluded at_ viewerId targetId &&
        decide (distanceKm ≤
          geometry.ofInteger (min viewer.maxDistanceKm preferences.maxDistanceKm)))

/-- The targeted query, limited to one row. -/
def candidateBatch (viewerId targetId : Uuid) : List (F × Uuid) :=
  match db.viewer at_ viewerId with
  | none => []
  | some viewer =>
      let eligible := db.presences.rows.filterMap fun p ↦
        if p.userId ≠ viewerId && p.isFresh at_.now && p.inRange then
          (distance geometry viewer p).map fun d ↦ (d, p.userId)
        else none
      ((eligible.filter fun x ↦
        db.targetCandidate at_ geometry viewerId viewer x.1 targetId x.2).insertionSort
          fun x y ↦ toLex (x.1, x.2.toNat) ≤ toLex (y.1, y.2.toNat)).take 1

/-- Whether a swipe on the target passes the candidate check. -/
def accepts (viewerId targetId : Uuid) : Bool :=
  (db.candidateBatch at_ geometry viewerId targetId).length = 1

end Queries

/-- The database without swipes and matches. -/
def withoutDecisions : DiscoveryDb := { db with swipes := [], matchInit := [] }

/-- Every stored presence has coordinates on the globe. -/
def ValidCoordinates : Prop := ∀ p ∈ db.presences, p.inRange = true

end DiscoveryDb

section Members

variable {at_ : Reading} {db : DiscoveryDb}

/-- The dates of a viewer row are those of the age limits. -/
structure Viewer.Dated (at_ : Reading) (w : Viewer) : Prop where
  age_eq : w.age = at_.today.age w.birthdate
  oldest_eq : w.oldestBirthdate = at_.today.subYears (w.maxAge + 1)
  youngest_eq : w.youngestBirthdate = at_.today.subYears w.minAge
  age_range : 18 ≤ w.minAge ∧ w.minAge ≤ w.maxAge

/-- What the two queries ask of a pair of members at a distance. -/
def Viewer.Suits {F : Type} [LinearOrder F] (geometry : Geometry F) (w x : Viewer) (d : F) : Prop :=
  (w.minAge ≤ x.age ∧ x.age ≤ w.maxAge) ∧ (x.minAge ≤ w.age ∧ w.age ≤ x.maxAge) ∧
    w.lookingFor.admits x.sex = true ∧ x.lookingFor.admits w.sex = true ∧
      d ≤ geometry.ofInteger w.maxDistanceKm ∧ d ≤ geometry.ofInteger x.maxDistanceKm

theorem Viewer.Suits.symm {F : Type} [LinearOrder F] {geometry : Geometry F} {w x : Viewer} {d : F}
    (h : w.Suits geometry x d) : x.Suits geometry w d := by
  obtain ⟨hage, hage', hsex, hsex', hdistance, hdistance'⟩ := h
  exact ⟨hage', hage, hsex', hsex, hdistance', hdistance⟩

/-- The birthdates between the limits are those of the wanted ages. -/
theorem Viewer.Dated.birthdate_iff {w : Viewer} (hw : w.Dated at_) (birthdate : CivilDate) :
    (w.oldestBirthdate.Before birthdate ∧ ¬ w.youngestBirthdate.Before birthdate) ↔
      w.minAge ≤ at_.today.age birthdate ∧ at_.today.age birthdate ≤ w.maxAge := by
  have hrange := hw.age_range
  have hmax := CivilDate.le_age_iff at_.today birthdate (n := w.maxAge + 1) (by omega)
  have hmin := CivilDate.le_age_iff at_.today birthdate (n := w.minAge) (by omega)
  rw [hw.oldest_eq, hw.youngest_eq, ← hmin, ← not_not (a := CivilDate.Before _ _), ← hmax, not_le]
  omega

namespace DiscoveryDb

/-- A member of the discovery: the rows that a viewer row is read from. -/
structure IsMember (db : DiscoveryDb) (at_ : Reading) (userId : Uuid) (account : UserAccount)
    (profile : UserProfile) (sex : Sex) (preferences : UserPreferences) (presence : UserPresence) :
    Prop where
  account_eq : db.accounts.find? userId = some account
  isOpen : account.isOpen = true
  not_paused : account.discoveryPaused = false
  profile_eq : db.profiles.find? userId = some profile
  sex_eq : profile.sex = some sex
  preferences_eq : db.preferences.find? userId = some preferences
  presence_eq : db.presences.find? userId = some presence
  fresh : presence.isFresh at_.now = true
  photo : db.hasApprovedPhoto userId = true
  sensitive : db.hasConsent .sensitiveDataConsent at_.sensitiveVersion userId = true
  location : db.hasConsent .locationConsent at_.locationVersion userId = true

/-- The viewer row of a member. -/
def viewerOf (at_ : Reading) (profile : UserProfile) (sex : Sex) (preferences : UserPreferences)
    (presence : UserPresence) : Viewer where
  birthdate := profile.birthdate
  sex := sex
  age := at_.today.age profile.birthdate
  minAge := preferences.minAge
  maxAge := preferences.maxAge
  maxDistanceKm := preferences.maxDistanceKm
  lookingFor := preferences.lookingFor
  oldestBirthdate := at_.today.subYears (preferences.maxAge + 1)
  youngestBirthdate := at_.today.subYears preferences.minAge
  latitude := presence.latitude
  longitude := presence.longitude

theorem viewerOf_dated (profile : UserProfile) (sex : Sex) (preferences : UserPreferences)
    (presence : UserPresence) : (viewerOf at_ profile sex preferences presence).Dated at_ :=
  ⟨rfl, rfl, rfl, preferences.age_range.1, preferences.age_range.2.1⟩

theorem viewer_eq_some_iff {userId : Uuid} {w : Viewer} :
    db.viewer at_ userId = some w ↔ ∃ account profile sex preferences presence,
      db.IsMember at_ userId account profile sex preferences presence ∧
        w = viewerOf at_ profile sex preferences presence := by
  constructor
  · intro h
    simp only [viewer, Option.bind_eq_bind, Option.bind_eq_some_iff, Option.filter_eq_some_iff] at h
    obtain ⟨account, ⟨haccount, hopen⟩, profile, hprofile, sex, hsex, preferences, hpreferences,
      presence, ⟨hpresence, hfresh⟩, hrest⟩ := h
    split at hrest
    · rename_i hcond
      simp only [Bool.and_eq_true, Bool.not_eq_true'] at hcond hopen
      exact ⟨account, profile, sex, preferences, presence,
        ⟨haccount, hopen.1, hopen.2, hprofile, hsex, hpreferences, hpresence, hfresh, hcond.1.1,
          hcond.1.2, hcond.2⟩, (Option.some.inj hrest).symm⟩
    · exact absurd hrest (by simp)
  · rintro ⟨account, profile, sex, preferences, presence, h, rfl⟩
    simp [viewer, h.account_eq, h.isOpen, h.not_paused, h.profile_eq, h.sex_eq, h.preferences_eq,
      h.presence_eq, h.fresh, h.photo, h.sensitive, h.location, Option.filter, viewerOf]

theorem viewer_isSome_iff {userId : Uuid} :
    (db.viewer at_ userId).isSome = true ↔ ∃ account profile sex preferences presence,
      db.IsMember at_ userId account profile sex preferences presence := by
  rw [Option.isSome_iff_exists]
  constructor
  · rintro ⟨w, hw⟩
    obtain ⟨account, profile, sex, preferences, presence, h, -⟩ := viewer_eq_some_iff.mp hw
    exact ⟨account, profile, sex, preferences, presence, h⟩
  · rintro ⟨account, profile, sex, preferences, presence, h⟩
    exact ⟨_, viewer_eq_some_iff.mpr ⟨account, profile, sex, preferences, presence, h, rfl⟩⟩

theorem isReady_iff {userId : Uuid} :
    db.isReady at_ userId = true ↔ ∃ account profile sex preferences presence,
      db.IsMember at_ userId account profile sex preferences presence := by
  constructor
  · intro h
    simp only [isReady, Bool.and_eq_true, Option.any_eq_true, Bool.not_eq_true',
      Option.isSome_iff_exists] at h
    obtain ⟨⟨⟨⟨⟨⟨⟨account, haccount, hopen, hpaused⟩, profile, hprofile, sex, hsex⟩, preferences,
      hpreferences⟩, presence, hpresence, hfresh⟩, hphoto⟩, hsensitive⟩, hlocation⟩ := h
    exact ⟨account, profile, sex, preferences, presence, haccount, hopen, hpaused, hprofile, hsex,
      hpreferences, hpresence, hfresh, hphoto, hsensitive, hlocation⟩
  · rintro ⟨account, profile, sex, preferences, presence, h⟩
    simp [isReady, h.account_eq, h.isOpen, h.not_paused, h.profile_eq, h.sex_eq, h.preferences_eq,
      h.presence_eq, h.fresh, h.photo, h.sensitive, h.location]

theorem isReady_eq_viewer (userId : Uuid) :
    db.isReady at_ userId = (db.viewer at_ userId).isSome := by
  rw [Bool.eq_iff_iff, isReady_iff, viewer_isSome_iff]

/-- Of an open account, nothing is left to do exactly when it is ready. -/
theorem ready_eq_isReady {userId : Uuid} {account : UserAccount}
    (haccount : db.accounts.find? userId = some account) (hopen : account.isOpen = true) :
    db.ready at_ userId = db.isReady at_ userId := by
  have hsex : (db.profiles.find? userId).any (fun p ↦ p.sex.isSome) = true →
      (db.profiles.find? userId).isSome = true := by
    intro h
    obtain ⟨profile, hprofile, -⟩ := (Option.any_eq_true _ _).mp h
    rw [hprofile, Option.isSome_some]
  rw [Bool.eq_iff_iff]
  simp only [ready, status, DiscoveryStatusRow.requiredActions, isReady, haccount, hopen,
    List.isEmpty_iff, List.append_eq_nil_iff, Option.map_some, Option.getD_some, Option.any_some,
    Bool.true_and, Bool.and_eq_true, Bool.not_eq_true']
  constructor
  · rintro ⟨⟨⟨⟨⟨⟨hpaused, hprofile⟩, hpreferences⟩, hphoto⟩, hsensitive⟩, hlocation⟩, hpresence⟩
    have hsome : (db.preferences.find? userId).isSome = true := by
      cases hrow : (db.preferences.find? userId).isSome
      · simp [hrow] at hpreferences
      · rfl
    split at hprofile <;> simp_all
  · rintro ⟨⟨⟨⟨⟨⟨hpaused, hprofile⟩, hpreferences⟩, hpresence⟩, hphoto⟩, hsensitive⟩, hlocation⟩
    simp [hpaused, hprofile, hsex hprofile, hpreferences, hpresence, hphoto, hsensitive, hlocation]

section Pairs

variable {F : Type} [LinearOrder F] {geometry : Geometry F}

/-- The distance between two members, if both have coordinates. -/
def between (geometry : Geometry F) (w x : Viewer) : Option F :=
  match w.latitude, w.longitude, x.latitude, x.longitude with
  | some a, some b, some c, some d => some (geometry.distanceKm a b c d)
  | _, _, _, _ => none

theorem between_comm (hgeometry : geometry.Lawful) (w x : Viewer) :
    between geometry w x = between geometry x w := by
  unfold between
  cases w.latitude <;> cases w.longitude <;> cases x.latitude <;> cases x.longitude <;>
    simp [hgeometry.distanceKm_comm]

/-- The targeted conditions, of a target that is located. -/
theorem targetCandidate_iff (hgeometry : geometry.Lawful) {viewerId targetId userId : Uuid}
    {w : Viewer} (hw : w.Dated at_) {p : UserPresence}
    (hp : db.presences.find? userId = some p) (hfresh : p.isFresh at_.now = true) {d : F} :
    db.targetCandidate at_ geometry viewerId w d targetId userId = true ↔
      userId = targetId ∧ db.targetExcluded at_ viewerId targetId = false ∧
        ∃ account profile sex preferences,
          db.IsMember at_ userId account profile sex preferences p ∧
            w.Suits geometry (viewerOf at_ profile sex preferences p) d := by
  have hmin (m n : ℤ) : d ≤ geometry.ofInteger (min m n) ↔
      d ≤ geometry.ofInteger m ∧ d ≤ geometry.ofInteger n := by
    rw [hgeometry.ofInteger_mono.map_min, le_min_iff]
  constructor
  · intro h
    simp only [targetCandidate, Option.any_eq_true, Bool.and_eq_true, decide_eq_true_eq,
      Bool.not_eq_true', decide_eq_false_iff_not, hmin] at h
    obtain ⟨profile, hprofile, sex, hsex, ⟨⟨⟨⟨hphoto, hold⟩, hyoung⟩, htarget⟩, account, haccount,
      hopen, hpaused⟩, preferences, hpreferences, ⟨⟨⟨⟨⟨hminAge, hmaxAge⟩, hadmits⟩, hadmits'⟩,
      hsensitive, hlocation⟩, hexcluded⟩, hdistance, hdistance'⟩ := h
    subst htarget
    have hage := (hw.birthdate_iff profile.birthdate).mp ⟨hold, hyoung⟩
    exact ⟨rfl, hexcluded, account, profile, sex, preferences,
      ⟨haccount, hopen, hpaused, hprofile, hsex, hpreferences, hp, hfresh, hphoto, hsensitive,
        hlocation⟩, hage, ⟨hminAge, hmaxAge⟩, hadmits, hadmits', hdistance, hdistance'⟩
  · rintro ⟨rfl, hexcluded, account, profile, sex, preferences, h, hage, hage', hadmits, hadmits',
      hdistance, hdistance'⟩
    obtain ⟨hold, hyoung⟩ := (hw.birthdate_iff profile.birthdate).mpr hage
    simp only [targetCandidate, Option.any_eq_true, Bool.and_eq_true, decide_eq_true_eq,
      Bool.not_eq_true', decide_eq_false_iff_not, hmin]
    exact ⟨profile, h.profile_eq, sex, h.sex_eq, ⟨⟨⟨⟨h.photo, hold⟩, hyoung⟩, trivial⟩, account,
      h.account_eq, h.isOpen, h.not_paused⟩, preferences, h.preferences_eq,
      ⟨⟨⟨⟨⟨hage'.1, hage'.2⟩, hadmits⟩, hadmits'⟩, h.sensitive, h.location⟩, hexcluded⟩, hdistance,
      hdistance'⟩

theorem length_take_one_eq_one_iff {α : Type} {l : List α} : (l.take 1).length = 1 ↔ ∃ x, x ∈ l := by
  cases l with
  | nil => simp
  | cons x l => simp

omit [LinearOrder F] in
theorem mem_located_iff {viewerId : Uuid} {w : Viewer} {isNear : UserPresence → Bool}
    {x : F × Uuid} :
    (x ∈ db.presences.rows.filterMap fun p ↦
      if p.userId ≠ viewerId && p.isFresh at_.now && p.inRange && isNear p then
        (distance geometry w p).map fun d ↦ (d, p.userId)
      else none) ↔
      ∃ p, db.presences.find? x.2 = some p ∧ x.2 ≠ viewerId ∧ p.isFresh at_.now = true ∧
        p.inRange = true ∧ isNear p = true ∧ distance geometry w p = some x.1 := by
  rw [List.mem_filterMap]
  constructor
  · rintro ⟨p, hp, h⟩
    split at h
    · rename_i hcond
      simp only [Bool.and_eq_true, decide_eq_true_eq] at hcond
      obtain ⟨d, hd, rfl⟩ := Option.map_eq_some_iff.mp h
      exact ⟨p, Table.find?_key hp, hcond.1.1.1, hcond.1.1.2, hcond.1.2, hcond.2, hd⟩
    · exact absurd h (by simp)
  · rintro ⟨p, hp, hne, hfresh, hrange, hnear, hd⟩
    obtain ⟨hmem, hkey⟩ := Table.find?_eq_some_iff.mp hp
    refine ⟨p, hmem, ?_⟩
    rw [if_pos (by simp [hkey, hne, hfresh, hrange, hnear]), hd, Option.map_some, hkey]

theorem mem_candidateBatch_ne_nil {viewerId targetId : Uuid} {w : Viewer}
    (hview : db.viewer at_ viewerId = some w) :
    db.accepts at_ geometry viewerId targetId = true ↔
      ∃ userId p d, db.presences.find? userId = some p ∧ userId ≠ viewerId ∧
        p.isFresh at_.now = true ∧ p.inRange = true ∧ distance geometry w p = some d ∧
        db.targetCandidate at_ geometry viewerId w d targetId userId = true := by
  have hmem (x : F × Uuid) := @mem_located_iff at_ db F geometry viewerId w (fun _ ↦ true) x
  simp only [Bool.and_true] at hmem
  unfold accepts candidateBatch
  rw [hview]
  simp only [decide_eq_true_eq, length_take_one_eq_one_iff, List.mem_insertionSort,
    List.mem_filter, hmem]
  constructor
  · rintro ⟨⟨d, userId⟩, ⟨p, hp, hne, hfresh, hrange, -, hd⟩, htarget⟩
    exact ⟨userId, p, d, hp, hne, hfresh, hrange, hd, htarget⟩
  · rintro ⟨userId, p, d, hp, hne, hfresh, hrange, hd, htarget⟩
    exact ⟨(d, userId), ⟨p, hp, hne, hfresh, hrange, trivial, hd⟩, htarget⟩

/-- A swipe passes when both are members, suit each other and are not excluded. -/
theorem accepts_iff (hgeometry : geometry.Lawful) {viewerId targetId : Uuid} :
    db.accepts at_ geometry viewerId targetId = true ↔
      targetId ≠ viewerId ∧ db.targetExcluded at_ viewerId targetId = false ∧
        (∃ p, db.presences.find? targetId = some p ∧ p.inRange = true) ∧
        ∃ w x d, db.viewer at_ viewerId = some w ∧ db.viewer at_ targetId = some x ∧
          between geometry w x = some d ∧ w.Suits geometry x d := by
  cases hview : db.viewer at_ viewerId with
  | none => simp [accepts, candidateBatch, hview]
  | some w =>
      have hw : w.Dated at_ := by
        obtain ⟨account, profile, sex, preferences, presence, -, rfl⟩ := viewer_eq_some_iff.mp hview
        exact viewerOf_dated profile sex preferences presence
      rw [mem_candidateBatch_ne_nil hview]
      constructor
      · rintro ⟨userId, p, d, hp, hne, hfresh, hrange, hd, htarget⟩
        obtain ⟨rfl, hexcluded, account, profile, sex, preferences, hmember, hsuits⟩ :=
          (targetCandidate_iff hgeometry hw hp hfresh).mp htarget
        exact ⟨hne, hexcluded, ⟨p, hp, hrange⟩, w, viewerOf at_ profile sex preferences p, d, rfl,
          viewer_eq_some_iff.mpr ⟨account, profile, sex, preferences, p, hmember, rfl⟩, hd, hsuits⟩
      · rintro ⟨hne, hexcluded, ⟨p, hp, hrange⟩, w', x, d, hw', hx, hd, hsuits⟩
        obtain rfl := Option.some.inj hw'
        obtain ⟨account, profile, sex, preferences, presence, hmember, rfl⟩ :=
          viewer_eq_some_iff.mp hx
        obtain rfl : presence = p := Option.some.inj (hmember.presence_eq.symm.trans hp)
        exact ⟨targetId, presence, d, hp, hne, hmember.fresh, hrange, hd,
          (targetCandidate_iff hgeometry hw hp hmember.fresh).mpr
            ⟨rfl, hexcluded, account, profile, sex, preferences, hmember, hsuits⟩⟩

theorem least_greatest (a b : Uuid) :
    (least a b = a ∧ greatest a b = b) ∨ (least a b = b ∧ greatest a b = a) := by
  unfold least greatest
  by_cases h : a < b
  · exact Or.inl ⟨if_pos h, if_pos h⟩
  · exact Or.inr ⟨if_neg h, if_neg h⟩

/-- The feed leaves out at least what the targeted check leaves out. -/
theorem targetExcluded_of_feedExcluded {viewerId userId : Uuid}
    (h : db.feedExcluded at_ viewerId userId = false) :
    db.targetExcluded at_ viewerId userId = false := by
  simp only [feedExcluded, Bool.or_eq_false_iff] at h
  obtain ⟨⟨⟨⟨hmatch, hmatch'⟩, hblock⟩, hblock'⟩, -⟩ := h
  simp only [targetExcluded, Bool.or_eq_false_iff]
  refine ⟨⟨?_, hblock⟩, hblock'⟩
  rw [List.any_eq_false] at hmatch hmatch' ⊢
  intro m hm
  have hfirst := hmatch m hm
  have hsecond := hmatch' m hm
  simp only [Bool.and_eq_true, decide_eq_true_eq, not_and] at hfirst hsecond ⊢
  rintro ⟨h1, h2⟩
  rcases least_greatest viewerId userId with ⟨hl, hg⟩ | ⟨hl, hg⟩
  · exact absurd (h2.trans hg) (hfirst (h1.trans hl))
  · exact absurd (h1.trans hl) (hsecond (h2.trans hg))

theorem feedCandidate_imp_targetCandidate (hgeometry : geometry.Lawful) {viewerId userId : Uuid}
    {w : Viewer} {d : F} (hd : d ≤ geometry.ofInteger w.maxDistanceKm)
    (h : db.feedCandidate at_ geometry viewerId w d userId = true) :
    db.targetCandidate at_ geometry viewerId w d userId userId = true := by
  simp only [feedCandidate, targetCandidate, Option.any_eq_true, Bool.and_eq_true,
    decide_eq_true_eq, Bool.not_eq_true', decide_eq_false_iff_not,
    hgeometry.ofInteger_mono.map_min, le_min_iff] at h ⊢
  obtain ⟨profile, hprofile, sex, hsex, ⟨⟨⟨hphoto, hold⟩, hyoung⟩, haccount⟩, preferences,
    hpreferences, ⟨⟨⟨⟨hage, hsex'⟩, hdistance⟩, hsensitive⟩, hlocation⟩, hexcluded⟩ := h
  exact ⟨profile, hprofile, sex, hsex, ⟨⟨⟨⟨hphoto, hold⟩, hyoung⟩, trivial⟩, haccount⟩,
    preferences, hpreferences, ⟨⟨⟨hage, hsex'⟩, hsensitive, hlocation⟩,
      targetExcluded_of_feedExcluded hexcluded⟩, hd, hdistance⟩

theorem mem_feedPage {viewerId : Uuid} {isNear : UserPresence → Bool} {cursor : Option (F × Uuid)}
    {radiusKm : F} {limit : ℕ} {x : F × Uuid}
    (hx : x ∈ db.feedPage at_ geometry viewerId isNear cursor radiusKm limit) :
    ∃ w p, db.viewer at_ viewerId = some w ∧ db.presences.find? x.2 = some p ∧ x.2 ≠ viewerId ∧
      p.isFresh at_.now = true ∧ p.inRange = true ∧ distance geometry w p = some x.1 ∧
      x.1 ≤ geometry.ofInteger w.maxDistanceKm ∧
      db.feedCandidate at_ geometry viewerId w x.1 x.2 = true := by
  unfold feedPage at hx
  cases hview : db.viewer at_ viewerId with
  | none => simp [hview] at hx
  | some w =>
      rw [hview] at hx
      have hmem := List.mem_of_mem_take hx
      rw [List.mem_insertionSort, List.mem_filter, List.mem_filter, mem_located_iff] at hmem
      obtain ⟨⟨⟨p, hp, hne, hfresh, hrange, -, hd⟩, hnear⟩, hcandidate⟩ := hmem
      simp only [Bool.and_eq_true, decide_eq_true_eq, le_min_iff] at hnear
      exact ⟨w, p, rfl, hp, hne, hfresh, hrange, hd, hnear.1.1, hcandidate⟩

/-- Whoever the feed shows can be swiped on. -/
theorem accepts_of_mem_feedPage (hgeometry : geometry.Lawful) {viewerId : Uuid}
    {isNear : UserPresence → Bool} {cursor : Option (F × Uuid)} {radiusKm : F} {limit : ℕ}
    {x : F × Uuid} (hx : x ∈ db.feedPage at_ geometry viewerId isNear cursor radiusKm limit) :
    db.accepts at_ geometry viewerId x.2 = true := by
  obtain ⟨w, p, hview, hp, hne, hfresh, hrange, hd, hmax, hcandidate⟩ := mem_feedPage hx
  rw [mem_candidateBatch_ne_nil hview]
  exact ⟨x.2, p, x.1, hp, hne, hfresh, hrange, hd,
    feedCandidate_imp_targetCandidate hgeometry hmax hcandidate⟩

theorem withoutDecisions_targetExcluded (a b : Uuid) :
    db.withoutDecisions.targetExcluded at_ a b = (db.blocks_ a b || db.blocks_ b a) := by
  simp [withoutDecisions, targetExcluded, blocks_]

theorem withoutDecisions_feedExcluded (a b : Uuid) :
    db.withoutDecisions.feedExcluded at_ a b = (db.blocks_ a b || db.blocks_ b a) := by
  simp [withoutDecisions, feedExcluded, blocks_]

/-- Without swipes and matches, one may meet whoever may meet one. -/
theorem accepts_symm (hgeometry : geometry.Lawful) (hvalid : db.ValidCoordinates) {a b : Uuid}
    (h : db.withoutDecisions.accepts at_ geometry a b = true) :
    db.withoutDecisions.accepts at_ geometry b a = true := by
  rw [accepts_iff hgeometry] at h ⊢
  obtain ⟨hne, hexcluded, -, w, x, d, hw, hx, hd, hsuits⟩ := h
  rw [withoutDecisions_targetExcluded] at hexcluded ⊢
  obtain ⟨account, profile, sex, preferences, presence, hmember, -⟩ := viewer_eq_some_iff.mp hw
  have hpresence := hmember.presence_eq
  exact ⟨hne.symm, (Bool.or_comm _ _).trans hexcluded,
    ⟨presence, hpresence, hvalid presence (Table.find?_eq_some_iff.mp hpresence).1⟩,
    x, w, d, hx, hw, (between_comm hgeometry x w).trans hd, hsuits.symm⟩

theorem accepts_comm (hgeometry : geometry.Lawful) (hvalid : db.ValidCoordinates) (a b : Uuid) :
    db.withoutDecisions.accepts at_ geometry a b = db.withoutDecisions.accepts at_ geometry b a :=
  Bool.eq_iff_iff.mpr ⟨accepts_symm hgeometry hvalid, accepts_symm hgeometry hvalid⟩

theorem feedCandidate_of_targetCandidate (hgeometry : geometry.Lawful)
    {viewerId targetId userId : Uuid} {w : Viewer} {d : F}
    (h : db.withoutDecisions.targetCandidate at_ geometry viewerId w d targetId userId = true) :
    userId = targetId ∧ d ≤ geometry.ofInteger w.maxDistanceKm ∧
      db.withoutDecisions.feedCandidate at_ geometry viewerId w d userId = true := by
  simp only [feedCandidate, targetCandidate, Option.any_eq_true, Bool.and_eq_true,
    decide_eq_true_eq, Bool.not_eq_true', decide_eq_false_iff_not,
    hgeometry.ofInteger_mono.map_min, le_min_iff] at h ⊢
  obtain ⟨profile, hprofile, sex, hsex, ⟨⟨⟨⟨hphoto, hold⟩, hyoung⟩, htarget⟩, haccount⟩,
    preferences, hpreferences, ⟨⟨⟨hage, hsex'⟩, hsensitive, hlocation⟩, hexcluded⟩, hd, hdistance⟩ := h
  subst htarget
  rw [withoutDecisions_targetExcluded] at hexcluded
  exact ⟨rfl, hd, profile, hprofile, sex, hsex, ⟨⟨⟨hphoto, hold⟩, hyoung⟩, haccount⟩, preferences,
    hpreferences, ⟨⟨⟨⟨hage, hsex'⟩, hdistance⟩, hsensitive⟩, hlocation⟩,
    (withoutDecisions_feedExcluded _ _).trans hexcluded⟩

/-- Without swipes and matches, the feed in one page shows whoever can be swiped on. -/
theorem mem_feedPage_of_accepts (hgeometry : geometry.Lawful) {viewerId userId : Uuid}
    {isNear : UserPresence → Bool} {radiusKm : F} {limit : ℕ}
    (hnear : ∀ w p d, db.viewer at_ viewerId = some w → p ∈ db.presences →
      distance geometry w p = some d → d ≤ min (geometry.ofInteger w.maxDistanceKm) radiusKm →
      isNear p = true)
    (hradius : ∀ w, db.viewer at_ viewerId = some w →
      geometry.ofInteger w.maxDistanceKm ≤ radiusKm)
    (hlimit : db.presences.rows.length ≤ limit)
    (h : db.withoutDecisions.accepts at_ geometry viewerId userId = true) :
    ∃ d, (d, userId) ∈
      db.withoutDecisions.feedPage at_ geometry viewerId isNear none radiusKm limit := by
  cases hview : db.withoutDecisions.viewer at_ viewerId with
  | none => simp [accepts, candidateBatch, hview] at h
  | some w =>
      rw [mem_candidateBatch_ne_nil hview] at h
      obtain ⟨targetId, p, d, hp, hne, hfresh, hrange, hd, htarget⟩ := h
      obtain ⟨rfl, hmax, hcandidate⟩ := feedCandidate_of_targetCandidate hgeometry htarget
      have hclose : d ≤ min (geometry.ofInteger w.maxDistanceKm) radiusKm :=
        le_min hmax (hmax.trans (hradius w hview))
      have hisNear := hnear w p d hview (Table.find?_eq_some_iff.mp hp).1 hd hclose
      refine ⟨d, ?_⟩
      unfold feedPage
      simp only [hview]
      rw [List.take_of_length_le]
      · rw [List.mem_insertionSort, List.mem_filter, List.mem_filter, mem_located_iff]
        exact ⟨⟨⟨p, hp, hne, hfresh, hrange, hisNear, hd⟩, by simpa using le_min_iff.mp hclose⟩,
          hcandidate⟩
      · rw [List.length_insertionSort]
        exact (List.length_filter_le _ _).trans ((List.length_filter_le _ _).trans
          ((List.length_filterMap_le _ _).trans hlimit))

end Pairs

end DiscoveryDb

end Members

open DiscoveryDb in
/-- Eligibility is one symmetric relation, and the three notions of being
ready agree. -/
theorem eligibility_symmetric {F : Type} [LinearOrder F] {geometry : Geometry F}
    (hgeometry : geometry.Lawful) (db : DiscoveryDb) (hvalid : db.ValidCoordinates)
    (at_ : Reading) :
    (∀ viewerId isNear cursor radiusKm limit,
      ∀ x ∈ db.feedPage at_ geometry viewerId isNear cursor radiusKm limit,
        db.accepts at_ geometry viewerId x.2 = true) ∧
    (∀ viewerId userId, db.withoutDecisions.accepts at_ geometry viewerId userId =
      db.withoutDecisions.accepts at_ geometry userId viewerId) ∧
    (∀ viewerId userId isNear radiusKm limit,
      (∀ w p d, db.viewer at_ viewerId = some w → p ∈ db.presences →
        distance geometry w p = some d → d ≤ min (geometry.ofInteger w.maxDistanceKm) radiusKm →
        isNear p = true) →
      (∀ w, db.viewer at_ viewerId = some w → geometry.ofInteger w.maxDistanceKm ≤ radiusKm) →
      db.presences.rows.length ≤ limit →
      ((∃ d, (d, userId) ∈
          db.withoutDecisions.feedPage at_ geometry viewerId isNear none radiusKm limit) ↔
        db.withoutDecisions.accepts at_ geometry viewerId userId = true)) ∧
    (∀ userId account, db.accounts.find? userId = some account → account.isOpen = true →
      db.ready at_ userId = db.isReady at_ userId ∧
        db.isReady at_ userId = (db.viewer at_ userId).isSome) := by
  refine ⟨?_, accepts_comm hgeometry hvalid, ?_, ?_⟩
  · intro viewerId isNear cursor radiusKm limit x hx
    exact accepts_of_mem_feedPage hgeometry hx
  · intro viewerId userId isNear radiusKm limit hnear hradius hlimit
    constructor
    · rintro ⟨d, hd⟩
      have haccepts := accepts_of_mem_feedPage hgeometry hd
      exact haccepts
    · intro haccepts
      exact mem_feedPage_of_accepts hgeometry hnear hradius hlimit haccepts
  · intro userId account haccount hopen
    exact ⟨ready_eq_isReady haccount hopen, isReady_eq_viewer userId⟩

/-- Distances of members at one point. -/
def flatGeometry : Geometry ℤ where
  ofNumeric := id
  ofInteger := id
  neg := fun x ↦ -x
  half := id
  radians := id
  sin := id
  cos := fun _ ↦ 1
  square := fun x ↦ x * x
  add := fun x y ↦ x + y
  mul := fun x y ↦ x * y
  kilometres := id

theorem flatGeometry_lawful : flatGeometry.Lawful where
  ofInteger_mono := monotone_id
  ofNumeric_neg := fun _ ↦ rfl
  half_neg := fun _ ↦ rfl
  radians_neg := fun _ ↦ rfl
  sin_neg := fun _ ↦ rfl
  square_neg := fun x ↦ neg_mul_neg x x
  mul_comm := fun x y ↦ Int.mul_comm x y

def sampleReading : Reading := ⟨0, ⟨2024, 2, 29, by decide, by decide⟩, "1", "1"⟩

def sampleDb : DiscoveryDb where
  accounts := ⟨[⟨1, none, false, false⟩, ⟨2, none, false, false⟩], by decide⟩
  profiles := ⟨[⟨1, ⟨2000, 2, 29, by decide, by decide⟩, some .female⟩,
    ⟨2, ⟨1990, 7, 1, by decide, by decide⟩, some .male⟩], by decide⟩
  preferences := ⟨[⟨1, 24, 33, 10, .both, by decide, by decide⟩,
    ⟨2, 18, 24, 5, .female, by decide, by decide⟩], by decide⟩
  presences := ⟨[⟨1, some 48850000, some 2350000, true, -1⟩,
    ⟨2, some 48850000, some 2350000, true, -2⟩], by decide⟩
  photos := [⟨11, 1, .ready⟩, ⟨12, 2, .ready⟩]
  photoCases := [⟨11, .approved⟩, ⟨12, .approved⟩]
  consents := [⟨1, .sensitiveDataConsent, true, "1", none⟩, ⟨1, .locationConsent, true, "1", none⟩,
    ⟨2, .sensitiveDataConsent, true, "1", none⟩, ⟨2, .locationConsent, true, "1", none⟩]
  blocks := []
  swipes := []
  matchInit := []

theorem sampleDb_validCoordinates : sampleDb.ValidCoordinates := by
  unfold DiscoveryDb.ValidCoordinates
  decide

theorem eligibility_symmetric_sample :
    sampleDb.feedPage sampleReading flatGeometry 1 (fun _ ↦ true) none 100 10 = [(0, 2)] ∧
      sampleDb.accepts sampleReading flatGeometry 1 2 = true ∧
      sampleDb.withoutDecisions.accepts sampleReading flatGeometry 2 1 =
        sampleDb.withoutDecisions.accepts sampleReading flatGeometry 1 2 ∧
      sampleDb.ready sampleReading 1 = sampleDb.isReady sampleReading 1 := by
  have h := eligibility_symmetric flatGeometry_lawful sampleDb sampleDb_validCoordinates
    sampleReading
  have hpage : sampleDb.feedPage sampleReading flatGeometry 1 (fun _ ↦ true) none 100 10 =
      [(0, 2)] := by decide +kernel
  have hmem : ((0 : ℤ), (2 : Uuid)) ∈
      sampleDb.feedPage sampleReading flatGeometry 1 (fun _ ↦ true) none 100 10 := by
    rw [hpage]
    exact List.mem_singleton_self _
  have haccount : sampleDb.accounts.find? 1 = some ⟨1, none, false, false⟩ := by decide
  exact ⟨hpage, h.1 1 (fun _ ↦ true) none 100 10 (0, 2) hmem, h.2.1 2 1,
    (h.2.2.2 1 _ haccount (by decide)).1⟩

end Histae.Discovery
