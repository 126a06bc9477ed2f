import Histae.Privacy.ExportPages
import Histae.Relational.Table
import Histae.Shared.Time

/-!
# The export of an account

One repeatable-read snapshot is written as one JSON object: the wallet, the
arrays of the tables that mention the account, and at the end what was read
first. A row carries the JSON that its query builds of it, next to the columns
that the query filters and orders by.
-/

namespace Histae.Privacy

open Paging Relational Text

section Tables

/-- The texts of a session and what it reads back out of them. -/
structure SessionText where
  castText : ℤ → String
  isoText : ℤ → String
  readTimestamp : String → Option ℤ
  dateText : ℤ → String
  readDate : String → Option ℤ
  uuidText : Uuid → String
  readUuid : String → Option Uuid
  read_castText : ∀ at_, readTimestamp (castText at_) = some at_
  read_isoText : ∀ at_, readTimestamp (isoText at_) = some at_
  read_dateText : ∀ day, readDate (dateText day) = some day
  read_uuidText : ∀ id, readUuid (uuidText id) = some id

/-- A row with an identifier, an owner and the instant it is ordered by. -/
structure OwnedRow where
  id : Uuid
  owner : Option Uuid
  at_ : ℤ
  value : Json

structure SingleRow where
  userId : Uuid
  value : Json

structure ProfileRow where
  userId : Uuid
  value : Json
  photoKey : Option String

structure UsageRow where
  userId : Uuid
  weekStart : ℤ
  value : Json

structure ReservationRow where
  matchId : Uuid
  userId : Uuid
  value : Json

structure MatchPreferenceRow where
  matchId : Uuid
  userId : Uuid
  value : Json

structure MatchRow where
  id : Uuid
  user1Id : Uuid
  user2Id : Uuid
  createdAt : ℤ
  value : Json
  distinct : user1Id ≠ user2Id

structure UserTraitRow where
  userId : Uuid
  traitId : Uuid

/-- Names compare as the collation of the database has it. -/
structure TraitRow (τ : Type) where
  id : Uuid
  name : τ
  value : Json

structure AnswerRow where
  userId : Uuid
  position : ℕ
  value : Json

structure ConsentRow where
  userId : Uuid
  eventSequence : ℤ
  value : Json

structure BlockRow where
  blockerId : Uuid
  blockedId : Uuid
  createdAt : ℤ
  value : Json

structure InvoiceRow (τ : Type) where
  stripeInvoiceId : τ
  userId : Option Uuid
  createdAt : ℤ
  value : Json

structure SwipeRow where
  actorId : Uuid
  targetId : Uuid
  swipedAt : ℤ
  expiresAt : ℤ
  value : Json

def UsageRow.key (r : UsageRow) : Uuid × ℤ := (r.userId, r.weekStart)

def ReservationRow.key (r : ReservationRow) : Uuid × Uuid := (r.matchId, r.userId)

def MatchPreferenceRow.key (r : MatchPreferenceRow) : Uuid × Uuid := (r.matchId, r.userId)

def UserTraitRow.key (r : UserTraitRow) : Uuid × Uuid := (r.userId, r.traitId)

def AnswerRow.key (r : AnswerRow) : Uuid × ℕ := (r.userId, r.position)

def BlockRow.key (r : BlockRow) : Uuid × Uuid := (r.blockerId, r.blockedId)

def SwipeRow.key (r : SwipeRow) : Uuid × Uuid := (r.actorId, r.targetId)

/-- What the transaction sees of the database. -/
structure Snapshot (τ : Type) where
  transactionTimestamp : ℤ
  userAccount : Table SingleRow.userId
  userProfile : Table ProfileRow.userId
  userPreferences : Table SingleRow.userId
  effectiveUserSubscription : Table SingleRow.userId
  continuationWallet : Table SingleRow.userId
  continuationUsage : Table UsageRow.key
  continuationReservation : Table ReservationRow.key
  advertisingRewardIntent : Table OwnedRow.id
  userNotificationPreference : Table SingleRow.userId
  matchNotificationPreference : Table MatchPreferenceRow.key
  matchInit : Table MatchRow.id
  userTrait : Table UserTraitRow.key
  trait : Table (TraitRow.id (τ := τ))
  userProfileAnswer : Table AnswerRow.key
  userConsent : Table ConsentRow.eventSequence
  chatMessage : Table OwnedRow.id
  userReport : Table OwnedRow.id
  userBlock : Table BlockRow.key
  billingInvoice : Table (InvoiceRow.stripeInvoiceId (τ := τ))
  deviceToken : Table OwnedRow.id
  billingStoreSubscription : Table OwnedRow.id
  dataSubjectRequest : Table OwnedRow.id
  refreshTokenFamily : Table OwnedRow.id
  swipeDecision : Table SwipeRow.key

end Tables

section Queries

variable {ρ κ κ' σ : Type} {key : ρ → κ}

/-- Among the selected rows the order tells the primary keys apart. -/
theorem nodup_order {t : Table key} {p : ρ → Bool} {join : ρ → Option σ} {order : σ → κ'}
    (h : ∀ r s x y, p r = true → p s = true → join r = some x → join s = some y →
      order x = order y → key r = key s) :
    (((t.select p).filterMap join).map order).Nodup := by
  have hrows : (t.select p).Pairwise fun r s ↦ key r ≠ key s := by
    have hselect : ((t.select p).map key).Nodup := t.nodup.sublist (List.filter_sublist.map key)
    exact List.pairwise_map.mp hselect
  refine List.pairwise_map.mpr (List.pairwise_filterMap.mpr ?_)
  refine hrows.imp_of_mem fun {r s} hr hs hne x hx y hy heq ↦ hne ?_
  exact h r s x y (Table.mem_select.mp hr).2 (Table.mem_select.mp hs).2 hx hy heq

theorem nodup_order_select {t : Table key} {p : ρ → Bool} {order : ρ → κ'}
    (h : ∀ r s, p r = true → p s = true → order r = order s → key r = key s) :
    ((t.select p).map order).Nodup := by
  have hjoin : (((t.select p).filterMap some).map order).Nodup := by
    refine nodup_order fun r s x y hr hs hx hy heq ↦ h r s hr hs ?_
    rw [Option.some.inj hx, Option.some.inj hy]
    exact heq
  rwa [List.filterMap_some] at hjoin

theorem uuid_eq {a b : Uuid} (h : a.toNat = b.toNat) : a = b := BitVec.eq_of_toNat_eq h

/-- Position in `ORDER BY at, id`. -/
def position (at_ : ℤ) (id : Uuid) : ℤ ×ₗ ℕ := toLex (at_, id.toNat)

theorem position_inj {at_ at_' : ℤ} {id id' : Uuid} (h : position at_ id = position at_' id') :
    at_ = at_' ∧ id = id' := by
  obtain ⟨hat, hid⟩ := Prod.mk.inj (toLex.injective h)
  exact ⟨hat, uuid_eq hid⟩

variable {τ : Type} [LinearOrder τ] (session : SessionText) (db : Snapshot τ) (userId : Uuid)

/-- The cursor of `write_uuid_timestamp_pages`: an instant as text, and an identifier. -/
def SessionText.readPosition (c : String × Uuid) : Option (ℤ ×ₗ ℕ) :=
  (session.readTimestamp c.1).map fun at_ ↦ position at_ c.2

theorem SessionText.readPosition_cast (at_ : ℤ) (id : Uuid) :
    session.readPosition (session.castText at_, id) = some (position at_ id) := by
  rw [readPosition, session.read_castText, Option.map_some]

theorem SessionText.readPosition_iso (at_ : ℤ) (id : Uuid) :
    session.readPosition (session.isoText at_, id) = some (position at_ id) := by
  rw [readPosition, session.read_isoText, Option.map_some]

abbrev TimestampPages (ρ : Type) := PagedQuery ρ (ℤ ×ₗ ℕ) (String × Uuid)

/-- The rows of one owner, with a cursor in either text form. -/
def ownedPages (table : Table OwnedRow.id) (text : ℤ → String)
    (hread : ∀ at_, session.readTimestamp (text at_) = some at_) : TimestampPages OwnedRow where
  rows := table.select fun r ↦ r.owner = some userId
  key r := position r.at_ r.id
  cursor r := (text r.at_, r.id)
  read := session.readPosition
  nodup := nodup_order_select fun _ _ _ _ h ↦ (position_inj h).2
  read_cursor r _ := by rw [SessionText.readPosition, hread, Option.map_some]

def advertisingRewards : TimestampPages OwnedRow :=
  ownedPages session userId db.advertisingRewardIntent session.isoText session.read_isoText

def authoredMessages : TimestampPages OwnedRow :=
  ownedPages session userId db.chatMessage session.isoText session.read_isoText

def submittedReports : TimestampPages OwnedRow :=
  ownedPages session userId db.userReport session.isoText session.read_isoText

def devices : TimestampPages OwnedRow :=
  ownedPages session userId db.deviceToken session.castText session.read_castText

def storeSubscriptions : TimestampPages OwnedRow :=
  ownedPages session userId db.billingStoreSubscription session.castText session.read_castText

def dataRequests : TimestampPages OwnedRow :=
  ownedPages session userId db.dataSubjectRequest session.castText session.read_castText

def mobileSessions : TimestampPages OwnedRow :=
  ownedPages session userId db.refreshTokenFamily session.isoText session.read_isoText

def continuationUsage : PagedQuery UsageRow ℤ String where
  rows := db.continuationUsage.select fun r ↦ r.userId = userId
  key := UsageRow.weekStart
  cursor r := session.dateText r.weekStart
  read := session.readDate
  nodup := nodup_order_select fun _ _ hr hs h ↦
    Prod.ext ((of_decide_eq_true hr).trans (of_decide_eq_true hs).symm) h
  read_cursor r _ := session.read_dateText r.weekStart

def continuationReservations : PagedQuery ReservationRow ℕ String where
  rows := db.continuationReservation.select fun r ↦ r.userId = userId
  key r := r.matchId.toNat
  cursor r := session.uuidText r.matchId
  read c := (session.readUuid c).map BitVec.toNat
  nodup := nodup_order_select fun r s hr hs h ↦
    Prod.ext (uuid_eq h) ((of_decide_eq_true hr).trans (of_decide_eq_true hs).symm)
  read_cursor r _ := by rw [session.read_uuidText, Option.map_some]

/-- `match_notification_preference` joined with `match_init`. -/
def conversationNotificationPreferences : TimestampPages (MatchPreferenceRow × MatchRow) where
  rows := (db.matchNotificationPreference.select fun r ↦ r.userId = userId).filterMap fun r ↦
    (db.matchInit.find? r.matchId).map fun m ↦ (r, m)
  key x := position x.2.createdAt x.2.id
  cursor x := (session.castText x.2.createdAt, x.2.id)
  read := session.readPosition
  nodup := nodup_order fun r s x y hr hs hx hy h ↦ by
    obtain ⟨m, hm, rfl⟩ := Option.map_eq_some_iff.mp hx
    obtain ⟨n, hn, rfl⟩ := Option.map_eq_some_iff.mp hy
    have hmatch : m.id = n.id := (position_inj h).2
    rw [(Table.find?_eq_some_iff.mp hm).2, (Table.find?_eq_some_iff.mp hn).2] at hmatch
    exact Prod.ext hmatch ((of_decide_eq_true hr).trans (of_decide_eq_true hs).symm)
  read_cursor x _ := session.readPosition_cast x.2.createdAt x.2.id

/-- `user_trait` joined with `trait`. -/
def traits : PagedQuery (TraitRow τ) (τ ×ₗ ℕ) (τ × Uuid) where
  rows := (db.userTrait.select fun r ↦ r.userId = userId).filterMap fun r ↦ db.trait.find? r.traitId
  key r := toLex (r.name, r.id.toNat)
  cursor r := (r.name, r.id)
  read c := some (toLex (c.1, c.2.toNat))
  nodup := nodup_order fun r s x y hr hs hx hy h ↦ by
    have htrait : x.id = y.id := uuid_eq (Prod.mk.inj (toLex.injective h)).2
    rw [(Table.find?_eq_some_iff.mp hx).2, (Table.find?_eq_some_iff.mp hy).2] at htrait
    exact Prod.ext ((of_decide_eq_true hr).trans (of_decide_eq_true hs).symm) htrait
  read_cursor _ _ := rfl

def legalChoices : PagedQuery ConsentRow ℤ ℤ where
  rows := db.userConsent.select fun r ↦ r.userId = userId
  key := ConsentRow.eventSequence
  cursor := ConsentRow.eventSequence
  read := some
  nodup := nodup_order_select fun _ _ _ _ h ↦ h
  read_cursor _ _ := rfl

/-- The matches of the first participant and, by `UNION ALL`, of the second. -/
def matches_ : TimestampPages MatchRow where
  rows := (db.matchInit.select fun m ↦ m.user1Id = userId) ++
    db.matchInit.select fun m ↦ m.user2Id = userId
  key m := position m.createdAt m.id
  cursor m := (session.isoText m.createdAt, m.id)
  read := session.readPosition
  nodup := by
    rw [List.map_append]
    refine List.nodup_append.mpr ⟨nodup_order_select fun _ _ _ _ h ↦ (position_inj h).2,
      nodup_order_select fun _ _ _ _ h ↦ (position_inj h).2, ?_⟩
    intro x hx y hy hxy
    obtain ⟨m, hm, rfl⟩ := List.mem_map.mp hx
    obtain ⟨n, hn, rfl⟩ := List.mem_map.mp hy
    obtain ⟨hm, hfirst⟩ := Table.mem_select.mp hm
    obtain ⟨hn, hsecond⟩ := Table.mem_select.mp hn
    obtain rfl := Table.eq_of_key_eq hm hn (position_inj hxy).2
    exact m.distinct ((of_decide_eq_true hfirst).trans (of_decide_eq_true hsecond).symm)
  read_cursor m _ := session.readPosition_iso m.createdAt m.id

def blockedUsers : TimestampPages BlockRow where
  rows := db.userBlock.select fun r ↦ r.blockerId = userId
  key r := position r.createdAt r.blockedId
  cursor r := (session.isoText r.createdAt, r.blockedId)
  read := session.readPosition
  nodup := nodup_order_select fun r s hr hs h ↦
    Prod.ext ((of_decide_eq_true hr).trans (of_decide_eq_true hs).symm) (position_inj h).2
  read_cursor r _ := session.readPosition_iso r.createdAt r.blockedId

def billingInvoices : PagedQuery (InvoiceRow τ) (ℤ ×ₗ τ) (String × τ) where
  rows := db.billingInvoice.select fun r ↦ r.userId = some userId
  key r := toLex (r.createdAt, r.stripeInvoiceId)
  cursor r := (session.isoText r.createdAt, r.stripeInvoiceId)
  read c := (session.readTimestamp c.1).map fun at_ ↦ toLex (at_, c.2)
  nodup := nodup_order_select fun _ _ _ _ h ↦ (Prod.mk.inj (toLex.injective h)).2
  read_cursor r _ := by rw [session.read_isoText, Option.map_some]

/-- Only the decisions that have not expired at the start of the transaction. -/
def outgoing : TimestampPages SwipeRow where
  rows := db.swipeDecision.select fun r ↦
    decide (r.actorId = userId) && decide (db.transactionTimestamp < r.expiresAt)
  key r := position r.swipedAt r.targetId
  cursor r := (session.isoText r.swipedAt, r.targetId)
  read := session.readPosition
  nodup := nodup_order_select fun _ _ hr hs h ↦ by
    have hactor := of_decide_eq_true (Bool.and_eq_true _ _ ▸ hr).1
    have hactor' := of_decide_eq_true (Bool.and_eq_true _ _ ▸ hs).1
    exact Prod.ext (hactor.trans hactor'.symm) (position_inj h).2
  read_cursor r _ := session.readPosition_iso r.swipedAt r.targetId

/-- The answers are read at once. -/
def profileAnswers : List AnswerRow :=
  oldestFirst AnswerRow.position (db.userProfileAnswer.select fun r ↦ r.userId = userId)

end Queries

section Write

variable {φ : Type} [AsyncFile φ] {τ : Type} [LinearOrder τ] (session : SessionText) (db : Snapshot τ) (userId : Uuid)
  (pageSize : ℕ)

/-- Every page but the last is full, so that this many are enough. -/
def writeQuery {ρ κ γ : Type} [LinearOrder κ] (name : String) (q : PagedQuery ρ κ γ)
    (value : ρ → Json) : ExportM φ ℕ := writeArray name q value pageSize (q.rows.length + 1)

def optionalJson (table : Table SingleRow.userId) : ExportM φ Json :=
  query (((table.find? userId).map SingleRow.value).getD .null)

structure ExportSnapshot where
  snapshotAt : ℤ
  account : Json
  profile : Json
  photoKey : Option String
  preferences : Json
  subscription : Json
  discoveryRows : ℕ

def writeContinuationData : ExportM φ Unit := do
  let wallet ← optionalJson userId db.continuationWallet
  call (.property "continuation_wallet" (some wallet))
  let _ ← writeQuery pageSize "continuation_usage" (continuationUsage session db userId) UsageRow.value
  let _ ← writeQuery pageSize "continuation_reservations" (continuationReservations session db userId)
    ReservationRow.value
  let _ ← writeQuery pageSize "advertising_rewards" (advertisingRewards session db userId) OwnedRow.value
  pure ()

def writeChoices : Json → ExportM φ Unit
  | .null => pure ()
  | choices => call (.item (some choices))

def writeNotificationPreferences : ExportM φ Unit := do
  call (.startArray "notification_preferences")
  let choices ← optionalJson userId db.userNotificationPreference
  writeChoices choices
  call .endArray

def writeProfileAnswers : ExportM φ Unit := do
  let rows ← query (profileAnswers db userId)
  call (.startArray "profile_answers")
  writeRows (rows.map AnswerRow.value)
  call .endArray

def writeDiscoveryActions : ExportM φ ℕ := do
  call (.startObject (some "discovery_actions"))
  let count ← writeQuery pageSize "outgoing" (outgoing session db userId) SwipeRow.value
  call .endObject
  pure count

def storedProfile : ExportM φ (Json × Option String) :=
  query (((db.userProfile.find? userId).map fun r ↦ (r.value, r.photoKey)).getD (.null, none))

/-- A rollback that fails hides the error that led to it. -/
def rollback {α : Type} (e : ExportBuildError) : ExportM φ α :=
  ExceptT.mk fun s ↦
    some (.error (if s.outages.head?.getD false then .database else e),
      { s with outages := s.outages.tail })

/-- Commits a transaction that succeeded and rolls back one that failed. -/
def inTransaction {α : Type} (m : ExportM φ α) : ExportM φ α :=
  ExceptT.mk fun s ↦ (m.outcome s).bind fun result ↦
    match result with
    | (.ok a, s) => (query a).outcome s
    | (.error e, s) => (rollback e : ExportM φ α).outcome s

def writeSnapshotInner : ExportM φ ExportSnapshot := do
  query ()
  let snapshotAt ← query db.transactionTimestamp
  let account ← optionalJson userId db.userAccount
  let profile ← storedProfile db userId
  let preferences ← optionalJson userId db.userPreferences
  let subscription ← optionalJson userId db.effectiveUserSubscription
  writeContinuationData session db userId pageSize
  writeNotificationPreferences db userId
  let _ ← writeQuery pageSize "conversation_notification_preferences"
    (conversationNotificationPreferences session db userId) fun x ↦ x.1.value
  let _ ← writeQuery pageSize "traits" (traits db userId) TraitRow.value
  writeProfileAnswers db userId
  let _ ← writeQuery pageSize "legal_choices" (legalChoices db userId) ConsentRow.value
  let _ ← writeQuery pageSize "matches" (matches_ session db userId) MatchRow.value
  let _ ← writeQuery pageSize "authored_messages" (authoredMessages session db userId) OwnedRow.value
  let _ ← writeQuery pageSize "submitted_reports" (submittedReports session db userId) OwnedRow.value
  let _ ← writeQuery pageSize "blocked_users" (blockedUsers session db userId) BlockRow.value
  let _ ← writeQuery pageSize "billing_invoices" (billingInvoices session db userId) InvoiceRow.value
  let _ ← writeQuery pageSize "devices" (devices session db userId) OwnedRow.value
  let _ ← writeQuery pageSize "store_subscriptions" (storeSubscriptions session db userId) OwnedRow.value
  let _ ← writeQuery pageSize "data_requests" (dataRequests session db userId) OwnedRow.value
  let _ ← writeQuery pageSize "mobile_sessions" (mobileSessions session db userId) OwnedRow.value
  let discoveryRows ← writeDiscoveryActions session db userId pageSize
  pure ⟨snapshotAt, account, profile.1, profile.2, preferences, subscription, discoveryRows⟩

def writeSnapshot : ExportM φ ExportSnapshot :=
  inTransaction (writeSnapshotInner session db userId pageSize)

end Write

section Prepare

variable {φ : Type} [AsyncFile φ]

inductive DataExportError where
  | busy
  | tooLarge
  | unavailable
  deriving DecidableEq

def mapBuildError : ExportBuildError → DataExportError
  | .tooLarge => .tooLarge
  | .io => .unavailable
  | .database => .unavailable

def built {α : Type} (m : ExportM φ α) : RunM φ DataExportError α :=
  ExceptT.mk fun s ↦ (m.outcome s).map fun result ↦ (result.1.mapError mapBuildError, result.2)

/-- What the export asks of its surroundings: the clock, the photo service and
the register of exports. -/
structure Surroundings where
  discoveryStartedAt : ℤ
  discoveryCompletedAt : ℤ
  completedAt : ℤ
  wireTimestamp : ℤ → String
  urlForKey : Option String → Option (Option String)
  recordsExport : Bool

/-- Members of an object are kept in the order of their names. -/
def insertMember (name : String) (v : Json) (members : List (String × Json)) :
    List (String × Json) :=
  (members.filter fun m ↦ m.1 ≠ name).orderedInsert (fun m n ↦ m.1 ≤ n.1) (name, v)

def profileWithPhoto (profile : Json) (photo : Option String) : Json :=
  match profile with
  | .object members => .object (insertMember "photo" ((photo.map Json.string).getD .null) members)
  | profile => profile

def numberJson (n : ℕ) : Json := .number (JsonNumber.ofNat n)

/-- The JSON of `consistency`. -/
def consistency (env : Surroundings) (snapshot : ExportSnapshot) : Json :=
  .object
    [("discovery", .object
      [("completed_at", .string (env.wireTimestamp env.discoveryCompletedAt)),
        ("level", .string "repeatable_read"),
        ("rows", numberJson snapshot.discoveryRows),
        ("snapshot_at", .string (env.wireTimestamp snapshot.snapshotAt)),
        ("started_at", .string (env.wireTimestamp env.discoveryStartedAt))]),
      ("postgres", .object
        [("level", .string "repeatable_read"),
          ("snapshot_at", .string (env.wireTimestamp snapshot.snapshotAt))])]

def urlForKey (env : Surroundings) (key : Option String) : RunM φ DataExportError (Option String) :=
  match env.urlForKey key with
  | none => throw .unavailable
  | some url => pure url

structure PreparedDataExport (φ : Type) where
  file : φ
  bytes : ℕ

def finishFile : RunM φ DataExportError (PreparedDataExport φ) :=
  ExceptT.mk fun s ↦ some (match s.writer.finish with
    | .ok (file, bytes) => .ok ⟨file, bytes⟩
    | .error e => .error (mapBuildError e), s)

def recordSelfExport (env : Surroundings) : RunM φ DataExportError Unit :=
  if env.recordsExport then pure () else throw .unavailable

variable {τ : Type} [LinearOrder τ] (session : SessionText) (db : Snapshot τ) (userId : Uuid)
  (pageSize : ℕ)

/-- Everything up to the last piece of the object. -/
def writeDocument (env : Surroundings) : RunM φ DataExportError Unit := do
  built (call (.startObject none))
  let snapshot ← built (writeSnapshot session db userId pageSize)
  let photo ← urlForKey env snapshot.photoKey
  built (call (.property "account" (some snapshot.account)))
  built (call (.property "profile" (some (profileWithPhoto snapshot.profile photo))))
  built (call (.property "preferences" (some snapshot.preferences)))
  built (call (.property "subscription" (some snapshot.subscription)))
  built (call (.property "exported_at" (some (.string (env.wireTimestamp env.completedAt)))))
  built (call (.property "consistency" (some (consistency env snapshot))))
  built (call .endObject)

def prepareInDirectory (env : Surroundings) : RunM φ DataExportError (PreparedDataExport φ) := do
  writeDocument session db userId pageSize env
  let prepared ← finishFile
  recordSelfExport env
  pure prepared

end Prepare

end Histae.Privacy
