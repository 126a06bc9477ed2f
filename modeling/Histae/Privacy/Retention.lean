import Mathlib
import Histae.Relational.Table
import Histae.Shared.Time
import Histae.Systems.Run
import Histae.Text.Calendar

/-!
# Retention statements under concurrent renewals

A retention statement selects the keys of its rows in a subquery and then
deletes or marks the rows with these keys. Between the two it may wait for a
row that another transaction is changing, and then it looks at the new version
again only for the key: the subquery is not evaluated again. A subquery that
locks its rows leaves no room for that.

The leader's lock keeps two maintenance runs apart, so that no two statements
over one table are open together. A row has the columns that the statements read. What a statement asks of other
tables (that nothing references the row) only narrows its selection; which of
the due rows it takes is left to the step.
-/

namespace Histae.Privacy

open Relational Systems Text

/-- `timestamp - interval 'n years'`. -/
def yearsBefore (n now : ℤ) : ℤ :=
  let (year, month, day) := civilFromDays (now / microsPerDay)
  daysFromCivil (year - n) month (min day (daysInMonth (year - n) month)) * microsPerDay +
    now % microsPerDay

inductive RetainedTable
  | userPresence
  | swipeDecision
  | otpVerification
  | refreshTokens
  | notification
  | userConsent
  | dataSubjectRequest
  | dataAccessLog
  | userReport
  | accountTombstone
  | accountDeletionToken
  | adminWebauthnChallenge
  | adminWebauthnBootstrap
  | adminSession
  | adminAuthEvent
  | outboxOperatorAction
  | refreshTokenFamily
  | advertisingRewardIntent
  | continuationReservation
  | continuationUsage
  | smsSendAttempt
  | webBillingChallenge
  | webBillingSession
  | billingStoreNotification
  | billingStoreSubscription
  | billingStoreAccount
  | mobileOtpRequest
  | phoneBlocklistObservation
  | phoneBlocklistEntry
  | photoUploadRequest
  deriving DecidableEq

/-- The timestamps that the statements compare. The reservation of a
continuation has the expiry of its match. -/
inductive Column
  | updatedAt
  | expiresAt
  | rotatedAt
  | withdrawnAt
  | completedAt
  | accessedAt
  | resolvedAt
  | consumedAt
  | absoluteExpiresAt
  | revokedAt
  | createdAt
  | weekStart
  | reservedAt
  | processedAt
  | receivedAt
  | nextCheckAt
  | resendAt
  | lastSeenAt
  | decisionUntil
  deriving DecidableEq

inductive Flag
  | isLocationFresh
  | hasRotationResult
  /-- A request that is completed or rejected, a report that is resolved. -/
  | isClosed
  /-- The match of a reservation still waits for a continuation. -/
  | isAwaiting
  | hasUser
  deriving DecidableEq

structure RetainedRow where
  table : RetainedTable
  id : Uuid × Uuid
  time : Column → Option ℤ
  flag : Flag → Bool

namespace RetainedRow

def key (r : RetainedRow) : RetainedTable × Uuid × Uuid := (r.table, r.id)

/-- `column <= limit`, which is not true of a null. -/
def passed (r : RetainedRow) (column : Column) (limit : ℤ) : Bool :=
  (r.time column).any (· ≤ limit)

def isNull (r : RetainedRow) (column : Column) : Bool := (r.time column).isNone

end RetainedRow

/-- The statements of `RETENTION_QUERIES`, in their order, and the purge of
the upload requests. -/
inductive RetentionQuery
  | stalePresences
  | expiredPresences
  | expiredSwipes
  | expiredOtps
  | expiredRefreshTokens
  | expiredNotifications
  | expiredConsents
  | expiredDataSubjectRequests
  | expiredDataAccessLogs
  | expiredReports
  | expiredAccountTombstones
  | expiredAccountDeletionTokens
  | expiredAdminWebauthnChallenges
  | expiredAdminWebauthnBootstraps
  | expiredAdminSessions
  | expiredAdminAuthEvents
  | expiredOutboxOperatorActions
  | expiredMobileSessions
  | expiredRewardIntents
  | expiredContinuationReservations
  | expiredContinuationUsage
  | expiredSmsAttempts
  | expiredWebChallenges
  | expiredWebSessions
  | expiredStoreNotifications
  | expiredStoreSubscriptions
  | expiredStoreAccounts
  | expiredMobileOtpRequests
  | expiredRefreshRecoveries
  | expiredPhoneObservations
  | expiredPhonePolicies
  | expiredUploadRequests
  deriving DecidableEq

namespace RetentionQuery

def table : RetentionQuery → RetainedTable
  | .stalePresences | .expiredPresences => .userPresence
  | .expiredSwipes => .swipeDecision
  | .expiredOtps => .otpVerification
  | .expiredRefreshTokens | .expiredRefreshRecoveries => .refreshTokens
  | .expiredNotifications => .notification
  | .expiredConsents => .userConsent
  | .expiredDataSubjectRequests => .dataSubjectRequest
  | .expiredDataAccessLogs => .dataAccessLog
  | .expiredReports => .userReport
  | .expiredAccountTombstones => .accountTombstone
  | .expiredAccountDeletionTokens => .accountDeletionToken
  | .expiredAdminWebauthnChallenges => .adminWebauthnChallenge
  | .expiredAdminWebauthnBootstraps => .adminWebauthnBootstrap
  | .expiredAdminSessions => .adminSession
  | .expiredAdminAuthEvents => .adminAuthEvent
  | .expiredOutboxOperatorActions => .outboxOperatorAction
  | .expiredMobileSessions => .refreshTokenFamily
  | .expiredRewardIntents => .advertisingRewardIntent
  | .expiredContinuationReservations => .continuationReservation
  | .expiredContinuationUsage => .continuationUsage
  | .expiredSmsAttempts => .smsSendAttempt
  | .expiredWebChallenges => .webBillingChallenge
  | .expiredWebSessions => .webBillingSession
  | .expiredStoreNotifications => .billingStoreNotification
  | .expiredStoreSubscriptions => .billingStoreSubscription
  | .expiredStoreAccounts => .billingStoreAccount
  | .expiredMobileOtpRequests => .mobileOtpRequest
  | .expiredPhoneObservations => .phoneBlocklistObservation
  | .expiredPhonePolicies => .phoneBlocklistEntry
  | .expiredUploadRequests => .photoUploadRequest

/-- The row is past its retention limit: the conditions of the subquery on the
row itself. -/
def due (now : ℤ) (r : RetainedRow) : RetentionQuery → Bool
  | .stalePresences => r.flag .isLocationFresh && r.passed .updatedAt (now - hours 1)
  | .expiredPresences => r.passed .updatedAt (now - hours 24)
  | .expiredRefreshTokens => r.passed .expiresAt now &&
      (!r.flag .hasRotationResult || r.passed .rotatedAt (now - days 7))
  | .expiredConsents => r.passed .withdrawnAt (yearsBefore 5 now)
  | .expiredDataSubjectRequests => r.flag .isClosed && r.passed .completedAt (yearsBefore 5 now)
  | .expiredDataAccessLogs => r.passed .accessedAt (yearsBefore 1 now)
  | .expiredReports => r.flag .isClosed && r.passed .resolvedAt (yearsBefore 3 now)
  | .expiredAdminWebauthnChallenges | .expiredAdminWebauthnBootstraps =>
      !r.isNull .consumedAt || r.passed .expiresAt now
  | .expiredAdminSessions => r.passed .absoluteExpiresAt now || r.passed .revokedAt (now - hours 24)
  | .expiredAdminAuthEvents | .expiredOutboxOperatorActions =>
      r.passed .createdAt (yearsBefore 1 now)
  | .expiredRewardIntents => r.passed .createdAt (now - days 90)
  | .expiredContinuationReservations => !r.flag .isAwaiting || r.passed .expiresAt now
  | .expiredContinuationUsage => (r.time .weekStart).any (· < dateNaive now - 90)
  | .expiredSmsAttempts => r.passed .reservedAt (now - hours 25)
  | .expiredStoreNotifications =>
      r.passed .processedAt (now - days 7) || r.passed .receivedAt (now - days 90)
  | .expiredStoreSubscriptions =>
      r.passed .expiresAt (now - days 400) && r.passed .nextCheckAt now
  | .expiredStoreAccounts => !r.flag .hasUser && r.passed .createdAt (now - days 400)
  | .expiredMobileOtpRequests => r.passed .expiresAt now && r.passed .resendAt now
  | .expiredRefreshRecoveries =>
      r.flag .hasRotationResult && r.passed .rotatedAt (now - days 7)
  | .expiredPhoneObservations => r.passed .lastSeenAt (now - days 180)
  | .expiredPhonePolicies => r.passed .updatedAt (now - days 180) &&
      (r.isNull .decisionUntil || r.passed .decisionUntil now)
  | .expiredSwipes | .expiredOtps | .expiredNotifications | .expiredAccountTombstones
  | .expiredAccountDeletionTokens | .expiredMobileSessions | .expiredWebChallenges
  | .expiredWebSessions | .expiredUploadRequests => r.passed .expiresAt now

/-- The subquery ends in `FOR UPDATE ... SKIP LOCKED`. -/
def locks : RetentionQuery → Bool
  | .expiredRefreshTokens | .expiredContinuationReservations | .expiredRefreshRecoveries
  | .expiredPhoneObservations | .expiredPhonePolicies => true
  | _ => false

/-- What the statement makes of a row; `none` is a deletion. -/
def effect (r : RetainedRow) : RetentionQuery → Option RetainedRow
  | .stalePresences => some { r with flag := fun f ↦ r.flag f && f ≠ .isLocationFresh }
  | .expiredRefreshRecoveries => some { r with flag := fun f ↦ r.flag f && f ≠ .hasRotationResult }
  | _ => none

theorem effect_key {q : RetentionQuery} {r r' : RetainedRow} (h : q.effect r = some r') :
    r'.key = r.key := by
  cases q <;> simp only [effect, Option.some.injEq, reduceCtorEq] at h <;> rw [← h] <;> rfl

end RetentionQuery

/-- A statement between its subquery and its changes. -/
structure Execution where
  query : RetentionQuery
  now : ℤ
  keys : List (RetainedTable × Uuid × Uuid)
  deriving DecidableEq

structure Retention where
  rows : Table RetainedRow.key
  executions : List Execution

inductive RetentionStep
  /-- The subquery, with the rows that its order and limit leave of the due
  ones. -/
  | select (execution : Execution)
  /-- The deletion or the marking of the selected rows. -/
  | change (execution : Execution)
  /-- Another transaction commits a version of a row. -/
  | renew (row : RetainedRow)
  | remove (key : RetainedTable × Uuid × Uuid)

namespace Retention

variable (s : Retention)

def applied (e : Execution) : Table RetainedRow.key where
  rows := s.rows.rows.filterMap fun r ↦ if r.key ∈ e.keys then e.query.effect r else some r
  nodup := by
    refine List.Nodup.sublist ?_ s.rows.nodup
    induction s.rows.rows with
    | nil => exact List.Sublist.refl _
    | cons r rows ih =>
        rw [List.filterMap_cons]
        split
        · exact (ih.cons _)
        · rename_i r' hr'
          have hkey : r'.key = r.key := by
            split at hr'
            · exact RetentionQuery.effect_key hr'
            · rw [Option.some.inj hr']
          rw [List.map_cons, List.map_cons, hkey]
          exact ih.cons_cons _

def next : RetentionStep → Retention
  | .select e => { s with executions := e :: s.executions }
  | .change e => { rows := s.applied e, executions := s.executions.erase e }
  | .renew row =>
      { s with
        rows := ((s.rows.delete fun r ↦ r.key = row.key).insert? row).getD s.rows }
  | .remove key => { s with rows := s.rows.delete fun r ↦ r.key = key }

/-- An open statement has the row under its lock. -/
def Locked (key : RetainedTable × Uuid × Uuid) : Prop :=
  ∃ e ∈ s.executions, e.query.locks = true ∧ key ∈ e.keys

def Enabled : RetentionStep → Prop
  | .select e => (∀ e' ∈ s.executions, e'.query.table ≠ e.query.table) ∧
      ∀ key ∈ e.keys, ∃ r ∈ s.rows, r.key = key ∧ r.table = e.query.table ∧
        e.query.due e.now r = true
  | .change e => e ∈ s.executions
  | .renew row => ¬ s.Locked row.key
  | .remove key => ¬ s.Locked key

end Retention

def retention : System Retention RetentionStep where
  Enabled := Retention.Enabled
  next := Retention.next

/-- A version that is not past its limit is not committed between the subquery
and the changes of a statement that has selected the row without a lock. -/
def RenewedOutside (s : Retention) : RetentionStep → Prop
  | .renew row => ∀ e ∈ s.executions, e.query.locks = false → row.key ∈ e.keys →
      e.query.due e.now row = true
  | _ => True

/-- Every version that a statement changes is past its limit. -/
def ChangesOnlyDue (s : Retention) : RetentionStep → Prop
  | .change e => ∀ r ∈ s.rows, r.key ∈ e.keys → e.query.due e.now r = true
  | _ => True

namespace Retention

variable {s : Retention} {a : RetentionStep}

structure Invariant (s : Retention) : Prop where
  tables : s.executions.Pairwise fun e e' ↦ e.query.table ≠ e'.query.table
  keys : ∀ e ∈ s.executions, ∀ key ∈ e.keys, key.1 = e.query.table
  due : ∀ e ∈ s.executions, ∀ r ∈ s.rows, r.key ∈ e.keys → e.query.due e.now r = true

theorem changesOnlyDue (h : s.Invariant) (ha : s.Enabled a) : ChangesOnlyDue s a := by
  cases a with
  | change e => exact h.due e ha
  | select | renew | remove => trivial

theorem mem_renew {row r : RetainedRow} (h : r ∈ (s.next (.renew row)).rows) :
    r = row ∨ r ∈ s.rows := by
  simp only [next] at h
  cases hinsert : (s.rows.delete fun r ↦ r.key = row.key).insert? row with
  | none =>
      rw [hinsert] at h
      exact Or.inr h
  | some rows =>
      rw [hinsert] at h
      exact ((Table.mem_insert hinsert).mp h).imp id fun hold ↦ (Table.mem_delete.mp hold).1

/-- The changes of one statement leave the rows that another one has selected. -/
theorem mem_change (h : s.Invariant) {e e' : Execution} (he : e ∈ s.executions)
    (he' : e' ∈ s.executions.erase e) {r' : RetainedRow} (hr' : r' ∈ s.applied e)
    (hkey : r'.key ∈ e'.keys) : r' ∈ s.rows := by
  obtain ⟨r, hr, hresult⟩ := List.mem_filterMap.mp hr'
  split at hresult
  · rename_i hselected
    have hsame := RetentionQuery.effect_key hresult
    have htable := h.keys e he r.key hselected
    have htable' := h.keys e' (List.mem_of_mem_erase he') r'.key hkey
    have hne : e'.query.table ≠ e.query.table := by
      have hpairwise := (List.perm_cons_erase he).pairwise_iff
        (R := fun e e' : Execution ↦ e.query.table ≠ e'.query.table) (fun hne ↦ Ne.symm hne)
      exact ((List.pairwise_cons.mp (hpairwise.mp h.tables)).1 e' he').symm
    exact absurd (htable'.symm.trans ((congrArg Prod.fst hsame).trans htable)) hne
  · obtain rfl := Option.some.inj hresult
    exact hr

theorem Invariant.next (h : s.Invariant) (ha : s.Enabled a) (houtside : RenewedOutside s a) :
    (s.next a).Invariant := by
  cases a with
  | select e =>
      obtain ⟨htables, hkeys⟩ := ha
      refine ⟨List.pairwise_cons.mpr ⟨fun e' he' ↦ (htables e' he').symm, h.tables⟩, ?_, ?_⟩
      · intro e' he' key hkey
        rcases List.mem_cons.mp he' with rfl | hold
        · obtain ⟨r, -, rfl, htable, -⟩ := hkeys key hkey
          exact htable
        · exact h.keys e' hold key hkey
      · intro e' he' r hr hkey
        rcases List.mem_cons.mp he' with rfl | hold
        · obtain ⟨r₀, hr₀, hsame, -, hdue⟩ := hkeys r.key hkey
          obtain rfl := Table.eq_of_key_eq hr₀ hr hsame
          exact hdue
        · exact h.due e' hold r hr hkey
  | change e =>
      refine ⟨h.tables.sublist List.erase_sublist, ?_, ?_⟩
      · exact fun e' he' ↦ h.keys e' (List.mem_of_mem_erase he')
      · intro e' he' r hr hkey
        exact h.due e' (List.mem_of_mem_erase he') r (mem_change h ha he' hr hkey) hkey
  | renew row =>
      refine ⟨h.tables, h.keys, ?_⟩
      intro e he r hr hkey
      rcases mem_renew hr with rfl | hold
      · cases hlocks : e.query.locks with
        | true => exact absurd ⟨e, he, hlocks, hkey⟩ ha
        | false => exact houtside e he hlocks hkey
      · exact h.due e he r hold hkey
  | remove key =>
      refine ⟨h.tables, h.keys, ?_⟩
      exact fun e he r hr ↦ h.due e he r (Table.mem_delete.mp hr).1

/-- Retention changes only what is past its limit, in every run that renews no
row between the selection and the changes of a statement without locks. -/
theorem retention_changes_only_due {s₀ : Retention} {steps : List RetentionStep}
    (h₀ : s₀.executions = []) (h : retention.Valid s₀ steps)
    (houtside : retention.Along RenewedOutside s₀ steps) :
    retention.Along ChangesOnlyDue s₀ steps := by
  have hinvariant : s₀.Invariant := by
    refine ⟨?_, ?_, ?_⟩ <;> simp [h₀]
  clear h₀
  induction steps generalizing s₀ with
  | nil => trivial
  | cons a steps ih =>
      exact ⟨changesOnlyDue hinvariant h.1, ih h.2 houtside.2 (hinvariant.next h.1 houtside.1)⟩

section Samples

/-- A swipe made thirty days before its expiry. -/
def sampleSwipe (expiresAt : ℤ) : RetainedRow where
  table := .swipeDecision
  id := (1, 2)
  time c := if c = .expiresAt then some expiresAt else none
  flag _ := false

def sampleRetention : Retention := ⟨⟨[sampleSwipe 10], by simp⟩, []⟩

def samplePurge : Execution := ⟨.expiredSwipes, 20, [(.swipeDecision, 1, 2)]⟩

/-- The users swipe again after the subquery. -/
def renewedInside : List RetentionStep :=
  [.select samplePurge, .renew (sampleSwipe (15 + days 30)), .change samplePurge]

/-- The users swipe again after the purge. -/
def renewedAfter : List RetentionStep :=
  [.select samplePurge, .change samplePurge, .renew (sampleSwipe (25 + days 30))]

theorem renewed_swipe_is_deleted :
    retention.Valid sampleRetention renewedInside ∧
    ¬ retention.Along ChangesOnlyDue sampleRetention renewedInside := by
  refine ⟨⟨⟨by simp [sampleRetention], ?_⟩, ?_, by simp [retention, next, Enabled], trivial⟩, ?_⟩
  · intro key hkey
    obtain rfl := List.mem_singleton.mp hkey
    exact ⟨sampleSwipe 10, List.mem_singleton_self _, rfl, rfl, by decide⟩
  · rintro ⟨e, he, hlocks, -⟩
    obtain rfl : e = samplePurge := by simpa [retention, next, sampleRetention] using he
    exact absurd hlocks (by decide)
  · rintro ⟨-, -, hchange, -⟩
    have hdue := hchange (sampleSwipe (15 + days 30)) List.mem_cons_self (by decide)
    exact absurd hdue (by decide)

theorem retention_changes_only_due_renewedAfter :
    retention.Along ChangesOnlyDue sampleRetention renewedAfter := by
  refine retention_changes_only_due rfl ⟨⟨by simp [sampleRetention], ?_⟩,
    by simp [retention, next, Enabled], ?_, trivial⟩ ⟨trivial, trivial, ?_, trivial⟩
  · intro key hkey
    obtain rfl := List.mem_singleton.mp hkey
    exact ⟨sampleSwipe 10, List.mem_singleton_self _, rfl, rfl, by decide⟩
  · rintro ⟨e, he, -⟩
    exact absurd he (by simp [retention, next, sampleRetention])
  · intro e he
    exact absurd he (by simp [retention, next, sampleRetention])

end Samples

end Retention

end Histae.Privacy
