import Histae.Relational.Cascade
import Histae.Shared.Time

/-!
# The personal tables and the transactions of an erasure

The tables are transcribed from the schema: the columns that hold an account,
the foreign keys with `ON DELETE CASCADE`, the foreign keys to `user_account`
and the triggers `trg_live_*`. An acceptance and the last transaction of an
erasure are lists of statements; each deletion takes along what references
the deleted rows. After the last transaction no row of these tables names its
user, whichever of the statements or of the cascades removed it.
-/

namespace Histae.Privacy

open Relational

inductive PersonalTable
  | profile
  | profileAnswer
  | photo
  | photoUploadRequest
  | moderationCase
  | preferences
  | trait
  | presence
  | swipeDecision
  | refreshTokenFamily
  | refreshToken
  | adminBootstrap
  | adminCredential
  | adminSession
  | deviceToken
  | notification
  | notificationPreference
  | matchNotificationPreference
  | block
  | subscription
  | complimentaryGrant
  | webBillingSession
  | webBillingChallenge
  | continuationWallet
  | continuationUsage
  | continuationReservation
  | rewardIntent
  | matchInit
  | matchState
  | billingCustomer
  | checkoutSession
  | storeSubscription
  | storeAccount
  | invoice
  deriving DecidableEq

inductive PersonalColumn
  | id
  | userId
  | requestedUserId
  | blockerId
  | blockedId
  | actorId
  | targetId
  | user1Id
  | user2Id
  | bioUserId
  | reviewedBy
  | grantedBy
  | matchId
  | familyId
  | sessionId
  | photoId
  | profileAnswerId
  | credentialId
  deriving DecidableEq

/-- The columns with the accounts that a row is about. The administrator in
`reviewed_by` or `granted_by` is not one of them. -/
def PersonalTable.userColumns : PersonalTable → List PersonalColumn
  | .profile | .profileAnswer | .photo | .photoUploadRequest | .preferences | .trait | .presence
  | .refreshTokenFamily | .refreshToken | .adminBootstrap | .adminCredential | .adminSession
  | .deviceToken | .notification | .notificationPreference | .matchNotificationPreference
  | .subscription | .complimentaryGrant | .webBillingSession | .continuationWallet
  | .continuationUsage | .continuationReservation | .rewardIntent | .matchState
  | .billingCustomer | .checkoutSession | .storeSubscription | .storeAccount
  | .invoice => [.userId]
  | .moderationCase => [.userId, .bioUserId]
  | .swipeDecision => [.actorId, .targetId]
  | .block => [.blockerId, .blockedId]
  | .webBillingChallenge => [.userId, .requestedUserId]
  | .matchInit => [.user1Id, .user2Id]

/-- The `NOT NULL` column of the one key with a second column that no statement
of the erasure reads. -/
def PersonalTable.required (t : PersonalTable) : List PersonalColumn :=
  if t = .matchNotificationPreference then [.matchId] else []

/-- The columns of a row that are not null. -/
structure PersonalRow where
  table : PersonalTable
  columns : List (PersonalColumn × Uuid)
  deriving DecidableEq

namespace PersonalRow

def column (r : PersonalRow) (c : PersonalColumn) : Option Uuid :=
  (r.columns.find? fun p ↦ p.1 = c).map Prod.snd

def names (r : PersonalRow) (columns : List PersonalColumn) (userId : Uuid) : Bool :=
  columns.any fun c ↦ r.column c = some userId

def users (r : PersonalRow) : List Uuid := r.table.userColumns.filterMap r.column

def unlink (r : PersonalRow) : PersonalRow :=
  { r with columns := r.columns.filter fun p ↦ p.1 ≠ .userId }

/-- The id of a photo or an answer is drawn once and stands for one user, its
`owner`. -/
def OwnedBy (owner : Uuid → Uuid) (c : PersonalColumn) (r : PersonalRow) : Prop :=
  r.column c ≠ none ∧ r.column .userId = (r.column c).map owner

instance (owner : Uuid → Uuid) (c : PersonalColumn) (r : PersonalRow) :
    Decidable (r.OwnedBy owner c) := inferInstanceAs (Decidable (_ ∧ _))

/-- What the schema and the inserting statements promise about a row. A case is
about one content of its user, by `chk_content_moderation_source`. -/
def WellFormed (owner : Uuid → Uuid) (r : PersonalRow) : Prop :=
  (r.table = .photo ∨ r.table = .profileAnswer → r.OwnedBy owner .id) ∧
  (r.table = .moderationCase → r.column .bioUserId = r.column .userId ∨
    r.OwnedBy owner .photoId ∨ r.OwnedBy owner .profileAnswerId) ∧
  (∀ c ∈ r.table.required, r.column c ≠ none)

instance (owner : Uuid → Uuid) (r : PersonalRow) : Decidable (r.WellFormed owner) :=
  inferInstanceAs (Decidable (_ ∧ _ ∧ _))

end PersonalRow

structure ForeignKey where
  child : PersonalTable
  columns : List (PersonalColumn × PersonalColumn)
  parent : PersonalTable
  deriving DecidableEq

/-- A key with a null column is not checked. -/
def ForeignKey.satisfied (k : ForeignKey) (rows : List PersonalRow) (r : PersonalRow) : Bool :=
  k.child ≠ r.table || k.columns.any (fun c ↦ (r.column c.1).isNone) ||
    rows.any fun p ↦ p.table = k.parent && k.columns.all fun c ↦ p.column c.2 = r.column c.1

/-- The foreign keys with `ON DELETE CASCADE` between these tables. -/
def foreignKeys : List ForeignKey :=
  [⟨.refreshToken, [(.familyId, .id), (.userId, .userId)], .refreshTokenFamily⟩,
    ⟨.deviceToken, [(.sessionId, .id), (.userId, .userId)], .refreshTokenFamily⟩,
    ⟨.profileAnswer, [(.userId, .userId)], .profile⟩,
    ⟨.photo, [(.userId, .userId)], .profile⟩,
    ⟨.photoUploadRequest, [(.userId, .userId)], .profile⟩,
    ⟨.moderationCase, [(.bioUserId, .userId)], .profile⟩,
    ⟨.moderationCase, [(.photoId, .id)], .photo⟩,
    ⟨.moderationCase, [(.profileAnswerId, .id)], .profileAnswer⟩,
    ⟨.matchState, [(.matchId, .id)], .matchInit⟩,
    ⟨.matchNotificationPreference, [(.matchId, .matchId), (.userId, .userId)], .matchState⟩,
    ⟨.continuationReservation, [(.matchId, .id)], .matchInit⟩,
    ⟨.adminSession, [(.credentialId, .id)], .adminCredential⟩]

def orphan (rows : List PersonalRow) (r : PersonalRow) : Bool :=
  !foreignKeys.all fun k ↦ k.satisfied rows r

/-- The foreign keys to `user_account`. The insertion of a row locks the
accounts in these columns for key share. -/
def accountKeys : List (PersonalTable × List PersonalColumn) :=
  [(.profile, [.userId]), (.moderationCase, [.userId]), (.preferences, [.userId]),
    (.trait, [.userId]), (.presence, [.userId]), (.swipeDecision, [.actorId, .targetId]),
    (.refreshTokenFamily, [.userId]), (.refreshToken, [.userId]), (.adminBootstrap, [.userId]),
    (.adminCredential, [.userId]), (.adminSession, [.userId]), (.deviceToken, [.userId]),
    (.notification, [.userId]), (.notificationPreference, [.userId]),
    (.block, [.blockerId, .blockedId]), (.subscription, [.userId]),
    (.complimentaryGrant, [.userId]), (.webBillingSession, [.userId]),
    (.webBillingChallenge, [.userId]), (.continuationWallet, [.userId]),
    (.continuationUsage, [.userId]), (.continuationReservation, [.userId]),
    (.rewardIntent, [.userId]), (.matchInit, [.user1Id, .user2Id]), (.matchState, [.userId]),
    (.billingCustomer, [.userId]), (.checkoutSession, [.userId]), (.storeSubscription, [.userId]),
    (.storeAccount, [.userId]), (.invoice, [.userId])]

/-- The triggers that call `fct_require_live_account`, with its arguments. They
lock these accounts for share and fail when one is deleted. Inserted photos
are never `deleting`, and inserted customers never deleted. -/
def liveTriggers : List (PersonalTable × List PersonalColumn) :=
  [(.profileAnswer, [.userId]), (.billingCustomer, [.userId]), (.block, [.blockerId, .blockedId]),
    (.checkoutSession, [.userId]), (.deviceToken, [.userId]), (.matchInit, [.user1Id, .user2Id]),
    (.moderationCase, [.userId]), (.notification, [.userId]), (.photo, [.userId]),
    (.photoUploadRequest, [.userId]), (.preferences, [.userId]), (.presence, [.userId]),
    (.profile, [.userId]), (.subscription, [.userId]), (.trait, [.userId]),
    (.swipeDecision, [.actorId, .targetId]), (.continuationWallet, [.userId]),
    (.rewardIntent, [.userId]), (.complimentaryGrant, [.userId])]

def keyColumns (t : PersonalTable) : List PersonalColumn :=
  (accountKeys.filter fun k ↦ k.1 = t).flatMap Prod.snd

def liveColumns (t : PersonalTable) : List PersonalColumn :=
  (liveTriggers.filter fun k ↦ k.1 = t).flatMap Prod.snd

/-- A statement about the user `$1` of an erasure. -/
inductive PersonalStatement
  /-- A `SELECT 1` whose rows make the transaction fail. -/
  | requireNone (table : PersonalTable) (columns : List PersonalColumn)
  | delete (table : PersonalTable) (columns : List PersonalColumn)
  /-- A deletion by `user_id = $1 OR match_id IN` the matches of the user. -/
  | deleteOfMatches (table : PersonalTable)
  /-- `UPDATE … SET user_id = NULL WHERE user_id = $1`. -/
  | unlink (table : PersonalTable)
  deriving DecidableEq

namespace PersonalStatement

def table : PersonalStatement → PersonalTable
  | .requireNone table _ | .delete table _ | .deleteOfMatches table | .unlink table => table

def columns : PersonalStatement → List PersonalColumn
  | .requireNone _ columns | .delete _ columns => columns
  | .deleteOfMatches _ | .unlink _ => [.userId]

def ofMatches (userId : Uuid) (rows : List PersonalRow) (r : PersonalRow) : Bool :=
  rows.any fun m ↦ m.table = .matchInit && m.names [.user1Id, .user2Id] userId &&
    m.column .id = r.column .matchId

def selects (userId : Uuid) (rows : List PersonalRow) (r : PersonalRow) :
    PersonalStatement → Bool
  | .deleteOfMatches table =>
      r.table = table && (r.names [.userId] userId || ofMatches userId rows r)
  | statement => r.table = statement.table && r.names statement.columns userId

def execute (userId : Uuid) (rows : List PersonalRow) :
    PersonalStatement → Option (List PersonalRow)
  | .requireNone table columns =>
      if rows.any fun r ↦ (requireNone table columns).selects userId rows r then none else some rows
  | .unlink table =>
      some (rows.map fun r ↦ if (unlink table).selects userId rows r then r.unlink else r)
  | statement =>
      some (cascade orphan (rows.filter fun r ↦ !statement.selects userId rows r))

def executeAll (userId : Uuid) : List PersonalStatement → List PersonalRow →
    Option (List PersonalRow)
  | [], rows => some rows
  | statement :: rest, rows => (statement.execute userId rows).bind (executeAll userId rest)

end PersonalStatement

def fctEraseMobileSessions : List PersonalStatement := [.delete .refreshTokenFamily [.userId]]

def fctEraseNotifications : List PersonalStatement := [.delete .notification [.userId]]

def fctCleanupBillingIdentity : List PersonalStatement :=
  [.unlink .invoice, .delete .checkoutSession [.userId], .delete .billingCustomer [.userId]]

/-- The triggers on `deleted_at`. -/
def onDeleted : List PersonalStatement := fctEraseMobileSessions ++ fctEraseNotifications

/-- Its last statement sets `anonymized_at` and `deleted_at`, and fires their
triggers. -/
def fctAnonymizeUser : List PersonalStatement :=
  [.delete .profile [.userId],
    .delete .preferences [.userId],
    .delete .trait [.userId],
    .delete .presence [.userId],
    .delete .refreshToken [.userId],
    .delete .deviceToken [.userId],
    .delete .notificationPreference [.userId],
    .delete .notification [.userId],
    .delete .block [.blockerId, .blockedId],
    .delete .subscription [.userId],
    .delete .complimentaryGrant [.userId],
    .delete .webBillingSession [.userId],
    .delete .webBillingChallenge [.userId, .requestedUserId],
    .unlink .storeSubscription,
    .unlink .storeAccount,
    .deleteOfMatches .continuationReservation,
    .delete .rewardIntent [.userId],
    .delete .continuationWallet [.userId],
    .delete .continuationUsage [.userId],
    .delete .matchState [.userId]] ++ fctCleanupBillingIdentity ++ onDeleted

/-- What `advance` to `Completed` does to the personal tables. -/
def advanceCompleted : List PersonalStatement :=
  [.requireNone .photo [.userId],
    .requireNone .swipeDecision [.actorId, .targetId],
    .delete .photoUploadRequest [.userId],
    .delete .adminSession [.userId],
    .delete .adminBootstrap [.userId],
    .delete .adminCredential [.userId]] ++ fctAnonymizeUser

/-- One of the statements selects the rows that name the user in the column. -/
def covered (t : PersonalTable) (c : PersonalColumn) : Bool :=
  advanceCompleted.any fun statement ↦ statement.table = t && statement.columns.contains c

/-- A foreign key binds the column to a column that a condition holds of, and
its other columns are not null. -/
def inherited (P : PersonalTable → PersonalColumn → Bool) (t : PersonalTable)
    (c : PersonalColumn) : Bool :=
  foreignKeys.any fun k ↦ k.child = t && (k.columns.all fun p ↦ p.1 = c || t.required.contains p.1) &&
    k.columns.any fun p ↦ p.1 = c && P k.parent p.2

namespace PersonalRow

variable {r : PersonalRow} {c : PersonalColumn} {userId v : Uuid}

@[simp] theorem table_unlink : r.unlink.table = r.table := rfl

theorem column_unlink : r.unlink.column c = if c = .userId then none else r.column c := by
  by_cases hc : c = .userId
  · subst hc
    simp [column, unlink, List.find?_filter]
  · have hsame : (fun p : PersonalColumn × Uuid ↦ !decide (p.1 = .userId) && decide (p.1 = c)) =
        fun p ↦ decide (p.1 = c) := by
      funext p
      by_cases hp : p.1 = c <;> simp [hp, hc]
    simp [column, unlink, List.find?_filter, hsame, hc]

theorem mem_users : v ∈ r.users ↔ ∃ c ∈ r.table.userColumns, r.column c = some v := by
  simp [users, List.mem_filterMap]

theorem names_eq_true {columns : List PersonalColumn} :
    r.names columns userId = true ↔ ∃ c ∈ columns, r.column c = some userId := by
  simp [names]

@[simp] theorem unlink_unlink : r.unlink.unlink = r.unlink := by
  simp [unlink, List.filter_filter]

theorem names_unlink {columns : List PersonalColumn} (h : r.names columns userId = false) :
    r.unlink.names columns userId = false := by
  simp only [names, List.any_eq_false, decide_eq_true_eq] at h ⊢
  intro c hc hv
  rw [column_unlink] at hv
  split at hv
  · exact absurd hv (by simp)
  · exact h c hc hv

theorem users_unlink (h : v ∈ r.unlink.users) : v ∈ r.users := by
  obtain ⟨c, hc, hv⟩ := mem_users.mp h
  rw [column_unlink] at hv
  split at hv
  · exact absurd hv (by simp)
  · exact mem_users.mpr ⟨c, hc, hv⟩

end PersonalRow

theorem orphan_mono {rows rows' : List PersonalRow} {r : PersonalRow} (h : orphan rows r = false)
    (hsub : ∀ p ∈ rows, p ∈ rows') : orphan rows' r = false := by
  simp only [orphan, Bool.not_eq_false', List.all_eq_true] at h ⊢
  intro k hk
  have hsat := h k hk
  simp only [ForeignKey.satisfied, Bool.or_eq_true, List.any_eq_true] at hsat ⊢
  rcases hsat with hfree | ⟨p, hp, hmatch⟩
  · exact .inl hfree
  · exact .inr ⟨p, hsub p hp, hmatch⟩

/-- The referenced row of a row that is not an orphan. -/
theorem exists_parent {rows : List PersonalRow} {r : PersonalRow} {k : ForeignKey}
    (h : orphan rows r = false) (hk : k ∈ foreignKeys) (hchild : k.child = r.table)
    (hnull : ∀ p ∈ k.columns, r.column p.1 ≠ none) :
    ∃ q ∈ rows, q.table = k.parent ∧ ∀ p ∈ k.columns, q.column p.2 = r.column p.1 := by
  simp only [orphan, Bool.not_eq_false', List.all_eq_true] at h
  have hsat := h k hk
  simp only [ForeignKey.satisfied, Bool.or_eq_true, List.any_eq_true, Bool.and_eq_true,
    decide_eq_true_eq, List.all_eq_true] at hsat
  rcases hsat with (hother | ⟨p, hp, hnone⟩) | hparent
  · exact absurd hchild (by simpa using hother)
  · exact absurd (Option.isNone_iff_eq_none.mp hnone) (hnull p hp)
  · exact hparent

theorem exists_parent_single {rows : List PersonalRow} {r : PersonalRow} {t : PersonalTable}
    {c d : PersonalColumn} {v : Uuid} (h : orphan rows r = false)
    (hk : ⟨r.table, [(c, d)], t⟩ ∈ foreignKeys) (hc : r.column c = some v) :
    ∃ q ∈ rows, q.table = t ∧ q.column d = some v := by
  obtain ⟨q, hq, htable, hcolumns⟩ := exists_parent h hk rfl (by simp [hc])
  exact ⟨q, hq, htable, by rw [hcolumns (c, d) (by simp), hc]⟩

namespace PersonalStatement

variable {userId : Uuid} {rows out : List PersonalRow} {statement : PersonalStatement}
  {statements : List PersonalStatement} {r : PersonalRow}

/-- A row that a statement leaves was there, with an account or without. -/
theorem mem_execute (h : statement.execute userId rows = some out) (hr : r ∈ out) :
    r ∈ rows ∨ ∃ q ∈ rows, statement = .unlink q.table ∧ r = q.unlink := by
  cases statement with
  | requireNone table columns =>
      simp only [execute] at h
      split at h
      · exact absurd h (by simp)
      · exact .inl (Option.some.inj h ▸ hr)
  | unlink table =>
      obtain rfl := Option.some.inj h
      obtain ⟨q, hq, rfl⟩ := List.mem_map.mp hr
      split
      · rename_i hselects
        simp only [selects, Bool.and_eq_true, decide_eq_true_eq] at hselects
        exact .inr ⟨q, hq, by rw [hselects.1]; rfl, rfl⟩
      · exact .inl hq
  | delete table columns =>
      obtain rfl := Option.some.inj h
      exact .inl (List.mem_of_mem_filter (mem_of_mem_cascade hr))
  | deleteOfMatches table =>
      obtain rfl := Option.some.inj h
      exact .inl (List.mem_of_mem_filter (mem_of_mem_cascade hr))

theorem selects_of_names (htable : r.table = statement.table)
    (hnames : r.names statement.columns userId = true) :
    statement.selects userId rows r = true := by
  cases statement <;> simp_all [selects, table, columns]

/-- After a statement no row of its table names the user in its columns. -/
theorem names_of_mem_execute (h : statement.execute userId rows = some out) (hr : r ∈ out)
    (htable : r.table = statement.table) : r.names statement.columns userId = false := by
  by_contra hnames
  have hselects : statement.selects userId rows r = true :=
    selects_of_names htable (by simpa using hnames)
  cases statement with
  | requireNone table columns =>
      simp only [execute] at h
      split at h
      · exact absurd h (by simp)
      · rename_i hany
        obtain rfl := Option.some.inj h
        exact hany (List.any_eq_true.mpr ⟨r, hr, hselects⟩)
  | unlink table =>
      obtain rfl := Option.some.inj h
      obtain ⟨q, hq, rfl⟩ := List.mem_map.mp hr
      split at hnames
      · exact hnames (by simp [PersonalRow.names, columns, PersonalRow.column_unlink])
      · rename_i hnot
        rw [if_neg hnot] at hselects
        exact hnot hselects
  | delete table columns =>
      obtain rfl := Option.some.inj h
      have hkept := (List.mem_filter.mp (mem_of_mem_cascade hr)).2
      simp [hselects] at hkept
  | deleteOfMatches table =>
      obtain rfl := Option.some.inj h
      have hkept := (List.mem_filter.mp (mem_of_mem_cascade hr)).2
      have hgone : (deleteOfMatches table).selects userId rows r = true :=
        selects_of_names htable (by simpa using hnames)
      simp [hgone] at hkept

/-- What every statement of a list preserves holds after all of them. -/
theorem executeAll_induction {I : List PersonalRow → Prop}
    (h : executeAll userId statements rows = some out) (hrows : I rows)
    (hstep : ∀ statement ∈ statements, ∀ before after, I before →
      statement.execute userId before = some after → I after) : I out := by
  induction statements generalizing rows with
  | nil => exact Option.some.inj h ▸ hrows
  | cons statement rest ih =>
      obtain ⟨after, hafter, hrest⟩ := Option.bind_eq_some_iff.mp h
      refine ih hrest (hstep statement (by simp) rows after hrows hafter) ?_
      exact fun st hst ↦ hstep st (List.mem_cons_of_mem _ hst)

theorem mem_executeAll (h : executeAll userId statements rows = some out) :
    ∀ r ∈ out, ∃ q ∈ rows, r = q ∨ .unlink q.table ∈ statements ∧ r = q.unlink := by
  refine executeAll_induction (I := fun before ↦ ∀ r ∈ before, ∃ q ∈ rows,
    r = q ∨ .unlink q.table ∈ statements ∧ r = q.unlink) h (fun r hr ↦ ⟨r, hr, .inl rfl⟩) ?_
  intro statement hmem before after hbefore hexecute r hr
  rcases mem_execute hexecute hr with hold | ⟨q', hq', rfl, rfl⟩
  · exact hbefore r hold
  · obtain ⟨q, hq, rfl | ⟨hunlink, rfl⟩⟩ := hbefore q' hq'
    · exact ⟨q', hq, .inr ⟨hmem, rfl⟩⟩
    · exact ⟨q, hq, .inr ⟨hunlink, PersonalRow.unlink_unlink⟩⟩

/-- A list of statements names no user that was not named before. -/
theorem users_executeAll (h : executeAll userId statements rows = some out) (hr : r ∈ out) :
    ∃ q ∈ rows, r.table = q.table ∧ ∀ v ∈ r.users, v ∈ q.users := by
  obtain ⟨q, hq, rfl | ⟨-, rfl⟩⟩ := mem_executeAll h r hr
  · exact ⟨r, hq, rfl, fun v hv ↦ hv⟩
  · exact ⟨q, hq, rfl, fun v hv ↦ PersonalRow.users_unlink hv⟩

theorem names_of_mem_executeAll (h : executeAll userId statements rows = some out)
    (hmem : statement ∈ statements) (hr : r ∈ out) (htable : r.table = statement.table) :
    r.names statement.columns userId = false := by
  induction statements generalizing rows with
  | nil => exact absurd hmem List.not_mem_nil
  | cons head rest ih =>
      obtain ⟨after, hafter, hrest⟩ := Option.bind_eq_some_iff.mp h
      rcases List.mem_cons.mp hmem with rfl | hlater
      · obtain ⟨q, hq, rfl | ⟨-, rfl⟩⟩ := mem_executeAll hrest r hr
        · exact names_of_mem_execute hafter hq htable
        · exact PersonalRow.names_unlink (names_of_mem_execute hafter hq htable)
      · exact ih hrest hlater

theorem executeAll_append {first second : List PersonalStatement} :
    executeAll userId (first ++ second) rows =
      (executeAll userId first rows).bind (executeAll userId second) := by
  induction first generalizing rows with
  | nil => rfl
  | cons statement rest ih =>
      simp only [List.cons_append, executeAll, Option.bind_assoc]
      congr 1
      funext after
      exact ih

/-- A list that ends in a deletion leaves no orphan. -/
theorem closed_executeAll {t : PersonalTable} {cs : List PersonalColumn}
    (h : executeAll userId (statements ++ [.delete t cs]) rows = some out) :
    Closed orphan out := by
  rw [executeAll_append] at h
  obtain ⟨before, -, hlast⟩ := Option.bind_eq_some_iff.mp h
  obtain ⟨after, hafter, hnil⟩ := Option.bind_eq_some_iff.mp hlast
  obtain rfl := Option.some.inj hnil
  obtain rfl := Option.some.inj hafter
  exact closed_cascade

end PersonalStatement

section Completed

variable {owner : Uuid → Uuid} {userId : Uuid} {rows out : List PersonalRow} {r : PersonalRow}
  {c : PersonalColumn}

/-- No statement of an erasure changes a row whose form is constrained. -/
theorem PersonalRow.WellFormed.executeAll {statements : List PersonalStatement}
    (hstatements : statements ⊆ advanceCompleted)
    (h : PersonalStatement.executeAll userId statements rows = some out)
    (hrows : ∀ q ∈ rows, q.WellFormed owner) : ∀ r ∈ out, r.WellFormed owner := by
  intro r hr
  obtain ⟨q, hq, rfl | ⟨hunlink, rfl⟩⟩ := PersonalStatement.mem_executeAll h r hr
  · exact hrows r hq
  · have hfree : ∀ t, PersonalStatement.unlink t ∈ advanceCompleted →
        t = .storeSubscription ∨ t = .storeAccount ∨ t = .invoice := by
      intro t
      cases t <;> decide
    rcases hfree q.table (hstatements hunlink) with htable | htable | htable <;>
      simp [PersonalRow.WellFormed, PersonalTable.required, htable]

/-- A foreign key carries the account of a row to the referenced row. -/
theorem exists_parent_of_inherited {P : PersonalTable → PersonalColumn → Bool}
    (hwf : r.WellFormed owner) (hclosed : orphan rows r = false)
    (h : inherited P r.table c = true) (hc : r.column c = some userId) :
    ∃ q ∈ rows, ∃ c', P q.table c' = true ∧ q.column c' = some userId := by
  simp only [inherited, List.any_eq_true, List.all_eq_true, Bool.and_eq_true, Bool.or_eq_true,
    decide_eq_true_eq, List.contains_iff_mem] at h
  obtain ⟨k, hk, ⟨hchild, hothers⟩, p, hp, rfl, hparent⟩ := h
  have hnull : ∀ p' ∈ k.columns, r.column p'.1 ≠ none := by
    intro p' hp'
    rcases hothers p' hp' with hsame | hrequired
    · rw [hsame, hc]
      exact Option.some_ne_none _
    · exact hwf.2.2 p'.1 hrequired
  obtain ⟨q, hq, htable, hcolumns⟩ := exists_parent hclosed hk hchild hnull
  exact ⟨q, hq, p.2, htable ▸ hparent, by rw [hcolumns p hp, hc]⟩

theorem column_ne_of_covered
    (h : PersonalStatement.executeAll userId advanceCompleted rows = some out) (hr : r ∈ out)
    (hcovered : covered r.table c = true) : r.column c ≠ some userId := by
  simp only [covered, List.any_eq_true, Bool.and_eq_true, decide_eq_true_eq,
    List.contains_iff_mem] at hcovered
  obtain ⟨statement, hmem, htable, hcolumn⟩ := hcovered
  intro hnamed
  have hnames : r.names statement.columns userId = true :=
    PersonalRow.names_eq_true.mpr ⟨c, hcolumn, hnamed⟩
  simp [PersonalStatement.names_of_mem_executeAll h hmem hr htable.symm] at hnames

theorem closed_advanceCompleted
    (h : PersonalStatement.executeAll userId advanceCompleted rows = some out) :
    Closed orphan out := by
  have hsplit : advanceCompleted =
      advanceCompleted.dropLast ++ [.delete .notification [.userId]] := rfl
  rw [hsplit] at h
  exact PersonalStatement.closed_executeAll h

/-- A case names the user through its content, everything else through a
statement or the parent of a key. -/
theorem covered_or_inherited (t : PersonalTable) (htable : t ≠ .matchInit) :
    ∀ c ∈ t.userColumns, covered t c = true ∨ inherited covered t c = true ∨
      t = .moderationCase ∧ c = .userId := by
  cases t <;> first | exact absurd rfl htable | decide

theorem PersonalRow.OwnedBy.owner_eq {id : Uuid} (h : r.OwnedBy owner c)
    (hid : r.column c = some id) : r.column .userId = some (owner id) := by
  rw [h.2, hid]
  rfl

/-- After the last transaction of an erasure no row names its user. A match
keeps its two accounts. -/
theorem notMem_users_of_completed
    (h : PersonalStatement.executeAll userId advanceCompleted rows = some out)
    (hrows : ∀ q ∈ rows, q.WellFormed owner) (hr : r ∈ out) (htable : r.table ≠ .matchInit) :
    userId ∉ r.users := by
  have hwf := PersonalRow.WellFormed.executeAll (fun _ hst ↦ hst) h hrows
  have hclosed := closed_advanceCompleted h
  have hparent : ∀ q ∈ out, ∀ c, inherited covered q.table c = true →
      q.column c ≠ some userId := by
    intro q hq c hinherited hc
    obtain ⟨p, hp, c', hcovered, hc'⟩ :=
      exists_parent_of_inherited (hwf q hq) (hclosed q hq) hinherited hc
    exact column_ne_of_covered h hp hcovered hc'
  intro hmem
  obtain ⟨c, hcolumn, hc⟩ := PersonalRow.mem_users.mp hmem
  rcases covered_or_inherited r.table htable c hcolumn with
    hcovered | hinherited | ⟨hcase, rfl⟩
  · exact column_ne_of_covered h hr hcovered hc
  · exact hparent r hr c hinherited hc
  · rcases (hwf r hr).2.1 hcase with hbio | hphoto | hanswer
    · exact hparent r hr .bioUserId (by rw [hcase]; decide) (hbio.trans hc)
    · obtain ⟨id, hid⟩ := Option.ne_none_iff_exists'.mp hphoto.1
      obtain ⟨q, hq, hcontent, hqid⟩ :=
        exists_parent_single (t := .photo) (d := .id) (hclosed r hr) (by rw [hcase]; decide) hid
      have howned : q.OwnedBy owner .id := (hwf q hq).1 (.inl hcontent)
      refine column_ne_of_covered h hq (c := .userId) (by rw [hcontent]; decide) ?_
      rw [howned.owner_eq hqid, ← PersonalRow.OwnedBy.owner_eq hphoto hid, hc]
    · obtain ⟨id, hid⟩ := Option.ne_none_iff_exists'.mp hanswer.1
      obtain ⟨q, hq, hcontent, hqid⟩ :=
        exists_parent_single (t := .profileAnswer) (d := .id) (hclosed r hr)
          (by rw [hcase]; decide) hid
      have howned : q.OwnedBy owner .id := (hwf q hq).1 (.inr hcontent)
      refine hparent q hq .userId (by rw [hcontent]; decide) ?_
      rw [howned.owner_eq hqid, ← PersonalRow.OwnedBy.owner_eq hanswer hid, hc]

end Completed

end Histae.Privacy
