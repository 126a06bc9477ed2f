import Histae.Privacy.PersonalTables
import Histae.Systems.Run

/-!
# Erasures among the writers of personal data

A writer is the part of a transaction that checks an account and inserts
personal rows. What it holds between the two decides whether the last
transaction of an erasure can come between them: a lock of the account row
that its own statement or the trigger `fct_require_live_account` takes; the
lock of a row of the user that the erasure deletes; a foreign key to such a
row; or nothing.

The last transaction of an erasure locks the account row for update and
keeps it to its commit, and each of its statements waits for the rows that
others hold. Its statements take effect at the commit.

An update that gives a row to another account, as the registration of a
device does, counts as the removal of the row and the insertion of another.
-/

namespace Histae.Privacy

open Relational Systems

/-- What a writer reads before it inserts. -/
inductive Access
  /-- Nothing that has to be true of all accounts of its rows. -/
  | none
  /-- The account in `user_id` is read as not deleted, without a lock. -/
  | read
  /-- Every account of the rows is locked and not deleted. -/
  | lock
  /-- A row of the user is locked, by a statement that reads his account as
  not deleted. -/
  | lockRow (table : PersonalTable)
  deriving DecidableEq

/-- The functions and statements that insert personal rows. A transaction with
several of them counts as several. -/
inductive PersonalWriter
  | upsertProfile
  | upsertPreferences
  | upsertPresence
  | insertAnswers
  | addTraitToUser
  | createProcessing
  | activate
  | retirePhotoVerifier
  | recordWhileActive
  | insertSession
  | insertToken
  | issueBootstrap
  | completeBootstrap
  | addCredential
  | completeAuthentication
  | registerDevice
  | enqueueNotification
  | updatePreferences
  | writeMute
  | block
  | applyProjection
  | applySubscriptionTransaction
  | recoverCustomerCreation
  | saveCustomer
  | beginCheckoutTransaction
  | upsertAccount
  | applySubscription
  | setPremiumGrant
  | createChallenge
  | openSession
  | reserve
  | debit
  | createOn
  | grantAdvertisingCredit
  | createMatch
  deriving DecidableEq

namespace PersonalWriter

def access : PersonalWriter → Access
  | .upsertProfile | .upsertPreferences | .upsertPresence | .recordWhileActive | .insertSession
  | .insertToken | .issueBootstrap | .addCredential | .registerDevice | .enqueueNotification
  | .updatePreferences | .applyProjection | .beginCheckoutTransaction | .applySubscription
  | .setPremiumGrant | .reserve | .debit | .createOn | .grantAdvertisingCredit
  | .createMatch => .lock
  | .insertAnswers | .createProcessing | .activate => .lockRow .profile
  | .completeBootstrap => .lockRow .adminBootstrap
  | .completeAuthentication => .lockRow .adminCredential
  | .applySubscriptionTransaction => .lockRow .billingCustomer
  | .recoverCustomerCreation => .lockRow .checkoutSession
  | .openSession => .lockRow .webBillingChallenge
  | .saveCustomer | .upsertAccount | .createChallenge => .read
  | .addTraitToUser | .retirePhotoVerifier | .writeMute | .block => .none

def tables : PersonalWriter → List PersonalTable
  | .upsertProfile => [.profile, .moderationCase]
  | .upsertPreferences => [.preferences]
  | .upsertPresence => [.presence]
  | .insertAnswers => [.profileAnswer, .moderationCase]
  | .addTraitToUser => [.trait]
  | .createProcessing => [.photo, .photoUploadRequest]
  | .activate | .retirePhotoVerifier => [.moderationCase]
  | .recordWhileActive => [.swipeDecision]
  | .insertSession => [.refreshTokenFamily, .refreshToken]
  | .insertToken => [.refreshToken]
  | .issueBootstrap => [.adminBootstrap]
  | .completeBootstrap => [.adminCredential, .adminSession]
  | .addCredential => [.adminCredential]
  | .completeAuthentication => [.adminSession]
  | .registerDevice => [.deviceToken]
  | .enqueueNotification => [.notification]
  | .updatePreferences => [.notificationPreference]
  | .writeMute => [.matchNotificationPreference]
  | .block => [.block]
  | .applyProjection => [.billingCustomer, .subscription, .invoice]
  | .applySubscriptionTransaction => [.subscription]
  | .recoverCustomerCreation | .saveCustomer => [.billingCustomer]
  | .beginCheckoutTransaction => [.checkoutSession]
  | .upsertAccount => [.storeAccount]
  | .applySubscription => [.storeSubscription]
  | .setPremiumGrant => [.complimentaryGrant]
  | .createChallenge => [.webBillingChallenge]
  | .openSession => [.webBillingSession]
  | .reserve => [.continuationReservation]
  | .debit => [.continuationUsage]
  | .createOn => [.rewardIntent]
  | .grantAdvertisingCredit => [.continuationWallet]
  | .createMatch => [.matchInit, .matchState]

end PersonalWriter

namespace PersonalRow

/-- The accounts that the trigger of the table locks. -/
def liveUsers (r : PersonalRow) : List Uuid := (liveColumns r.table).filterMap r.column

/-- The accounts that the foreign keys of the table lock. -/
def keyUsers (r : PersonalRow) : List Uuid := (keyColumns r.table).filterMap r.column

end PersonalRow

/-- A writer whose transaction is open. -/
structure OpenWrite where
  writer : PersonalWriter
  pending : List PersonalRow
  ready : Bool
  accounts : List Uuid
  found : Option PersonalRow
  locked : Option PersonalRow
  inserted : List PersonalRow
  deriving DecidableEq

namespace OpenWrite

variable (w : OpenWrite)

def begin (writer : PersonalWriter) (rows : List PersonalRow) : OpenWrite :=
  ⟨writer, rows, false, [], none, none, []⟩

def users : List Uuid := w.pending.flatMap PersonalRow.users

/-- The accounts that the transaction holds against an update of `deleted_at`. -/
def shared : List Uuid := w.accounts ++ w.inserted.flatMap PersonalRow.liveUsers

/-- The accounts that it holds against a lock for update. -/
def held : List Uuid := w.shared ++ w.inserted.flatMap PersonalRow.keyUsers

/-- Another transaction leaves the rows that this one locks or references. -/
def Survives (rows : List PersonalRow) : Prop :=
  (∀ q ∈ w.locked, q ∈ rows) ∧ ∀ r ∈ w.inserted, orphan (w.inserted ++ rows) r = false

instance (rows : List PersonalRow) : Decidable (w.Survives rows) :=
  inferInstanceAs (Decidable (_ ∧ _))

/-- A statement that waits for a row finds nothing when the row is gone. -/
def refind (rows : List PersonalRow) : OpenWrite :=
  { w with found := w.found.filter (· ∈ rows) }

end OpenWrite

structure Registry where
  deleted : List Uuid
  /-- The accounts that the last transaction of their erasure has locked. -/
  erasing : List Uuid
  erased : List Uuid
  rows : List PersonalRow
  writers : List OpenWrite
  deriving DecidableEq

inductive RegistryStep
  | begin (writer : PersonalWriter) (rows : List PersonalRow)
  | check (w : OpenWrite)
  | find (w : OpenWrite) (row : PersonalRow)
  | lockRow (w : OpenWrite) (row : PersonalRow)
  | insert (w : OpenWrite) (row : PersonalRow)
  | commit (w : OpenWrite)
  | rollback (w : OpenWrite)
  /-- Any other deletion of rows. -/
  | remove (keep : PersonalRow → Bool)
  | accept (userId : Uuid)
  | lockAccount (userId : Uuid)
  | unlockAccount (userId : Uuid)
  | complete (userId : Uuid)

namespace Registry

variable (s : Registry)

def replace (w w' : OpenWrite) : Registry := { s with writers := w' :: s.writers.erase w }

/-- Another transaction changes the committed rows. -/
def setRows (rows : List PersonalRow) : Registry :=
  { s with rows, writers := s.writers.map (·.refind rows) }

def kept (keep : PersonalRow → Bool) : List PersonalRow := cascade orphan (s.rows.filter keep)

def accepted (userId : Uuid) : List PersonalRow :=
  (PersonalStatement.executeAll userId onDeleted s.rows).getD s.rows

def completed (userId : Uuid) : List PersonalRow :=
  (PersonalStatement.executeAll userId advanceCompleted s.rows).getD s.rows

def next : RegistryStep → Registry
  | .begin writer rows => { s with writers := .begin writer rows :: s.writers }
  | .check w =>
      s.replace w { w with
        ready := true
        accounts := if w.writer.access = .lock then w.users else [] }
  | .find w row => s.replace w { w with found := some row }
  | .lockRow w row => s.replace w { w with ready := true, found := none, locked := some row }
  | .insert w row =>
      s.replace w { w with pending := w.pending.erase row, inserted := row :: w.inserted }
  | .commit w => { s with rows := w.inserted ++ s.rows, writers := s.writers.erase w }
  | .rollback w => { s with writers := s.writers.erase w }
  | .remove keep => s.setRows (s.kept keep)
  | .accept userId =>
      { s.setRows (s.accepted userId) with deleted := userId :: s.deleted }
  | .lockAccount userId => { s with erasing := userId :: s.erasing }
  | .unlockAccount userId => { s with erasing := s.erasing.erase userId }
  | .complete userId =>
      { s.setRows (s.completed userId) with
        erasing := s.erasing.erase userId
        erased := userId :: s.erased }

variable (owner : Uuid → Uuid)

def Enabled : RegistryStep → Prop
  | .begin writer rows => ∀ r ∈ rows, r.table ∈ writer.tables ∧ r.WellFormed owner
  | .check w => w ∈ s.writers ∧ w.ready = false ∧
      match w.writer.access with
      | .none => True
      | .read => ∀ r ∈ w.pending, ∀ userId ∈ r.column .userId, userId ∉ s.deleted
      | .lock => ∀ userId ∈ w.users, userId ∉ s.deleted
      | .lockRow _ => False
  | .find w row => w ∈ s.writers ∧ w.ready = false ∧ w.writer.access = .lockRow row.table ∧
      row ∈ s.rows ∧ (∀ userId ∈ row.column .userId, userId ∉ s.deleted) ∧
      ∀ userId ∈ w.users, row.column .userId = some userId
  | .lockRow w row => w ∈ s.writers ∧ w.found = some row
  | .insert w row => w ∈ s.writers ∧ w.ready = true ∧ row ∈ w.pending ∧
      (∀ userId ∈ row.liveUsers, userId ∉ s.deleted) ∧
      (∀ userId ∈ row.keyUsers, userId ∉ s.erasing) ∧
      orphan (w.inserted ++ s.rows) row = false
  | .commit w => w ∈ s.writers ∧ w.ready = true ∧ w.pending = []
  | .rollback w => w ∈ s.writers
  | .remove keep => ∀ w ∈ s.writers, w.Survives (s.kept keep)
  | .accept userId => ∀ w ∈ s.writers, userId ∉ w.shared ∧ w.Survives (s.accepted userId)
  | .lockAccount userId => userId ∈ s.deleted ∧ userId ∉ s.erasing ∧
      ∀ w ∈ s.writers, userId ∉ w.held
  | .unlockAccount userId => userId ∈ s.erasing
  | .complete userId => userId ∈ s.erasing ∧
      (PersonalStatement.executeAll userId advanceCompleted s.rows).isSome ∧
      ∀ w ∈ s.writers, w.Survives (s.completed userId)

instance decidableEnabled : ∀ a, Decidable (s.Enabled owner a)
  | .begin _ rows => inferInstanceAs (Decidable (∀ r ∈ rows, _ ∧ _))
  | .check w =>
      have : Decidable (match w.writer.access with
          | .none => True
          | .read => ∀ r ∈ w.pending, ∀ userId ∈ r.column .userId, userId ∉ s.deleted
          | .lock => ∀ userId ∈ w.users, userId ∉ s.deleted
          | .lockRow _ => False) := by
        split <;> infer_instance
      inferInstanceAs (Decidable (_ ∧ _ ∧ _))
  | .find w _ => inferInstanceAs (Decidable (_ ∧ _ ∧ _ ∧ _ ∧ _ ∧ ∀ userId ∈ w.users, _))
  | .lockRow _ _ => inferInstanceAs (Decidable (_ ∧ _))
  | .insert _ _ => inferInstanceAs (Decidable (_ ∧ _ ∧ _ ∧ _ ∧ _ ∧ _))
  | .commit _ => inferInstanceAs (Decidable (_ ∧ _ ∧ _))
  | .rollback _ => inferInstanceAs (Decidable (_ ∈ _))
  | .remove _ => inferInstanceAs (Decidable (∀ w ∈ s.writers, _))
  | .accept _ => inferInstanceAs (Decidable (∀ w ∈ s.writers, _))
  | .lockAccount _ => inferInstanceAs (Decidable (_ ∧ _ ∧ ∀ w ∈ s.writers, _))
  | .unlockAccount _ => inferInstanceAs (Decidable (_ ∈ _))
  | .complete _ => inferInstanceAs (Decidable (_ ∧ _ ∧ ∀ w ∈ s.writers, _))

end Registry

def registry (owner : Uuid → Uuid) : System Registry RegistryStep where
  Enabled s := s.Enabled owner
  next := Registry.next

instance (owner : Uuid → Uuid) (s : Registry) (a : RegistryStep) :
    Decidable ((registry owner).Enabled s a) := s.decidableEnabled owner a

/-- The tables whose rows never again name an erased account. -/
def PersonalTable.cleared (t : PersonalTable) : Bool :=
  t ≠ .webBillingChallenge && t ≠ .storeAccount && t ≠ .matchInit

/-- The insertion of a row locks the account in the column. -/
def pinned (t : PersonalTable) (c : PersonalColumn) : Bool :=
  (liveColumns t ++ keyColumns t).contains c && t.userColumns.contains c && t ≠ .matchInit

/-- The trigger rejects a deleted account in the column. -/
def tested (t : PersonalTable) (c : PersonalColumn) : Bool := (liveColumns t).contains c

def lasting (t : PersonalTable) (c : PersonalColumn) : Bool :=
  t.cleared && t.userColumns.contains c

/-- What is true of an open writer. -/
structure OpenWrite.Sound (owner : Uuid → Uuid) (s : Registry) (w : OpenWrite) : Prop where
  pending : ∀ r ∈ w.pending, r.table ∈ w.writer.tables ∧ r.WellFormed owner
  inserted : ∀ r ∈ w.inserted, r.WellFormed owner
  shared : ∀ userId ∈ w.shared, userId ∉ s.deleted
  keys : ∀ r ∈ w.inserted, ∀ userId ∈ r.keyUsers, userId ∉ s.erasing
  lock : w.ready = true → w.writer.access = .lock → ∀ userId ∈ w.users, userId ∈ w.accounts
  lockRow : w.ready = true → ∀ t, w.writer.access = .lockRow t → w.locked ≠ none
  own : ∀ q, w.found = some q ∨ w.locked = some q → q ∈ s.rows ∧
    w.writer.access = .lockRow q.table ∧ (∀ userId ∈ q.column .userId, userId ∉ s.erased) ∧
    ∀ userId ∈ w.users, q.column .userId = some userId
  parents : ∀ r ∈ w.inserted, orphan (w.inserted ++ s.rows) r = false
  final : ∀ r ∈ w.inserted, r.table.cleared = true → ∀ userId ∈ r.users, userId ∉ s.erased

/-- Before the first erasure is accepted. -/
structure Registry.Initial (owner : Uuid → Uuid) (s : Registry) : Prop where
  deleted : s.deleted = []
  erasing : s.erasing = []
  erased : s.erased = []
  writers : s.writers = []
  wellFormed : ∀ r ∈ s.rows, r.WellFormed owner
  closed : Closed orphan s.rows

/-- What holds of every moment. -/
structure Registry.Invariant (owner : Uuid → Uuid) (s : Registry) : Prop where
  erasing : ∀ userId ∈ s.erasing, userId ∈ s.deleted
  erased : ∀ userId ∈ s.erased, userId ∈ s.deleted
  wellFormed : ∀ r ∈ s.rows, r.WellFormed owner
  closed : Closed orphan s.rows
  writers : ∀ w ∈ s.writers, w.Sound owner s
  rows : ∀ r ∈ s.rows, r.table.cleared = true → ∀ userId ∈ r.users, userId ∉ s.erased

section Coverage

/-- Every writer of a table that stays clear is stopped on each account. -/
theorem secured (writer : PersonalWriter) : ∀ t ∈ writer.tables, t.cleared = true →
    ∀ c ∈ t.userColumns, writer.access = .lock ∨ (∃ t', writer.access = .lockRow t') ∨
      tested t c = true ∨ inherited lasting t c = true := by
  have hkind : ∀ t ∈ writer.tables, t.cleared = true → ∀ c ∈ t.userColumns,
      (match writer.access with | .lock | .lockRow _ => true | _ => false) = true ∨
        tested t c = true ∨ inherited lasting t c = true := by
    cases writer <;> decide
  intro t ht hcleared c hc
  rcases hkind t ht hcleared c hc with haccess | hstopped
  · cases haccessed : writer.access <;> simp_all
  · exact .inr (.inr hstopped)

theorem pinned_or_inherited (t : PersonalTable) (htable : t.cleared = true) :
    ∀ c ∈ t.userColumns, pinned t c = true ∨ inherited pinned t c = true := by
  cases t <;> first | exact absurd htable (by decide) | decide

theorem lockRow_table {writer : PersonalWriter} {t : PersonalTable}
    (h : writer.access = .lockRow t) : t ≠ .matchInit ∧ .userId ∈ t.userColumns := by
  cases writer <;> cases h <;> decide

end Coverage

section Writers

variable {owner : Uuid → Uuid} {s s' : Registry} {w : OpenWrite} {r : PersonalRow}
  {c : PersonalColumn} {userId : Uuid}

theorem mem_shared_or_keyUsers (hr : r ∈ w.inserted) (h : pinned r.table c = true)
    (hc : r.column c = some userId) : userId ∈ w.shared ∨ userId ∈ r.keyUsers := by
  simp only [pinned, Bool.and_eq_true, List.contains_iff_mem, List.mem_append] at h
  rcases h.1.1 with hlive | hkey
  · refine .inl (List.mem_append_right _ (List.mem_flatMap.mpr ⟨r, hr, ?_⟩))
    exact List.mem_filterMap.mpr ⟨c, hlive, hc⟩
  · exact .inr (List.mem_filterMap.mpr ⟨c, hkey, hc⟩)

/-- An erasure under way never meets its user in a row that is not committed. -/
theorem OpenWrite.Sound.not_pinned (h : w.Sound owner s) (hs : ∀ u ∈ s.erasing, u ∈ s.deleted)
    (huser : userId ∈ s.erasing) (hr : r ∈ w.inserted) (hpinned : pinned r.table c = true) :
    r.column c ≠ some userId := by
  intro hc
  rcases mem_shared_or_keyUsers hr hpinned hc with hshared | hkey
  · exact h.shared userId hshared (hs userId huser)
  · exact h.keys r hr userId hkey huser

theorem OpenWrite.mem_users_of_subset {rows : List PersonalRow} (h : ∀ r ∈ rows, r ∈ w.pending) :
    ∀ u ∈ rows.flatMap PersonalRow.users, u ∈ w.users := by
  intro u hu
  obtain ⟨r, hr, hmem⟩ := List.mem_flatMap.mp hu
  exact List.mem_flatMap.mpr ⟨r, h r hr, hmem⟩

/-- A statement about other columns of the state leaves a writer sound. -/
theorem OpenWrite.Sound.of_eq (h : w.Sound owner s) (hrows : s'.rows = s.rows)
    (hdeleted : s'.deleted = s.deleted) (herasing : s'.erasing = s.erasing)
    (herased : s'.erased = s.erased) : w.Sound owner s' := by
  obtain ⟨hpending, hinserted, hshared, hkeys, hlock, hlockRow, hown, hparents, hfinal⟩ := h
  refine ⟨hpending, hinserted, ?_, ?_, hlock, hlockRow, ?_, ?_, ?_⟩
  · rwa [hdeleted]
  · rwa [herasing]
  · rwa [hrows, herased]
  · rwa [hrows]
  · rwa [herased]

/-- A committed row never harms another writer. -/
theorem OpenWrite.Sound.grow {rows : List PersonalRow} (h : w.Sound owner s) :
    w.Sound owner { s with rows := rows ++ s.rows } := by
  refine ⟨h.pending, h.inserted, h.shared, h.keys, h.lock, h.lockRow, ?_, ?_, h.final⟩
  · intro q hq
    obtain ⟨hmem, hrest⟩ := h.own q hq
    exact ⟨List.mem_append_right _ hmem, hrest⟩
  · intro r hr
    refine orphan_mono (h.parents r hr) fun p hp ↦ ?_
    rcases List.mem_append.mp hp with hown | hold
    · exact List.mem_append_left _ hown
    · exact List.mem_append_right _ (List.mem_append_right _ hold)

/-- Another transaction removes rows, and perhaps ends the erasure of an account
that none of the remaining rows names. -/
theorem OpenWrite.Sound.refind (h : w.Sound owner s) (hs : ∀ u ∈ s.erasing, u ∈ s.deleted)
    (hsurvives : w.Survives s'.rows) (hdeleted : ∀ u ∈ s'.deleted, u ∈ s.deleted ∨ u ∉ w.shared)
    (herasing : ∀ u ∈ s'.erasing, u ∈ s.erasing)
    (herased : ∀ u ∈ s'.erased, u ∈ s.erased ∨
      u ∈ s.erasing ∧ ∀ r ∈ s'.rows, r.table ≠ .matchInit → u ∉ r.users) :
    (w.refind s'.rows).Sound owner s' := by
  refine ⟨h.pending, h.inserted, ?_, ?_, h.lock, h.lockRow, ?_, hsurvives.2, ?_⟩
  · intro u hu hmem
    rcases hdeleted u hmem with hold | hfree
    · exact h.shared u hu hold
    · exact hfree hu
  · exact fun r hr u hu hmem ↦ h.keys r hr u hu (herasing u hmem)
  · intro q hq
    obtain ⟨hold, hrow⟩ : (w.found = some q ∨ w.locked = some q) ∧ q ∈ s'.rows := by
      rcases hq with hfound | hlocked
      · obtain ⟨hfound, hrow⟩ := Option.mem_filter_iff.mp hfound
        exact ⟨.inl hfound, by simpa using hrow⟩
      · exact ⟨.inr hlocked, hsurvives.1 q hlocked⟩
    obtain ⟨-, haccess, hfree, husers⟩ := h.own q hold
    refine ⟨hrow, haccess, ?_, husers⟩
    intro u hu hmem
    rcases herased u hmem with herasedOld | ⟨-, hclear⟩
    · exact hfree u hu herasedOld
    · obtain ⟨htable, hcolumn⟩ := lockRow_table haccess
      exact hclear q hrow htable (PersonalRow.mem_users.mpr ⟨.userId, hcolumn, hu⟩)
  · intro r hr hcleared u hu hmem
    rcases herased u hmem with herasedOld | ⟨huser, hclear⟩
    · exact h.final r hr hcleared u hu herasedOld
    · obtain ⟨c, hcolumn, hc⟩ := PersonalRow.mem_users.mp hu
      rcases pinned_or_inherited r.table hcleared c hcolumn with hpinned | hinherited
      · exact h.not_pinned hs huser hr hpinned hc
      · -- the row that the key references is still there, or not committed either
        obtain ⟨q, hq, c', hpinned, hc'⟩ :=
          exists_parent_of_inherited (h.inserted r hr) (hsurvives.2 r hr) hinherited hc
        rcases List.mem_append.mp hq with hown | hrow
        · exact h.not_pinned hs huser hown hpinned hc'
        · simp only [pinned, Bool.and_eq_true, List.contains_iff_mem, decide_eq_true_eq] at hpinned
          exact hclear q hrow hpinned.2 (PersonalRow.mem_users.mpr ⟨c', hpinned.1.2, hc'⟩)

/-- A guarded row never names an erased account when it is inserted. -/
theorem Registry.Invariant.final_insert (hs : s.Invariant owner) (hw : w ∈ s.writers)
    (hready : w.ready = true) (hr : r ∈ w.pending)
    (hlive : ∀ u ∈ r.liveUsers, u ∉ s.deleted) (horphan : orphan (w.inserted ++ s.rows) r = false)
    (hcleared : r.table.cleared = true) : ∀ u ∈ r.users, u ∉ s.erased := by
  have hsound := hs.writers w hw
  intro u hu herased
  have husers : u ∈ w.users := List.mem_flatMap.mpr ⟨r, hr, hu⟩
  obtain ⟨htable, hwf⟩ := hsound.pending r hr
  obtain ⟨c, hcolumn, hc⟩ := PersonalRow.mem_users.mp hu
  rcases secured w.writer r.table htable hcleared c hcolumn with
    hlock | ⟨t, hlockRow⟩ | htested | hinherited
  · have hshared : u ∈ w.shared :=
      List.mem_append_left _ (hsound.lock hready hlock u husers)
    exact hsound.shared u hshared (hs.erased u herased)
  · obtain ⟨q, hq⟩ := Option.ne_none_iff_exists'.mp (hsound.lockRow hready t hlockRow)
    obtain ⟨-, -, hfree, hnamed⟩ := hsound.own q (.inr hq)
    exact hfree u (hnamed u husers) herased
  · refine hlive u (List.mem_filterMap.mpr ⟨c, ?_, hc⟩) (hs.erased u herased)
    simpa [tested] using htested
  · obtain ⟨q, hq, c', hlasting, hc'⟩ := exists_parent_of_inherited hwf horphan hinherited hc
    simp only [lasting, Bool.and_eq_true, List.contains_iff_mem] at hlasting
    have hnamed : u ∈ q.users := PersonalRow.mem_users.mpr ⟨c', hlasting.2, hc'⟩
    rcases List.mem_append.mp hq with hown | hrow
    · exact hsound.final q hown hlasting.1 u hnamed herased
    · exact hs.rows q hrow hlasting.1 u hnamed herased

end Writers

namespace Registry

variable {owner : Uuid → Uuid} {s : Registry} {a : RegistryStep} {w w' : OpenWrite}
  {rows : List PersonalRow}

theorem Initial.invariant (h : s.Initial owner) : s.Invariant owner := by
  refine ⟨?_, ?_, h.wellFormed, h.closed, ?_, ?_⟩ <;>
    simp [h.deleted, h.erasing, h.erased, h.writers]

/-- A step of one writer that changes nothing but this writer. -/
theorem Invariant.writers_step (hs : s.Invariant owner) {writers : List OpenWrite}
    (h : ∀ w' ∈ writers, w' ∈ s.writers ∨ w'.Sound owner s) :
    ({ s with writers } : Registry).Invariant owner := by
  refine ⟨hs.erasing, hs.erased, hs.wellFormed, hs.closed, ?_, hs.rows⟩
  intro w' hw'
  have hsound : w'.Sound owner s := (h w' hw').elim (hs.writers w') id
  exact hsound.of_eq rfl rfl rfl rfl

theorem Invariant.replace (hs : s.Invariant owner) (h : w'.Sound owner s) :
    (s.replace w w').Invariant owner := by
  refine hs.writers_step fun w'' hw'' ↦ ?_
  rcases List.mem_cons.mp hw'' with rfl | hold
  · exact .inr h
  · exact .inl (List.mem_of_mem_erase hold)

theorem sound_begin {writer : PersonalWriter} (h : s.Enabled owner (.begin writer rows)) :
    (OpenWrite.begin writer rows).Sound owner s := by
  refine ⟨h, ?_, ?_, ?_, ?_, ?_, ?_, ?_, ?_⟩ <;> simp [OpenWrite.begin, OpenWrite.shared]

theorem Invariant.sound_check (hs : s.Invariant owner) (h : s.Enabled owner (.check w)) :
    ({ w with
        ready := true
        accounts := if w.writer.access = .lock then w.users else [] } : OpenWrite).Sound
      owner s := by
  obtain ⟨hw, -, haccess⟩ := h
  have hsound := hs.writers w hw
  refine ⟨hsound.pending, hsound.inserted, ?_, hsound.keys, ?_, ?_, hsound.own, hsound.parents,
    hsound.final⟩
  · intro u hu
    rcases List.mem_append.mp hu with haccount | hinserted
    · by_cases hlock : w.writer.access = .lock
      · rw [hlock] at haccess
        exact haccess u (by simpa [hlock] using haccount)
      · simp [hlock] at haccount
    · exact hsound.shared u (List.mem_append_right _ hinserted)
  · intro _ hlock u hu
    change u ∈ if w.writer.access = .lock then w.users else []
    rw [if_pos hlock]
    exact hu
  · intro _ t hlockRow
    simp [hlockRow] at haccess

theorem Invariant.sound_find (hs : s.Invariant owner) {row : PersonalRow}
    (h : s.Enabled owner (.find w row)) : ({ w with found := some row } : OpenWrite).Sound owner s := by
  obtain ⟨hw, -, haccess, hrow, hlive, husers⟩ := h
  have hsound := hs.writers w hw
  refine ⟨hsound.pending, hsound.inserted, hsound.shared, hsound.keys, hsound.lock,
    hsound.lockRow, ?_, hsound.parents, hsound.final⟩
  rintro q (hfound | hlocked)
  · obtain rfl := Option.some.inj hfound
    exact ⟨hrow, haccess, fun u hu hmem ↦ hlive u hu (hs.erased u hmem), husers⟩
  · exact hsound.own q (.inr hlocked)

theorem Invariant.sound_lockRow (hs : s.Invariant owner) {row : PersonalRow}
    (h : s.Enabled owner (.lockRow w row)) :
    ({ w with ready := true, found := none, locked := some row } : OpenWrite).Sound owner s := by
  obtain ⟨hw, hfound⟩ := h
  have hsound := hs.writers w hw
  obtain ⟨hrow, haccess, hrest⟩ := hsound.own row (.inl hfound)
  refine ⟨hsound.pending, hsound.inserted, hsound.shared, hsound.keys, ?_, ?_, ?_,
    hsound.parents, hsound.final⟩
  · intro _ hlock
    exact absurd (hlock.symm.trans haccess) (by simp)
  · simp
  · rintro q (hnone | hlocked)
    · exact absurd hnone (by simp)
    · obtain rfl := Option.some.inj hlocked
      exact ⟨hrow, haccess, hrest⟩

theorem Invariant.sound_insert (hs : s.Invariant owner) {row : PersonalRow}
    (h : s.Enabled owner (.insert w row)) :
    ({ w with pending := w.pending.erase row, inserted := row :: w.inserted } : OpenWrite).Sound
      owner s := by
  obtain ⟨hw, hready, hrow, hlive, hkeys, horphan⟩ := h
  have hsound := hs.writers w hw
  have hpending : ∀ r ∈ w.pending.erase row, r ∈ w.pending := fun r hr ↦ List.mem_of_mem_erase hr
  have husers : ∀ u ∈ (w.pending.erase row).flatMap PersonalRow.users, u ∈ w.users :=
    OpenWrite.mem_users_of_subset hpending
  refine ⟨fun r hr ↦ hsound.pending r (hpending r hr), ?_, ?_, ?_, ?_, hsound.lockRow, ?_, ?_, ?_⟩
  · exact List.forall_mem_cons.mpr ⟨(hsound.pending row hrow).2, hsound.inserted⟩
  · intro u hu
    rw [OpenWrite.shared, List.flatMap_cons, List.mem_append, List.mem_append] at hu
    rcases hu with haccount | hnew | hinserted
    · exact hsound.shared u (List.mem_append_left _ haccount)
    · exact hlive u hnew
    · exact hsound.shared u (List.mem_append_right _ hinserted)
  · exact List.forall_mem_cons.mpr ⟨hkeys, hsound.keys⟩
  · exact fun _ hlock u hu ↦ hsound.lock hready hlock u (husers u hu)
  · intro q hq
    obtain ⟨hmem, haccess, hfree, hnamed⟩ := hsound.own q hq
    exact ⟨hmem, haccess, hfree, fun u hu ↦ hnamed u (husers u hu)⟩
  · refine List.forall_mem_cons.mpr ⟨orphan_mono horphan ?_, fun r hr ↦ ?_⟩
    · exact fun p hp ↦ List.mem_cons_of_mem _ hp
    · exact orphan_mono (hsound.parents r hr) fun p hp ↦ List.mem_cons_of_mem _ hp
  · exact List.forall_mem_cons.mpr ⟨hs.final_insert hw hready hrow hlive horphan, hsound.final⟩

/-- Another transaction leaves fewer rows, and perhaps ends an erasure. -/
theorem Invariant.setRows (hs : s.Invariant owner) {s' : Registry}
    (hwriters : s'.writers = s.writers.map (·.refind s'.rows))
    (hrows : ∀ r ∈ s'.rows, ∃ q ∈ s.rows, r.table = q.table ∧ ∀ u ∈ r.users, u ∈ q.users)
    (hwf : ∀ r ∈ s'.rows, r.WellFormed owner) (hclosed : Closed orphan s'.rows)
    (hsurvives : ∀ w ∈ s.writers, w.Survives s'.rows)
    (hdeleted : ∀ u ∈ s'.deleted, u ∈ s.deleted ∨ ∀ w ∈ s.writers, u ∉ w.shared)
    (hkept : ∀ u ∈ s.deleted, u ∈ s'.deleted)
    (herasing : ∀ u ∈ s'.erasing, u ∈ s.erasing)
    (herased : ∀ u ∈ s'.erased, u ∈ s.erased ∨
      u ∈ s.erasing ∧ ∀ r ∈ s'.rows, r.table ≠ .matchInit → u ∉ r.users) :
    s'.Invariant owner := by
  refine ⟨fun u hu ↦ hkept u (hs.erasing u (herasing u hu)), ?_, hwf, hclosed, ?_, ?_⟩
  · intro u hu
    rcases herased u hu with hold | ⟨huser, -⟩
    · exact hkept u (hs.erased u hold)
    · exact hkept u (hs.erasing u huser)
  · intro w' hw'
    rw [hwriters] at hw'
    obtain ⟨w, hw, rfl⟩ := List.mem_map.mp hw'
    refine (hs.writers w hw).refind hs.erasing (hsurvives w hw) ?_ herasing herased
    exact fun u hu ↦ (hdeleted u hu).imp id fun hfree ↦ hfree w hw
  · intro r hr hcleared u hu hmem
    obtain ⟨q, hq, htable, husers⟩ := hrows r hr
    rcases herased u hmem with hold | ⟨-, hclear⟩
    · exact hs.rows q hq (htable ▸ hcleared) u (husers u hu) hold
    · have htable : r.table ≠ .matchInit := by
        intro h
        simp [PersonalTable.cleared, h] at hcleared
      exact hclear r hr htable hu

theorem Invariant.commit (hs : s.Invariant owner) (hw : w ∈ s.writers) :
    (s.next (.commit w)).Invariant owner := by
  have hsound := hs.writers w hw
  refine ⟨hs.erasing, hs.erased, ?_, ?_, ?_, ?_⟩
  · exact List.forall_mem_append.mpr ⟨hsound.inserted, hs.wellFormed⟩
  · refine List.forall_mem_append.mpr ⟨hsound.parents, fun r hr ↦ ?_⟩
    exact orphan_mono (hs.closed r hr) fun p hp ↦ List.mem_append_right _ hp
  · intro w' hw'
    exact (hs.writers w' (List.mem_of_mem_erase hw')).grow.of_eq rfl rfl rfl rfl
  · exact List.forall_mem_append.mpr ⟨hsound.final, hs.rows⟩

theorem Invariant.lockAccount (hs : s.Invariant owner) {userId : Uuid}
    (h : s.Enabled owner (.lockAccount userId)) : (s.next (.lockAccount userId)).Invariant owner := by
  obtain ⟨hdeleted, -, hfree⟩ := h
  refine ⟨List.forall_mem_cons.mpr ⟨hdeleted, hs.erasing⟩, hs.erased, hs.wellFormed, hs.closed, ?_,
    hs.rows⟩
  intro w hw
  have hsound := hs.writers w hw
  refine ⟨hsound.pending, hsound.inserted, hsound.shared, ?_, hsound.lock, hsound.lockRow,
    hsound.own, hsound.parents, hsound.final⟩
  intro r hr u hu hmem
  rcases List.mem_cons.mp hmem with rfl | hold
  · exact hfree w hw (List.mem_append_right _ (List.mem_flatMap.mpr ⟨r, hr, hu⟩))
  · exact hsound.keys r hr u hu hold

theorem Invariant.unlockAccount (hs : s.Invariant owner) {userId : Uuid} :
    (s.next (.unlockAccount userId)).Invariant owner := by
  have hsub : ∀ u ∈ s.erasing.erase userId, u ∈ s.erasing := fun u hu ↦ List.mem_of_mem_erase hu
  refine ⟨fun u hu ↦ hs.erasing u (hsub u hu), hs.erased, hs.wellFormed, hs.closed, ?_, hs.rows⟩
  intro w hw
  have hsound := hs.writers w hw
  exact ⟨hsound.pending, hsound.inserted, hsound.shared,
    fun r hr u hu hmem ↦ hsound.keys r hr u hu (hsub u hmem), hsound.lock, hsound.lockRow,
    hsound.own, hsound.parents, hsound.final⟩

theorem Invariant.remove (hs : s.Invariant owner) {keep : PersonalRow → Bool}
    (h : s.Enabled owner (.remove keep)) : (s.next (.remove keep)).Invariant owner := by
  have hmem : ∀ r ∈ s.kept keep, r ∈ s.rows :=
    fun r hr ↦ List.mem_of_mem_filter (mem_of_mem_cascade hr)
  refine hs.setRows rfl (fun r hr ↦ ⟨r, hmem r hr, rfl, fun u hu ↦ hu⟩) ?_ closed_cascade h ?_ ?_ ?_ ?_
  · exact fun r hr ↦ hs.wellFormed r (hmem r hr)
  · exact fun u hu ↦ .inl hu
  · exact fun u hu ↦ hu
  · exact fun u hu ↦ hu
  · exact fun u hu ↦ .inl hu

theorem executeAll_accepted (userId : Uuid) :
    PersonalStatement.executeAll userId onDeleted s.rows = some (s.accepted userId) := rfl

theorem Invariant.accept (hs : s.Invariant owner) {userId : Uuid}
    (h : s.Enabled owner (.accept userId)) : (s.next (.accept userId)).Invariant owner := by
  have hrun := executeAll_accepted (s := s) userId
  have hclosed : Closed orphan (s.accepted userId) := by
    rw [onDeleted, fctEraseNotifications] at hrun
    exact PersonalStatement.closed_executeAll hrun
  have hstatements : onDeleted ⊆ advanceCompleted := by
    intro statement hmem
    exact List.mem_append_right _ (List.mem_append_right _ hmem)
  refine hs.setRows rfl (fun r hr ↦ PersonalStatement.users_executeAll hrun hr)
    (PersonalRow.WellFormed.executeAll hstatements hrun hs.wellFormed) hclosed
    (fun w hw ↦ (h w hw).2) ?_ ?_ ?_ ?_
  · intro u hu
    rcases List.mem_cons.mp hu with rfl | hold
    · exact .inr fun w hw ↦ (h w hw).1
    · exact .inl hold
  · exact fun u hu ↦ List.mem_cons_of_mem _ hu
  · exact fun u hu ↦ hu
  · exact fun u hu ↦ .inl hu

theorem executeAll_completed {userId : Uuid} (h : s.Enabled owner (.complete userId)) :
    PersonalStatement.executeAll userId advanceCompleted s.rows = some (s.completed userId) := by
  obtain ⟨rows, hrows⟩ := Option.isSome_iff_exists.mp h.2.1
  simp [completed, hrows]

theorem Invariant.complete (hs : s.Invariant owner) {userId : Uuid}
    (h : s.Enabled owner (.complete userId)) : (s.next (.complete userId)).Invariant owner := by
  have hrun := executeAll_completed h
  refine hs.setRows rfl (fun r hr ↦ PersonalStatement.users_executeAll hrun hr)
    (PersonalRow.WellFormed.executeAll (fun _ hmem ↦ hmem) hrun hs.wellFormed)
    (closed_advanceCompleted hrun) h.2.2 ?_ ?_ ?_ ?_
  · exact fun u hu ↦ .inl hu
  · exact fun u hu ↦ hu
  · exact fun u hu ↦ List.mem_of_mem_erase hu
  · intro u hu
    rcases List.mem_cons.mp hu with rfl | hold
    · exact .inr ⟨h.1, fun r hr ↦ notMem_users_of_completed hrun hs.wellFormed hr⟩
    · exact .inl hold

theorem Invariant.next (hs : s.Invariant owner) (h : s.Enabled owner a) :
    (s.next a).Invariant owner := by
  cases a with
  | begin writer rows =>
      refine hs.writers_step fun w' hw' ↦ ?_
      rcases List.mem_cons.mp hw' with rfl | hold
      · exact .inr (sound_begin h)
      · exact .inl hold
  | check w => exact hs.replace (hs.sound_check h)
  | find w row => exact hs.replace (hs.sound_find h)
  | lockRow w row => exact hs.replace (hs.sound_lockRow h)
  | insert w row => exact hs.replace (hs.sound_insert h)
  | commit w => exact hs.commit h.1
  | rollback w => exact hs.writers_step fun w' hw' ↦ .inl (List.mem_of_mem_erase hw')
  | remove keep => exact hs.remove h
  | accept userId => exact hs.accept h
  | lockAccount userId => exact hs.lockAccount h
  | unlockAccount userId => exact hs.unlockAccount
  | complete userId => exact hs.complete h

/-- Once an erasure is complete no row names its user, and none is inserted
again, but for the tables whose writers hold nothing and for the accounts of a
match. The last transaction leaves no row of the former either. -/
theorem erasure_is_final {s₀ : Registry} {steps : List RegistryStep} (h₀ : s₀.Initial owner)
    (h : (registry owner).Valid s₀ steps) :
    (∀ userId ∈ ((registry owner).exec s₀ steps).erased,
      ∀ row ∈ ((registry owner).exec s₀ steps).rows, row.table ≠ .webBillingChallenge →
        row.table ≠ .storeAccount → row.table ≠ .matchInit → userId ∉ row.users) ∧
    ∀ userId, ((registry owner).exec s₀ steps).Enabled owner (.complete userId) →
      ∀ row ∈ (((registry owner).exec s₀ steps).next (.complete userId)).rows,
        row.table ≠ .matchInit → userId ∉ row.users := by
  have hs : ((registry owner).exec s₀ steps).Invariant owner :=
    h.invariant h₀.invariant fun _ _ hs henabled ↦ hs.next henabled
  refine ⟨?_, ?_⟩
  · intro userId hu row hrow hchallenge haccount hmatch hmem
    refine hs.rows row hrow ?_ userId hmem hu
    simp [PersonalTable.cleared, hchallenge, haccount, hmatch]
  · intro userId henabled row hrow
    exact notMem_users_of_completed (executeAll_completed henabled) hs.wellFormed hrow

def reviewedCase : PersonalRow :=
  ⟨.moderationCase, [(.userId, 2), (.bioUserId, 2), (.reviewedBy, 1)]⟩

/-- Users 1 and 2, a case about the profile of 2 that 1 has reviewed, and an
invoice and a block of 1. -/
def sampleRegistry : Registry :=
  ⟨[], [], [],
    [⟨.profile, [(.userId, 1)]⟩, ⟨.profile, [(.userId, 2)]⟩,
      ⟨.profileAnswer, [(.id, 5), (.userId, 1)]⟩,
      ⟨.moderationCase, [(.userId, 1), (.profileAnswerId, 5)]⟩, reviewedCase,
      ⟨.invoice, [(.userId, 1)]⟩, ⟨.block, [(.blockerId, 2), (.blockedId, 1)]⟩], []⟩

def sampleErasureSteps : List RegistryStep := [.accept 1, .lockAccount 1, .complete 1]

theorem erasure_is_final_sample :
    (sampleRegistry.Initial (fun _ ↦ 1) ∧
      (registry fun _ ↦ 1).Valid sampleRegistry sampleErasureSteps) ∧
    (∀ row ∈ ((registry fun _ ↦ 1).exec sampleRegistry sampleErasureSteps).rows,
      row.table ≠ .webBillingChallenge → row.table ≠ .storeAccount → row.table ≠ .matchInit →
        1 ∉ row.users) ∧
    ∀ row ∈ (((registry fun _ ↦ 1).exec sampleRegistry [.accept 1, .lockAccount 1]).next
        (.complete 1)).rows, row.table ≠ .matchInit → 1 ∉ row.users :=
  have h₀ : sampleRegistry.Initial fun _ ↦ 1 := ⟨rfl, rfl, rfl, rfl, by decide, by decide⟩
  have h : (registry fun _ ↦ 1).Valid sampleRegistry sampleErasureSteps := by decide
  have hlocked : (registry fun _ ↦ 1).Valid sampleRegistry [.accept 1, .lockAccount 1] :=
    ⟨h.1, h.2.1, trivial⟩
  ⟨⟨h₀, h⟩, (erasure_is_final h₀ h).1 1 (by decide),
    (erasure_is_final h₀ hlocked).2 1 h.2.2.1⟩

def checkSteps (writer : PersonalWriter) (row : PersonalRow) : List RegistryStep :=
  [.begin writer [row], .check (.begin writer [row])]

/-- A writer of one row that has checked its account without a lock. -/
def checkedWrite (writer : PersonalWriter) (row : PersonalRow) : OpenWrite :=
  { OpenWrite.begin writer [row] with ready := true }

def insertSteps (writer : PersonalWriter) (row : PersonalRow) : List RegistryStep :=
  [.insert (checkedWrite writer row) row,
    .commit { checkedWrite writer row with pending := [], inserted := [row] }]

section ReadOnly

variable {writer : PersonalWriter} {row : PersonalRow}

theorem valid_checkSteps (haccess : writer.access = .read) (htable : row.table ∈ writer.tables)
    (hwf : row.WellFormed owner) (hlive : ∀ u ∈ row.column .userId, u ∉ s.deleted) :
    (registry owner).Valid s (checkSteps writer row) := by
  refine ⟨List.forall_mem_singleton.mpr ⟨htable, hwf⟩, ⟨List.mem_cons_self, rfl, ?_⟩, trivial⟩
  have hread : (OpenWrite.begin writer [row]).writer.access = .read := haccess
  rw [hread]
  exact List.forall_mem_singleton.mpr hlive

theorem exec_checkSteps (haccess : writer.access = .read) :
    (registry owner).exec s (checkSteps writer row) =
      { s with writers := checkedWrite writer row :: s.writers } := by
  simp [registry, checkSteps, Registry.next, Registry.replace, checkedWrite, OpenWrite.begin,
    haccess]

theorem valid_insertSteps (hw : checkedWrite writer row ∈ s.writers) (hlive : row.liveUsers = [])
    (hkeys : ∀ u ∈ row.keyUsers, u ∉ s.erasing) (horphan : orphan s.rows row = false) :
    (registry owner).Valid s (insertSteps writer row) := by
  refine ⟨⟨hw, rfl, List.mem_singleton_self row, by simp [hlive], hkeys, horphan⟩, ⟨?_, rfl, rfl⟩,
    trivial⟩
  simp [registry, Registry.next, Registry.replace, checkedWrite, OpenWrite.begin]

theorem exec_insertSteps :
    (registry owner).exec s (insertSteps writer row) =
      { s with rows := row :: s.rows, writers := s.writers.erase (checkedWrite writer row) } := by
  simp [registry, insertSteps, Registry.next, Registry.replace, checkedWrite, OpenWrite.begin]

end ReadOnly

def storeAccountRow : PersonalRow := ⟨.storeAccount, [(.id, 9), (.userId, 1)]⟩

def challengeRow : PersonalRow := ⟨.webBillingChallenge, [(.requestedUserId, 1)]⟩

/-- The account is read before the acceptance of its erasure. -/
def waitingRegistry : Registry :=
  { sampleRegistry with writers := [checkedWrite .upsertAccount storeAccountRow] }

def erasedRegistry : Registry :=
  ⟨[1], [], [1], [⟨.profile, [(.userId, 2)]⟩, reviewedCase, ⟨.invoice, []⟩],
    [checkedWrite .upsertAccount storeAccountRow]⟩

theorem valid_waitingRegistry :
    (registry fun _ ↦ 1).Valid waitingRegistry sampleErasureSteps := by
  have haccept : waitingRegistry.next (.accept 1) = { waitingRegistry with deleted := [1] } := by
    decide
  refine ⟨by decide, ?_⟩
  change (registry fun _ ↦ 1).Valid (waitingRegistry.next (.accept 1)) _
  rw [haccept]
  exact ⟨by decide, by decide, trivial⟩

theorem exec_waitingRegistry :
    (registry fun _ ↦ 1).exec waitingRegistry sampleErasureSteps = erasedRegistry := by
  decide

/-- The store account is written after the erasure, and a challenge is requested
in the name of the erased user. -/
def namingSteps : List RegistryStep :=
  checkSteps .upsertAccount storeAccountRow ++ (sampleErasureSteps ++
    (insertSteps .upsertAccount storeAccountRow ++
      (checkSteps .createChallenge challengeRow ++ insertSteps .createChallenge challengeRow)))

/-- An erased user is named again by a store account and by a challenge, and is
still named as the reviewer of another user's profile. -/
theorem erased_user_named_again :
    sampleRegistry.Initial (fun _ ↦ 1) ∧ (registry fun _ ↦ 1).Valid sampleRegistry namingSteps ∧
    1 ∈ ((registry fun _ ↦ 1).exec sampleRegistry namingSteps).erased ∧
    ∀ row ∈ [storeAccountRow, challengeRow, reviewedCase],
      row ∈ ((registry fun _ ↦ 1).exec sampleRegistry namingSteps).rows := by
  have hwaiting : (registry fun _ ↦ 1).exec sampleRegistry
      (checkSteps .upsertAccount storeAccountRow) = waitingRegistry := exec_checkSteps rfl
  have hkeys : ∀ u ∈ storeAccountRow.keyUsers, u ∉ erasedRegistry.erasing :=
    fun u _ ↦ List.not_mem_nil
  have hnone : ∀ u ∈ challengeRow.column .userId, u ∉ erasedRegistry.deleted :=
    fun u hu ↦ absurd hu (by simp [challengeRow, PersonalRow.column])
  refine ⟨⟨rfl, rfl, rfl, rfl, by decide, by decide⟩, ?_, ?_⟩
  · refine System.valid_append.mpr ⟨valid_checkSteps rfl (by decide) (by decide) ?_, ?_⟩
    · exact fun u _ ↦ List.not_mem_nil
    rw [hwaiting]
    refine System.valid_append.mpr ⟨valid_waitingRegistry, ?_⟩
    rw [exec_waitingRegistry]
    refine System.valid_append.mpr
      ⟨valid_insertSteps List.mem_cons_self rfl hkeys (by decide), ?_⟩
    rw [exec_insertSteps]
    refine System.valid_append.mpr ⟨valid_checkSteps rfl (by decide) (by decide) hnone, ?_⟩
    rw [exec_checkSteps rfl]
    exact valid_insertSteps List.mem_cons_self rfl (fun u _ ↦ List.not_mem_nil) (by decide)
  · rw [namingSteps, System.exec_append, hwaiting, System.exec_append, exec_waitingRegistry,
      System.exec_append, exec_insertSteps, System.exec_append, exec_checkSteps rfl,
      exec_insertSteps]
    exact ⟨by decide, by decide⟩

end Registry

end Histae.Privacy
