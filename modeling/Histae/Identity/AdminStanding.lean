import Histae.Identity.AdminEffects

/-!
# What an administrator transaction relies on

A transaction remembers what its statements have read. Each of these readings
is about a row that it has locked since, or about an account whose open rows
nobody can add to while it is locked, so that it still holds when the
transaction commits.
-/

namespace Histae.Identity

open Relational Systems

def AdminRow.isAccount : AdminRow → Bool
  | .account _ => true
  | _ => false

/-- After the account of a demoted user has its new role. -/
def AdminPhase.isDemoting : AdminPhase → Bool
  | .roleChanged | .demotedSessions | .demotedCredentials | .demotedBootstraps
  | .demotedChallenges => true
  | _ => false

/-- After the counter of the credential is stored. -/
def AdminPhase.isAuthenticated : AdminPhase → Bool
  | .credentialUsed _ | .decided (.opened _) => true
  | _ => false

/-- The rows of a demoted user that the statements so far have ended. -/
def AdminPhase.hasEnded : AdminPhase → AdminRow → Bool
  | .demotedSessions, .session _ => true
  | .demotedCredentials, .session _ | .demotedCredentials, .credential _ => true
  | .demotedBootstraps, row => !row.isChallenge
  | .demotedChallenges, _ => true
  | _, _ => false

/-- What a lock that a request awaits looks like. -/
def AdminRequest.Awaits (l : AdminLock) : AdminRequest → AdminPhase → Prop
  | .consumeChallenge id _ _ _, .challengeSeen _ => l = noKeyUpdate (.challenge id)
  | .completeBootstrap bootstrapId _ _ _ _ _, .bootstrapSeen _ => l = noKeyUpdate (.bootstrap bootstrapId)
  | .addCredential userId _ _, .accountSeen => l = forUpdate (.account userId)
  | .completeAuthentication credentialId _ _ _ _ _ _, .credentialSeen _ =>
      l = forUpdate (.credential credentialId)
  | .activeSession _, .sessionSeen row _ => l = noKeyUpdate (.session row.id)
  | .revokeSession _ sessionId, .sessionSeen _ _ => l = noKeyUpdate (.session sessionId)
  | .revokeSelectedSession _ sessionId _, .sessionSeen _ _ => l = noKeyUpdate (.session sessionId)
  | .renameCredential _ credentialId _, .credentialSeen _ => l = noKeyUpdate (.credential credentialId)
  | .revokeOtherSessions _ _, .revoking => ∃ id, l = noKeyUpdate (.session id)
  | .revokeCredential _ _ _, .revoking => ∃ id, l = noKeyUpdate (.session id)
  | .revokeCredential _ _ _, .counting _ => ∃ id, l = forUpdate (.credential id)
  | .issueBootstrap userId _ _ _, .accountSeen => l = forUpdate (.account userId)
  | .issueBootstrap _ _ _ _, .consuming => l.mode = .noKeyUpdate
  | .setRole targetId _ _, .targetSeen => l = forUpdate (.account targetId)
  | .setBan targetId _ _ _, .targetSeen => l = forUpdate (.account targetId)
  | .setRole _ _ _, .demotedSessions => l.mode = .noKeyUpdate
  | .setRole _ _ _, .demotedCredentials => l.mode = .noKeyUpdate
  | .setRole _ _ _, .demotedBootstraps => l.mode = .noKeyUpdate
  | .setRole _ _ _, .demotedChallenges => l.mode = .noKeyUpdate
  | .cleanUp _ _, .cleaning => l.mode = .update
  | _, _ => True

/-- The request and the phases in which a transaction has made the write. -/
def AdminWrite.Follows (q : AdminRequest) (phase : AdminPhase) : AdminWrite → Prop
  | .setRole userId role => (∃ actorId, q = .setRole userId role actorId) ∧ phase.isDemoting = true
  | .useCredential id counter deviceType backedUp _ =>
      (∃ expected sessionId session,
        q = .completeAuthentication id expected counter deviceType backedUp sessionId session) ∧
        phase.isAuthenticated = true
  | .touchSession id at_ =>
      (∃ tokenHash, q = .activeSession tokenHash) ∧
        ∃ session tested, phase = .decided (.accepted session tested at_) ∧ session.id = id
  | _ => True

namespace AdminAccess

section Standing

variable (db : AdminDb) (t : AdminTransaction)

/-- The transaction holds a lock under which it may write the row. -/
def Holds (row : AdminRow) : Prop := ∃ l ∈ t.held, l.row = row ∧ l.mode.writes = true

/-- The transaction acts for a user: it has locked an open row of the user, or
the account, which is not of a plain user. -/
def Stands (userId : Uuid) : Prop :=
  (∃ row, row.isChallenge = false ∧ db.openRow row = some (some userId) ∧ Holds t row) ∨
    forUpdate (.account userId) ∈ t.held ∧ db.roleOf userId ≠ some .user

/-- What the transaction may have written. -/
structure Licensed (w : AdminWrite) : Prop where
  insertsOpen : w.insertsOpen = true
  locked : w.opens = none → ∃ l ∈ t.locks, l.row = w.target ∧ l.mode.writes = true
  creates : w.opens ≠ none → w.target ∈ t.request.creates
  account : ∀ userId, w.opens = some (some userId) → ∃ l ∈ t.locks, l.row = .account userId
  stands : ∀ userId, w.opens = some (some userId) → w.target.isChallenge = false → Stands db t userId
  follows : w.Follows t.request t.phase

/-- A write of the transaction ends the row. -/
def Ends (row : AdminRow) : Prop := ∃ w ∈ t.writes, w.target = row ∧ w.ends = true

/-- The row is open and locked, and the transaction ends it. -/
structure Spends (row : AdminRow) (owner : Option Uuid) : Prop where
  isOpen : db.openRow row = some owner
  holds : Holds t row
  ends : Ends t row

/-- The credential is active and locked. -/
structure Reads (row : AdminCredential) : Prop where
  found : db.credentials.find? row.id = some row
  active : row.revokedAt = none
  holds : Holds t (.credential row.id)

/-- The session as it is accepted. -/
structure Accepts (row : AdminSession) (tested stored : ℤ) : Prop where
  found : db.sessions.find? row.id = some row
  live : row.isLive tested = true
  holds : Holds t (.session row.id)
  touches : .touchSession row.id stored ∈ t.writes

/-- Another active credential of the user is locked, and none of the writes
ends it. -/
def Survives (userId credentialId : Uuid) : Prop :=
  ∃ id, id ≠ credentialId ∧ db.openRow (.credential id) = some (some userId) ∧
    Holds t (.credential id) ∧ ∀ w ∈ t.writes, w.ends = true → w.target ≠ .credential id

/-- The credentials counted so far and those awaited. -/
structure Counts (userId : Uuid) (ids : List Uuid) : Prop where
  writes : t.writes = []
  nodup : (ids.map AdminRow.credential ++ t.pending.map RowLock.row).Nodup
  counted : ∀ id ∈ ids, db.openRow (.credential id) = some (some userId) ∧ Holds t (.credential id)
  owned : ∀ id, forUpdate (.credential id) ∈ t.pending → ∃ k ∈ db.credentials, k.id = id ∧ k.userId = userId

/-- The account is locked, and the open rows of the user that the statements
so far were about are awaited or ended. -/
structure Demotes (userId : Uuid) (phase : AdminPhase) : Prop where
  locked : forUpdate (.account userId) ∈ t.held
  ended : ∀ row, phase.hasEnded row = true → db.openRow row = some (some userId) →
    (∃ l ∈ t.pending, l.row = row) ∨ Ends t row

section Facts

def consumeChallengeFact (id : Uuid) : AdminPhase → Prop
  | .challengeSeen row => row.consumedAt = none
  | .decided (.consumed (some _)) => ∃ owner, Spends db t (.challenge id) owner
  | _ => True

def completeBootstrapFact (bootstrapId : Uuid) : AdminPhase → Prop
  | .bootstrapSeen row => row.consumedAt = none
  | .bootstrapTaken userId => Spends db t (.bootstrap bootstrapId) (some userId)
  | .bootstrapRegistered userId => Spends db t (.bootstrap bootstrapId) (some userId)
  | .decided (.opened s) =>
      Spends db t (.bootstrap bootstrapId) (some s.userId) ∧ .insertSession s ∈ t.writes
  | _ => True

/-- Of the requests that lock the account of an administrator first. -/
def lockAdministratorFact (userId : Uuid) : AdminPhase → Prop
  | .accountLocked => forUpdate (.account userId) ∈ t.held ∧ db.roleOf userId ≠ some .user
  | .consuming => forUpdate (.account userId) ∈ t.held ∧ db.roleOf userId ≠ some .user
  | _ => True

def completeAuthenticationFact (credentialId : Uuid) (expected next : UInt32) : AdminPhase → Prop
  | .credentialLocked row => Reads db t row ∧ row.id = credentialId
  | .credentialUsed row =>
      Reads db t row ∧ row.id = credentialId ∧ row.counter = expected ∧
        ∃ deviceType backedUp at_, .useCredential credentialId next deviceType backedUp at_ ∈ t.writes
  | .decided (.opened s) =>
      ∃ row, Reads db t row ∧ row.id = credentialId ∧ row.userId = s.userId ∧ row.counter = expected ∧
        (∃ deviceType backedUp at_, .useCredential credentialId next deviceType backedUp at_ ∈ t.writes) ∧
        .insertSession s ∈ t.writes
  | _ => True

def activeSessionFact (tokenHash : List UInt8) : AdminPhase → Prop
  | .sessionSeen row at_ => row.tokenHash = tokenHash ∧ row.isLive at_ = true
  | .decided (.accepted s tested stored) => s.tokenHash = tokenHash ∧ Accepts db t s tested stored
  | _ => True

def revokeCredentialFact (userId credentialId : Uuid) : AdminPhase → Prop
  | .begun => t.writes = []
  | .counting ids => Counts db t userId ids
  | .credentialRevoked => Survives db t userId credentialId ∧ Ends t (.credential credentialId)
  | .revoking => Survives db t userId credentialId ∧ Ends t (.credential credentialId)
  | _ => True

def setRoleFact (targetId : Uuid) (role : AdminUserRole) : AdminPhase → Prop
  | .targetLocked _ => forUpdate (.account targetId) ∈ t.held
  | .roleChanged =>
      Demotes db t targetId .roleChanged ∧ .setRole targetId role ∈ t.writes
  | .demotedSessions => Demotes db t targetId .demotedSessions ∧ .setRole targetId role ∈ t.writes
  | .demotedCredentials => Demotes db t targetId .demotedCredentials ∧ .setRole targetId role ∈ t.writes
  | .demotedBootstraps => Demotes db t targetId .demotedBootstraps ∧ .setRole targetId role ∈ t.writes
  | .demotedChallenges => Demotes db t targetId .demotedChallenges ∧ .setRole targetId role ∈ t.writes
  | .decided (.role .updated) => False
  | _ => True

def setBanFact (targetId : Uuid) : AdminPhase → Prop
  | .targetLocked _ => forUpdate (.account targetId) ∈ t.held
  | _ => True

def Fact (db : AdminDb) (t : AdminTransaction) : AdminRequest → AdminPhase → Prop
  | .consumeChallenge id _ _ _, phase => consumeChallengeFact db t id phase
  | .completeBootstrap bootstrapId _ _ _ _ _, phase => completeBootstrapFact db t bootstrapId phase
  | .addCredential userId _ _, phase => lockAdministratorFact db t userId phase
  | .issueBootstrap userId _ _ _, phase => lockAdministratorFact db t userId phase
  | .completeAuthentication credentialId expected next _ _ _ _, phase =>
      completeAuthenticationFact db t credentialId expected next phase
  | .activeSession tokenHash, phase => activeSessionFact db t tokenHash phase
  | .revokeCredential userId credentialId _, phase => revokeCredentialFact db t userId credentialId phase
  | .setRole targetId role _, phase => setRoleFact db t targetId role phase
  | .setBan targetId _ _ _, phase => setBanFact t targetId phase
  | _, _ => True

end Facts

/-- Everything a transaction relies on. -/
structure Sound : Prop where
  absent : ∀ row ∈ t.request.creates, ¬ db.Has row
  awaited : ∀ l ∈ t.pending, t.request.Awaits l t.phase
  licensed : ∀ w ∈ t.writes, Licensed db t w
  fact : Fact db t t.request t.phase

end Standing

section Growth

variable {db db' : AdminDb} {t t' : AdminTransaction} {row : AdminRow} {w : AdminWrite}

/-- A transaction gives up no lock and takes back no write. -/
structure Grows (t t' : AdminTransaction) : Prop where
  request : t'.request = t.request
  held : ∀ l ∈ t.held, l ∈ t'.held
  locks : ∀ l ∈ t.locks, l ∈ t'.locks
  writes : ∀ w ∈ t.writes, w ∈ t'.writes

theorem grows_take {l : AdminLock} {rest : List AdminLock} (h : t.pending = l :: rest)
    (result : AdminPhase × List AdminWrite) : Grows t (t.take l result) where
  request := rfl
  held := fun _ hm ↦ List.mem_append_left _ hm
  locks := fun _ hm ↦ (t.locks_take h result).symm ▸ hm
  writes := fun _ hw ↦ List.mem_append_left _ hw

theorem grows_scan (h : t.pending = []) (locks : List AdminLock) (writes : List AdminWrite)
    (phase : AdminPhase) : Grows t (t.scan locks writes phase) where
  request := rfl
  held := fun _ hm ↦ hm
  locks := fun _ hm ↦ (t.mem_locks_scan h locks writes phase).mpr (Or.inl hm)
  writes := fun _ hw ↦ List.mem_append_left _ hw

theorem Holds.grows (h : Holds t row) (hgrows : Grows t t') : Holds t' row := by
  obtain ⟨l, hl, hrow, hmode⟩ := h
  exact ⟨l, hgrows.held l hl, hrow, hmode⟩

theorem holds_take (l : AdminLock) (result : AdminPhase × List AdminWrite)
    (h : l.mode.writes = true) : Holds (t.take l result) l.row :=
  ⟨l, List.mem_append_right _ List.mem_cons_self, rfl, h⟩

theorem Ends.grows (h : Ends t row) (hgrows : Grows t t') : Ends t' row := by
  obtain ⟨w, hw, htarget⟩ := h
  exact ⟨w, hgrows.writes w hw, htarget⟩

theorem Stands.grows {userId : Uuid} (h : Stands db t userId) (hgrows : Grows t t') :
    Stands db t' userId := by
  rcases h with ⟨row, hkind, hopen, hholds⟩ | ⟨hlock, hrole⟩
  · exact Or.inl ⟨row, hkind, hopen, hholds.grows hgrows⟩
  · exact Or.inr ⟨hgrows.held _ hlock, hrole⟩

theorem Licensed.grows (h : Licensed db t w) (hgrows : Grows t t')
    (hfollows : w.Follows t'.request t'.phase) : Licensed db t' w where
  insertsOpen := h.insertsOpen
  locked := fun hopens ↦ by
    obtain ⟨l, hl, hlock⟩ := h.locked hopens
    exact ⟨l, hgrows.locks l hl, hlock⟩
  creates := fun hopens ↦ hgrows.request ▸ h.creates hopens
  account := fun userId hopens ↦ by
    obtain ⟨l, hl, hrow⟩ := h.account userId hopens
    exact ⟨l, hgrows.locks l hl, hrow⟩
  stands := fun userId hopens hkind ↦ (h.stands userId hopens hkind).grows hgrows
  follows := hfollows

theorem Spends.grows {owner : Option Uuid} (h : Spends db t row owner) (hgrows : Grows t t') :
    Spends db t' row owner := ⟨h.isOpen, h.holds.grows hgrows, h.ends.grows hgrows⟩

theorem Reads.grows {k : AdminCredential} (h : Reads db t k) (hgrows : Grows t t') :
    Reads db t' k := ⟨h.found, h.active, h.holds.grows hgrows⟩

theorem Reads.openRow_eq {k : AdminCredential} (h : Reads db t k) :
    db.openRow (.credential k.id) = some (some k.userId) := by
  change ((db.credentials.find? k.id).filter fun k ↦ k.revokedAt.isNone).map _ = _
  rw [h.found, Option.filter_some, h.active]
  rfl

theorem Reads.stands {k : AdminCredential} (h : Reads db t k) : Stands db t k.userId :=
  Or.inl ⟨.credential k.id, rfl, h.openRow_eq, h.holds⟩

theorem Spends.stands {userId : Uuid} (h : Spends db t row (some userId))
    (hkind : row.isChallenge = false) : Stands db t userId := Or.inl ⟨row, hkind, h.isOpen, h.holds⟩

end Growth

section Frames

variable {db db' : AdminDb} {t : AdminTransaction} {row : AdminRow} {w : AdminWrite}

theorem has_of_openRow {owner : Option Uuid} (h : db.openRow row = some owner) : db.Has row := by
  cases row with
  | account userId => cases h
  | _ =>
      obtain ⟨r, hr, _⟩ := Option.map_eq_some_iff.mp h
      exact Option.isSome_iff_exists.mpr ⟨r, (Option.filter_eq_some_iff.mp hr).1⟩

/-- What the commits of other transactions leave to a transaction. -/
structure Kept (db db' : AdminDb) (t : AdminTransaction) : Prop where
  held : ∀ row, Holds t row → row.isAccount = true ∨ db.Has row → db.SameRow db' row
  opened : ∀ userId row, forUpdate (.account userId) ∈ t.held →
    db'.openRow row = some (some userId) → db.openRow row = some (some userId)
  absent : ∀ row ∈ t.request.creates, ¬ db.Has row → ¬ db'.Has row
  credential : ∀ k ∈ db.credentials, ∃ k' ∈ db'.credentials, k'.id = k.id ∧ k'.userId = k.userId

theorem Kept.openRow_eq (h : Kept db db' t) {owner : Option Uuid} (hholds : Holds t row)
    (hopen : db.openRow row = some owner) : db'.openRow row = some owner :=
  (h.held row hholds (Or.inr (has_of_openRow hopen))).openRow_eq.trans hopen

theorem holds_forUpdate (h : forUpdate row ∈ t.held) : Holds t row := ⟨forUpdate row, h, rfl, rfl⟩

theorem Kept.roleOf_eq (h : Kept db db' t) {userId : Uuid}
    (hlock : forUpdate (.account userId) ∈ t.held) : db'.roleOf userId = db.roleOf userId :=
  (h.held _ (holds_forUpdate hlock) (Or.inl rfl)).roleOf_eq

theorem Stands.kept {userId : Uuid} (h : Stands db t userId) (hkept : Kept db db' t) :
    Stands db' t userId := by
  rcases h with ⟨row, hkind, hopen, hholds⟩ | ⟨hlock, hrole⟩
  · exact Or.inl ⟨row, hkind, hkept.openRow_eq hholds hopen, hholds⟩
  · exact Or.inr ⟨hlock, hkept.roleOf_eq hlock ▸ hrole⟩

theorem Licensed.kept (h : Licensed db t w) (hkept : Kept db db' t) : Licensed db' t w :=
  { h with stands := fun userId hopens hkind ↦ (h.stands userId hopens hkind).kept hkept }

theorem Spends.kept {owner : Option Uuid} (h : Spends db t row owner) (hkept : Kept db db' t) :
    Spends db' t row owner := { h with isOpen := hkept.openRow_eq h.holds h.isOpen }

theorem Reads.kept {k : AdminCredential} (h : Reads db t k) (hkept : Kept db db' t) :
    Reads db' t k := by
  have hsame := hkept.held _ h.holds (Or.inr (has_of_openRow h.openRow_eq))
  exact { h with found := Eq.trans hsame h.found }

theorem Accepts.kept {s : AdminSession} {tested stored : ℤ} (h : Accepts db t s tested stored)
    (hkept : Kept db db' t) : Accepts db' t s tested stored := by
  have hsame := hkept.held _ h.holds (Or.inr (Option.isSome_iff_exists.mpr ⟨s, h.found⟩))
  exact { h with found := Eq.trans hsame h.found }

theorem Survives.kept {userId credentialId : Uuid} (h : Survives db t userId credentialId)
    (hkept : Kept db db' t) : Survives db' t userId credentialId := by
  obtain ⟨id, hne, hopen, hholds, hwrites⟩ := h
  exact ⟨id, hne, hkept.openRow_eq hholds hopen, hholds, hwrites⟩

theorem Counts.kept {userId : Uuid} {ids : List Uuid} (h : Counts db t userId ids)
    (hkept : Kept db db' t) : Counts db' t userId ids where
  writes := h.writes
  nodup := h.nodup
  counted := fun id hid ↦
    ⟨hkept.openRow_eq (h.counted id hid).2 (h.counted id hid).1, (h.counted id hid).2⟩
  owned := fun id hid ↦ by
    obtain ⟨k, hk, hkid, howner⟩ := h.owned id hid
    obtain ⟨k', hk', hkid', howner'⟩ := hkept.credential k hk
    exact ⟨k', hk', hkid'.trans hkid, howner'.trans howner⟩

theorem Demotes.kept {userId : Uuid} {phase : AdminPhase} (h : Demotes db t userId phase)
    (hkept : Kept db db' t) : Demotes db' t userId phase where
  locked := h.locked
  ended := fun row hphase hopen ↦ h.ended row hphase (hkept.opened userId row h.locked hopen)

theorem Fact.kept {q : AdminRequest} {phase : AdminPhase} (h : Fact db t q phase)
    (hkept : Kept db db' t) : Fact db' t q phase := by
  cases q with
  | consumeChallenge id purpose userId bootstrapId =>
      cases phase with
      | challengeSeen row => exact h
      | decided result =>
          cases result with
          | consumed state =>
              cases state with
              | none => trivial
              | some ceremonyState =>
                  obtain ⟨owner, hspends⟩ := h
                  exact ⟨owner, hspends.kept hkept⟩
          | _ => trivial
      | _ => trivial
  | completeBootstrap bootstrapId secretHash credentialId credential sessionId session =>
      cases phase with
      | bootstrapSeen row => exact h
      | bootstrapTaken userId => exact Spends.kept h hkept
      | bootstrapRegistered userId => exact Spends.kept h hkept
      | decided result =>
          cases result with
          | opened s => exact ⟨Spends.kept h.1 hkept, h.2⟩
          | _ => trivial
      | _ => trivial
  | addCredential userId credentialId credential =>
      cases phase with
      | accountLocked => exact ⟨h.1, hkept.roleOf_eq h.1 ▸ h.2⟩
      | consuming => exact ⟨h.1, hkept.roleOf_eq h.1 ▸ h.2⟩
      | _ => trivial
  | issueBootstrap userId bootstrapId secretHash expiresAt =>
      cases phase with
      | accountLocked => exact ⟨h.1, hkept.roleOf_eq h.1 ▸ h.2⟩
      | consuming => exact ⟨h.1, hkept.roleOf_eq h.1 ▸ h.2⟩
      | _ => trivial
  | completeAuthentication credentialId expected next deviceType backedUp sessionId session =>
      cases phase with
      | credentialLocked row => exact ⟨Reads.kept h.1 hkept, h.2⟩
      | credentialUsed row => exact ⟨Reads.kept h.1 hkept, h.2⟩
      | decided result =>
          cases result with
          | opened s =>
              obtain ⟨row, hreads, hrest⟩ := h
              exact ⟨row, hreads.kept hkept, hrest⟩
          | _ => trivial
      | _ => trivial
  | activeSession tokenHash =>
      cases phase with
      | sessionSeen row at_ => exact h
      | decided result =>
          cases result with
          | accepted s tested stored => exact ⟨h.1, Accepts.kept h.2 hkept⟩
          | _ => trivial
      | _ => trivial
  | revokeCredential userId credentialId currentSessionId =>
      cases phase with
      | begun => exact h
      | counting ids => exact Counts.kept h hkept
      | credentialRevoked => exact ⟨Survives.kept h.1 hkept, h.2⟩
      | revoking => exact ⟨Survives.kept h.1 hkept, h.2⟩
      | _ => trivial
  | setRole targetId role actorId =>
      cases phase with
      | targetLocked row => exact h
      | roleChanged => exact ⟨Demotes.kept h.1 hkept, h.2⟩
      | demotedSessions => exact ⟨Demotes.kept h.1 hkept, h.2⟩
      | demotedCredentials => exact ⟨Demotes.kept h.1 hkept, h.2⟩
      | demotedBootstraps => exact ⟨Demotes.kept h.1 hkept, h.2⟩
      | demotedChallenges => exact ⟨Demotes.kept h.1 hkept, h.2⟩
      | decided result =>
          cases result with
          | role result => cases result <;> exact h
          | _ => trivial
      | _ => trivial
  | _ => exact h

theorem Sound.kept (h : Sound db t) (hkept : Kept db db' t) : Sound db' t where
  absent := fun row hrow ↦ hkept.absent row hrow (h.absent row hrow)
  awaited := h.awaited
  licensed := fun w hw ↦ (h.licensed w hw).kept hkept
  fact := h.fact.kept hkept

end Frames

section Commits

variable {idleTtl : ℤ} {db db' : AdminDb} {t u : AdminTransaction} {row : AdminRow} {w : AdminWrite}

theorem not_account_of_creates {q : AdminRequest} (h : row ∈ q.creates) : row.isAccount = false := by
  cases q <;> simp [AdminRequest.creates] at h <;> rcases h with rfl | rfl <;> rfl

/-- A committing transaction writes no row that another transaction has locked
for a write. -/
theorem target_ne_of_holds (h : Sound db t) (hpending : t.pending = [])
    (hseparate : (adminAccess idleTtl).Separate t u) (hholds : Holds u row)
    (hstored : row.isAccount = true ∨ db.Has row) : ∀ w ∈ t.writes, w.target ≠ row := by
  rintro w hw rfl
  cases hopens : w.opens with
  | none =>
      obtain ⟨l, hl, hrow, hmode⟩ := (h.licensed w hw).locked hopens
      obtain ⟨m, hm, hrow', hmode'⟩ := hholds
      rw [t.locks_of_pending hpending] at hl
      exact hseparate.excludes.not_held hl hm (hrow.trans hrow'.symm)
        (RowLockMode.conflicts_of_writes hmode hmode')
  | some owner =>
      have hcreates := (h.licensed w hw).creates (by simp [hopens])
      rcases hstored with haccount | hhas
      · rw [not_account_of_creates hcreates] at haccount
        cases haccount
      · exact h.absent _ hcreates hhas

theorem kept_of_commit (ht : Sound db t) (hpending : t.pending = [])
    (hseparate : (adminAccess idleTtl).Separate t u) (hwrites : db.writeAll idleTtl t.writes = some db') :
    Kept db db' u where
  held := fun row hholds hstored ↦
    sameRow_writeAll hwrites (target_ne_of_holds ht hpending hseparate hholds hstored)
  opened := fun userId row hlock hopen ↦ by
    rcases openRow_writeAll hwrites (fun w hw ↦ (ht.licensed w hw).insertsOpen) hopen with
      ⟨hbefore, _⟩ | ⟨w, hw, _, hopens⟩
    · exact hbefore
    · obtain ⟨l, hl, hrow⟩ := (ht.licensed w hw).account userId hopens
      rw [t.locks_of_pending hpending] at hl
      exact (hseparate.excludes.not_held hl hlock hrow (RowLockMode.conflicts_update _)).elim
  absent := fun row hcreates hbefore hafter ↦ by
    rcases has_writeAll hwrites hafter with hhas | ⟨w, hw, rfl, hopens⟩
    · exact hbefore hhas
    · exact hseparate.creates _ ((ht.licensed w hw).creates hopens) hcreates
  credential := fun k hk ↦ credential_writeAll hwrites hk

end Commits

end AdminAccess

end Histae.Identity
