import Histae.Identity.AdminSteps

/-!
# Administrator access in every run

The invariant of the committed tables and of the answers, and what it says
about the runs of all transactions: a plain user has no access, a row that was
ended gives none again, a challenge or a bootstrap is used up once, the counter
of a credential links its logins, and an accepted session respects its limits.
-/

namespace Histae.Identity

open Relational Systems

abbrev AdminAnswer := RowAnswer AdminRequest AdminOutcome

/-- Answers that rest on an open row. -/
def AdminOutcome.grants : AdminOutcome → Bool
  | .consumed (some _) | .opened _ | .accepted _ _ _ => true
  | _ => false

structure Acceptance where
  tested : ℤ
  stored : ℤ
  absoluteExpiresAt : ℤ
  deriving DecidableEq

namespace AdminAccess

/-- The challenge or bootstrap that an answer uses up. -/
def usesUp (a : AdminAnswer) : Option AdminRow :=
  match a.request, a.result with
  | .consumeChallenge id _ _ _, .consumed (some _) => some (.challenge id)
  | .completeBootstrap bootstrapId _ _ _ _ _, .opened _ => some (.bootstrap bootstrapId)
  | _, _ => none

/-- The rows that an answer rests on, with the session that it opens. -/
def restsOn (a : AdminAnswer) : List AdminRow :=
  match a.request, a.result with
  | .consumeChallenge id _ _ _, .consumed (some _) => [.challenge id]
  | .completeBootstrap bootstrapId _ _ _ _ _, .opened s => [.bootstrap bootstrapId, .session s.id]
  | .completeAuthentication credentialId _ _ _ _ _ _, .opened s =>
      [.credential credentialId, .session s.id]
  | .activeSession _, .accepted s _ _ => [.session s.id]
  | _, _ => []

/-- The expected and the next counter of a login with the credential. -/
def loginOf (credentialId : Uuid) (a : AdminAnswer) : Option (UInt32 × UInt32) :=
  match a.request, a.result with
  | .completeAuthentication id expected next _ _ _ _, .opened _ =>
      if id = credentialId then some (expected, next) else none
  | _, _ => none

def acceptanceOf (sessionId : Uuid) (a : AdminAnswer) : Option Acceptance :=
  match a.request, a.result with
  | .activeSession _, .accepted s tested stored =>
      if s.id = sessionId then some ⟨tested, stored, s.absoluteExpiresAt⟩ else none
  | _, _ => none

section Answers

variable {db : AdminDb} {now : ℤ} {q : AdminRequest} {phase : AdminPhase} {result : AdminOutcome}
  {id : ℕ} {row : AdminRow} {t : AdminTransaction}

theorem mem_restsOn_of_usesUp {a : AdminAnswer} (h : usesUp a = some row) : row ∈ restsOn a := by
  obtain ⟨id, q, result⟩ := a
  unfold usesUp at h
  split at h
  · rename_i hq hresult
    cases hq
    cases hresult
    cases h
    exact List.mem_cons_self
  · rename_i hq hresult
    cases hq
    cases hresult
    cases h
    exact List.mem_cons_self
  · cases h

theorem decided_of_commit (h : db.statement now q phase = .commit result) (hgrants : result.grants = true) :
    phase = .decided result := by
  cases q with
  | createChallenge id input => cases phase <;> cases h; rfl
  | consumeChallenge id purpose userId bootstrapId =>
      cases phase with
      | begun =>
          simp only [AdminDb.statement, AdminDb.consumeChallengeStatement] at h
          split at h <;> cases h
          cases hgrants
      | decided outcome => cases h; rfl
      | _ => cases h
  | completeBootstrap bootstrapId secretHash credentialId credential sessionId session =>
      cases phase with
      | begun =>
          simp only [AdminDb.statement, AdminDb.completeBootstrapStatement] at h
          split at h <;> cases h
          cases hgrants
      | decided outcome => cases h; rfl
      | _ => cases h
  | addCredential userId credentialId credential =>
      cases phase with
      | begun =>
          simp only [AdminDb.statement, AdminDb.addCredentialStatement, AdminDb.selectAdministrator] at h
          split at h <;> cases h
          cases hgrants
      | decided outcome => cases h; rfl
      | _ => cases h
  | completeAuthentication credentialId expected next deviceType backedUp sessionId session =>
      cases phase with
      | begun =>
          simp only [AdminDb.statement, AdminDb.completeAuthenticationStatement] at h
          split at h <;> cases h
          cases hgrants
      | credentialLocked row =>
          simp only [AdminDb.statement, AdminDb.completeAuthenticationStatement] at h
          split at h <;> cases h
          cases hgrants
      | decided outcome => cases h; rfl
      | _ => cases h
  | activeSession tokenHash =>
      cases phase with
      | begun =>
          simp only [AdminDb.statement, AdminDb.activeSessionStatement] at h
          split at h <;> cases h
          cases hgrants
      | decided outcome => cases h; rfl
      | _ => cases h
  | revokeSession userId sessionId =>
      cases phase with
      | begun =>
          simp only [AdminDb.statement, AdminDb.revokeSessionStatement, AdminDb.updateSessionStatement] at h
          split at h <;> cases h
          cases hgrants
      | decided outcome => cases h; rfl
      | _ => cases h
  | revokeOtherSessions userId currentSessionId =>
      cases phase with
      | revoking => cases h; cases hgrants
      | _ => cases h
  | revokeSelectedSession userId sessionId currentSessionId =>
      cases phase with
      | begun =>
          simp only [AdminDb.statement, AdminDb.revokeSelectedSessionStatement,
            AdminDb.updateSessionStatement] at h
          split at h <;> cases h
          cases hgrants
      | decided outcome => cases h; rfl
      | _ => cases h
  | renameCredential userId credentialId name =>
      cases phase with
      | begun =>
          simp only [AdminDb.statement, AdminDb.renameCredentialStatement] at h
          split at h <;> cases h
          cases hgrants
      | decided outcome => cases h; rfl
      | _ => cases h
  | revokeCredential userId credentialId currentSessionId =>
      cases phase with
      | counting ids =>
          simp only [AdminDb.statement, AdminDb.revokeCredentialStatement] at h
          split at h
          · cases h
            cases hgrants
          · split at h <;> cases h
            cases hgrants
      | revoking => cases h; cases hgrants
      | _ => cases h
  | issueBootstrap userId bootstrapId secretHash expiresAt =>
      cases phase with
      | begun =>
          simp only [AdminDb.statement, AdminDb.issueBootstrapStatement, AdminDb.selectAdministrator] at h
          split at h <;> cases h
          cases hgrants
      | decided outcome => cases h; rfl
      | _ => cases h
  | setRole targetId role actorId =>
      cases phase with
      | begun =>
          simp only [AdminDb.statement, AdminDb.setRoleStatement] at h
          split at h <;> cases h
          cases hgrants
      | actorLocked =>
          simp only [AdminDb.statement, AdminDb.setRoleStatement] at h
          split at h
          · cases h
            cases hgrants
          · split at h <;> cases h
            cases hgrants
      | targetLocked row =>
          simp only [AdminDb.statement, AdminDb.setRoleStatement] at h
          split at h
          · cases h
            cases hgrants
          · split at h <;> cases h
            cases hgrants
      | roleChanged =>
          simp only [AdminDb.statement, AdminDb.setRoleStatement] at h
          split at h <;> cases h
          cases hgrants
      | demotedChallenges => cases h; cases hgrants
      | decided outcome => cases h; rfl
      | _ => cases h
  | setBan targetId isBanned adminId adminRole =>
      cases phase with
      | begun =>
          simp only [AdminDb.statement, AdminDb.setBanStatement] at h
          split at h <;> cases h
          cases hgrants
      | targetLocked row =>
          simp only [AdminDb.statement, AdminDb.setBanStatement] at h
          split at h <;> cases h
          cases hgrants
      | decided outcome => cases h; rfl
      | _ => cases h
  | cleanUp table ids =>
      cases phase with
      | begun =>
          simp only [AdminDb.statement, AdminDb.cleanUpStatement] at h
          split at h <;> cases h
      | cleaning => cases h; cases hgrants
      | _ => cases h

/-- A change of a role that has been made is answered after its last statement. -/
theorem updated_of_commit {targetId actorId : Uuid} {role : AdminUserRole}
    (h : db.setRoleStatement targetId role actorId phase = .commit result)
    (hphase : phase.isDemoting = true) :
    result = .role .updated ∧ (role = .user → phase = .demotedChallenges) := by
  cases phase with
  | roleChanged =>
      simp only [AdminDb.setRoleStatement] at h
      split at h
      · cases h
      · rename_i hrole
        cases h
        exact ⟨rfl, fun huser ↦ absurd huser hrole⟩
  | demotedChallenges =>
      cases h
      exact ⟨rfl, fun _ ↦ rfl⟩
  | demotedSessions | demotedCredentials | demotedBootstraps => cases h
  | _ => cases hphase

theorem demoting_of_updated {targetId actorId : Uuid} {role : AdminUserRole}
    (h : db.setRoleStatement targetId role actorId phase = .commit (.role .updated))
    (hfact : setRoleFact db t targetId role phase) : phase.isDemoting = true := by
  cases phase with
  | begun =>
      simp only [AdminDb.setRoleStatement] at h
      split at h <;> cases h
  | actorLocked =>
      simp only [AdminDb.setRoleStatement] at h
      split at h
      · cases h
      · split at h <;> cases h
  | targetLocked row =>
      simp only [AdminDb.setRoleStatement] at h
      split at h
      · cases h
      · split at h <;> cases h
  | roleChanged | demotedSessions | demotedCredentials | demotedBootstraps | demotedChallenges => rfl
  | decided outcome =>
      cases h
      exact hfact.elim
  | _ => cases h

/-- What a granted answer rests on is open before the commit, or inserted by it. -/
theorem open_of_restsOn (h : Sound db t) (hphase : t.phase = .decided result)
    (hrow : row ∈ restsOn ⟨id, t.request, result⟩) :
    (∃ owner, db.openRow row = some owner) ∨ row ∈ t.request.creates := by
  have hinserted {s : AdminSession} (hw : .insertSession s ∈ t.writes) :
      AdminRow.session s.id ∈ t.request.creates :=
    (h.licensed (.insertSession s) hw).creates fun hopens ↦ by cases hopens
  have hfact := h.fact
  rw [hphase] at hfact
  unfold restsOn at hrow
  split at hrow
  · rename_i id purpose userId bootstrapId state hq hresult
    cases hresult
    change t.request = _ at hq
    rw [hq] at hfact
    obtain ⟨owner, hspends⟩ := hfact
    rw [List.mem_singleton.mp hrow]
    exact Or.inl ⟨owner, hspends.isOpen⟩
  · rename_i bootstrapId secretHash credentialId credential sessionId session s hq hresult
    cases hresult
    change t.request = _ at hq
    rw [hq] at hfact
    rcases List.mem_cons.mp hrow with rfl | hrow
    · exact Or.inl ⟨_, hfact.1.isOpen⟩
    · rw [List.mem_singleton.mp hrow]
      exact Or.inr (hinserted hfact.2)
  · rename_i credentialId expected next deviceType backedUp sessionId session s hq hresult
    cases hresult
    change t.request = _ at hq
    rw [hq] at hfact
    obtain ⟨k, hreads, hid, _, _, _, hinsert⟩ := hfact
    rcases List.mem_cons.mp hrow with rfl | hrow
    · exact Or.inl ⟨_, hid ▸ hreads.openRow_eq⟩
    · rw [List.mem_singleton.mp hrow]
      exact Or.inr (hinserted hinsert)
  · rename_i tokenHash s tested stored hq hresult
    cases hresult
    change t.request = _ at hq
    rw [hq] at hfact
    rw [List.mem_singleton.mp hrow]
    exact Or.inl ⟨_, openRow_session hfact.2.found (unrevoked_of_isLive hfact.2.live)⟩
  · cases hrow

theorem grants_of_mem_restsOn (hrow : row ∈ restsOn ⟨id, q, result⟩) : result.grants = true := by
  unfold restsOn at hrow
  split at hrow
  · rename_i hresult
    cases hresult
    rfl
  · rename_i hresult
    cases hresult
    rfl
  · rename_i hresult
    cases hresult
    rfl
  · rename_i hresult
    cases hresult
    rfl
  · cases hrow

theorem spends_of_usesUp (h : Sound db t) (hphase : t.phase = .decided result)
    (hrow : usesUp ⟨id, t.request, result⟩ = some row) : ∃ owner, Spends db t row owner := by
  have hfact := h.fact
  rw [hphase] at hfact
  unfold usesUp at hrow
  split at hrow
  · rename_i hq hresult
    cases hresult
    change t.request = _ at hq
    rw [hq] at hfact
    cases hrow
    exact hfact
  · rename_i hq hresult
    cases hresult
    change t.request = _ at hq
    rw [hq] at hfact
    cases hrow
    exact ⟨_, hfact.1⟩
  · cases hrow

end Answers

/-- Each login expects the counter that the login before it has stored. -/
def LoginsLinked (db : AdminDb) (credentialId : Uuid) (logins : List (UInt32 × UInt32)) : Prop :=
  logins.IsChain (fun newer older ↦ newer.1 = older.2) ∧
    ∀ last ∈ logins.head?, ∃ k, db.credentials.find? credentialId = some k ∧ k.counter = last.2

/-- Each use of a session follows the one before it within the idle limit, and
none moves the limit of its age. -/
def AcceptancesLinked (idleTtl : ℤ) (db : AdminDb) (sessionId : Uuid) (uses : List Acceptance) : Prop :=
  uses.IsChain (fun newer older ↦ newer.tested < older.stored + idleTtl ∧
    newer.absoluteExpiresAt = older.absoluteExpiresAt) ∧
    (∀ use ∈ uses, use.tested < use.absoluteExpiresAt) ∧
    ∀ last ∈ uses.head?, ∀ s, db.sessions.find? sessionId = some s →
      s.idleExpiresAt ≤ last.stored + idleTtl ∧ s.absoluteExpiresAt = last.absoluteExpiresAt

/-- The tables and the answers after the rows of `D` were ended and the answers
`old` were given. -/
structure Invariant (idleTtl : ℤ) (D : AdminRow → Prop) (old : List AdminAnswer)
    (c : AdminCommitted) : Prop where
  issued : ∀ row, row.isAccount = false → c.db.Has row → row ∈ c.issued
  users : ∀ userId row, c.db.roleOf userId = some .user → row.isChallenge = false →
    c.db.openRow row ≠ some (some userId)
  ended : ∀ row, D row ∨ row ∈ c.answers.filterMap usesUp → c.db.openRow row = none
  spent : (c.answers.filterMap usesUp).Nodup
  logins : ∀ credentialId, LoginsLinked c.db credentialId (c.answers.filterMap (loginOf credentialId))
  acceptances : ∀ sessionId,
    AcceptancesLinked idleTtl c.db sessionId (c.answers.filterMap (acceptanceOf sessionId))
  known : ∀ row, D row ∨ (∃ a ∈ c.answers, row ∈ restsOn a) → row ∈ c.issued
  served : ∃ new, c.answers = new ++ old ∧ ∀ a ∈ new, ∀ row ∈ restsOn a, ¬ D row

/-- What every transaction in flight relies on; the rows that it inserts are
new to everything else. -/
structure Assertion (D : AdminRow → Prop) (c : AdminCommitted) (t : AdminTransaction) : Prop where
  sound : Sound c.db t
  issued : ∀ row ∈ t.request.creates, row ∈ c.issued
  fresh : ∀ row ∈ t.request.creates, ¬ D row ∧ ∀ a ∈ c.answers, row ∉ restsOn a

section Commits

variable {idleTtl : ℤ} {D : AdminRow → Prop} {old : List AdminAnswer} {c : AdminCommitted}
  {t : AdminTransaction} {now : ℤ} {result : AdminOutcome} {db' : AdminDb} {row : AdminRow}

theorem openRow_none_kept {db : AdminDb} (h : Sound db t) (hwrites : db.writeAll idleTtl t.writes = some db')
    (hrow : db.openRow row = none) (hcreates : row ∉ t.request.creates) : db'.openRow row = none := by
  cases hafter : db'.openRow row with
  | none => rfl
  | some owner =>
      rcases openRow_writeAll hwrites (fun w hw ↦ (h.licensed w hw).insertsOpen) hafter with
        ⟨hbefore, _⟩ | ⟨w, hw, rfl, hopens⟩
      · rw [hrow] at hbefore
        cases hbefore
      · exact absurd ((h.licensed w hw).creates (by simp [hopens])) hcreates

theorem openRow_none_of_spends {db : AdminDb} (h : Sound db t)
    (hwrites : db.writeAll idleTtl t.writes = some db') {owner : Option Uuid}
    (hspends : Spends db t row owner) : db'.openRow row = none := by
  cases hafter : db'.openRow row with
  | none => rfl
  | some other =>
      rcases openRow_writeAll hwrites (fun w hw ↦ (h.licensed w hw).insertsOpen) hafter with
        ⟨_, hkeeps⟩ | ⟨w, hw, rfl, hopens⟩
      · obtain ⟨w, hw, htarget, hends⟩ := hspends.ends
        rw [hkeeps w hw htarget] at hends
        cases hends
      · have hcreates := (h.licensed w hw).creates (by simp [hopens])
        exact absurd (has_of_openRow hspends.isOpen) (h.absent _ hcreates)

/-- A request that inserts nothing opens nothing. -/
theorem opens_of_creates {db : AdminDb} (h : Sound db t) (hcreates : t.request.creates = []) :
    ∀ w ∈ t.writes, w.opens = none := fun w hw ↦ by
  by_contra hopens
  have hmem := (h.licensed w hw).creates hopens
  rw [hcreates] at hmem
  cases hmem

/-- The credential that survives a revocation is there after its commit. -/
theorem credential_of_survives {db : AdminDb} {userId credentialId : Uuid} (h : Sound db t)
    (hcreates : t.request.creates = []) (hwrites : db.writeAll idleTtl t.writes = some db')
    (hsurvives : Survives db t userId credentialId) :
    ∃ k ∈ db'.credentials, k.id ≠ credentialId ∧ k.userId = userId ∧ k.revokedAt = none := by
  obtain ⟨survivor, hne, hopen, _, hkeeps⟩ := hsurvives
  have hafter : db'.openRow (.credential survivor) = some (some userId) :=
    openRow_kept hwrites (fun v hv ↦ (h.licensed v hv).insertsOpen) hopen fun v hv hvtarget ↦
      ⟨Bool.eq_false_iff.mpr fun hvends ↦ hkeeps v hv hvends hvtarget, opens_of_creates h hcreates v hv⟩
  obtain ⟨k, hk, howner⟩ := Option.map_eq_some_iff.mp hafter
  obtain ⟨hfind, hactive⟩ := Option.filter_eq_some_iff.mp hk
  obtain ⟨hmem, rfl⟩ := Table.find?_eq_some_iff.mp hfind
  exact ⟨k, hmem, hne, Option.some.inj howner, Option.isNone_iff_eq_none.mp hactive⟩

/-- The last statement of a demotion leaves the user with no open row. -/
theorem openRow_of_demotes {db : AdminDb} {targetId actorId : Uuid} (h : Sound db t)
    (hpending : t.pending = []) (hwrites : db.writeAll idleTtl t.writes = some db')
    (hq : t.request = .setRole targetId .user actorId) (hphase : t.phase = .demotedChallenges) :
    db'.openRow row ≠ some (some targetId) := by
  intro hafter
  have hfact := h.fact
  rw [hq, hphase] at hfact
  rcases openRow_writeAll hwrites (fun w hw ↦ (h.licensed w hw).insertsOpen) hafter with
    ⟨hbefore, hkeeps⟩ | ⟨w, hw, rfl, hopens⟩
  · rcases hfact.1.ended row rfl hbefore with ⟨l, hl, _⟩ | ⟨w, hw, htarget, hends⟩
    · rw [hpending] at hl
      exact absurd hl List.not_mem_nil
    · rw [hkeeps w hw htarget] at hends
      cases hends
  · rw [opens_of_creates h (by rw [hq]; rfl) w hw] at hopens
    cases hopens

theorem commit_users (hI : Invariant idleTtl D old c) (h : Sound c.db t) (hpending : t.pending = [])
    (hstatement : c.db.statement now t.request t.phase = .commit result)
    (hwrites : c.db.writeAll idleTtl t.writes = some db') {userId : Uuid}
    (hrole : db'.roleOf userId = some .user) (hkind : row.isChallenge = false) :
    db'.openRow row ≠ some (some userId) := by
  rcases roleOf_writeAll hwrites hrole with hbefore | hset
  · intro hafter
    rcases openRow_writeAll hwrites (fun w hw ↦ (h.licensed w hw).insertsOpen) hafter with
      ⟨hopen, _⟩ | ⟨w, hw, rfl, hopens⟩
    · exact hI.users userId row hbefore hkind hopen
    · rcases (h.licensed w hw).stands userId hopens hkind with ⟨row', hkind', hopen, _⟩ | ⟨_, hnot⟩
      · exact hI.users userId row' hbefore hkind' hopen
      · exact hnot hbefore
  · obtain ⟨⟨actorId, hq⟩, hphase⟩ := (h.licensed _ hset).follows
    rw [hq] at hstatement
    exact openRow_of_demotes h hpending hwrites hq ((updated_of_commit hstatement hphase).2 rfl)

/-- A login is answered after its counter is stored. -/
theorem login_of_use {id : ℕ} {credentialId : Uuid} {next : UInt32} {deviceType : DeviceType} {backedUp : Bool}
    {at_ : ℤ} {db : AdminDb} (h : Sound db t)
    (hstatement : db.statement now t.request t.phase = .commit result)
    (hw : .useCredential credentialId next deviceType backedUp at_ ∈ t.writes) :
    ∃ expected, loginOf credentialId ⟨id, t.request, result⟩ = some (expected, next) := by
  obtain ⟨⟨expected, sessionId, session, hq⟩, hphase⟩ := (h.licensed _ hw).follows
  rw [hq] at hstatement ⊢
  refine ⟨expected, ?_⟩
  cases hp : t.phase with
  | decided outcome =>
      rw [hp] at hphase hstatement
      cases outcome with
      | opened s =>
          cases hstatement
          exact if_pos rfl
      | _ => cases hphase
  | credentialUsed seen =>
      rw [hp] at hstatement
      cases hstatement
  | _ =>
      rw [hp] at hphase
      cases hphase

theorem login_fact {db : AdminDb} {id : ℕ} {credentialId : Uuid} {p : UInt32 × UInt32} (h : Sound db t)
    (hstatement : db.statement now t.request t.phase = .commit result)
    (hlogin : loginOf credentialId ⟨id, t.request, result⟩ = some p) :
    ∃ k, db.credentials.find? credentialId = some k ∧ k.counter = p.1 ∧
      ∃ deviceType backedUp at_, .useCredential credentialId p.2 deviceType backedUp at_ ∈ t.writes := by
  unfold loginOf at hlogin
  split at hlogin
  · rename_i id expected next deviceType backedUp sessionId session s hq hresult
    change t.request = _ at hq
    cases hresult
    split at hlogin
    · rename_i hid
      cases hlogin
      have hphase := decided_of_commit hstatement rfl
      have hfact := h.fact
      rw [hq, hphase] at hfact
      obtain ⟨k, hreads, hkid, _, hcounter, hwrite, _⟩ := hfact
      rw [← hid]
      exact ⟨k, hkid ▸ hreads.found, hcounter, hwrite⟩
    · cases hlogin
  · cases hlogin

theorem commit_logins (hI : Invariant idleTtl D old c) (h : Sound c.db t)
    (hstatement : c.db.statement now t.request t.phase = .commit result)
    (hwrites : c.db.writeAll idleTtl t.writes = some db') (credentialId : Uuid) :
    LoginsLinked db' credentialId
      ((⟨t.id, t.request, result⟩ :: c.answers).filterMap (loginOf credentialId)) := by
  obtain ⟨hchain, hlast⟩ := hI.logins credentialId
  cases hlogin : loginOf credentialId ⟨t.id, t.request, result⟩ with
  | none =>
      rw [List.filterMap_cons_none hlogin]
      refine ⟨hchain, fun last hmem ↦ ?_⟩
      obtain ⟨k, hk, hcounter⟩ := hlast last hmem
      refine counter_writeAll hwrites hk (fun next deviceType backedUp at_ hw ↦ ?_) (Or.inl hcounter)
      obtain ⟨expected, hsome⟩ := login_of_use h hstatement hw
      rw [hlogin] at hsome
      cases hsome
  | some p =>
      rw [List.filterMap_cons_some hlogin]
      obtain ⟨k, hk, hcounter, hwrite⟩ := login_fact h hstatement hlogin
      constructor
      · refine hchain.cons fun older holder ↦ ?_
        obtain ⟨k', hk', hcounter'⟩ := hlast older holder
        rw [hk] at hk'
        obtain rfl := Option.some.inj hk'
        exact hcounter.symm.trans hcounter'
      · rintro _ ⟨⟩
        refine counter_writeAll hwrites hk (fun next deviceType backedUp at_ hw ↦ ?_) (Or.inr ?_)
        · obtain ⟨expected, hsome⟩ := login_of_use h hstatement hw
          rw [hlogin] at hsome
          cases hsome
          rfl
        · obtain ⟨deviceType, backedUp, at_, hw⟩ := hwrite
          exact ⟨p.2, deviceType, backedUp, at_, hw⟩

/-- A use is stored by the acceptance that it belongs to. -/
theorem acceptance_of_touch (id : ℕ) {sessionId : Uuid} {at_ : ℤ} {db : AdminDb} (h : Sound db t)
    (hstatement : db.statement now t.request t.phase = .commit result)
    (hw : .touchSession sessionId at_ ∈ t.writes) :
    ∃ use, acceptanceOf sessionId ⟨id, t.request, result⟩ = some use ∧ use.stored = at_ := by
  obtain ⟨⟨tokenHash, hq⟩, s, tested, hphase, hid⟩ := (h.licensed _ hw).follows
  rw [hq, hphase] at hstatement
  cases hstatement
  rw [hq]
  exact ⟨⟨tested, at_, s.absoluteExpiresAt⟩, if_pos hid, rfl⟩

theorem acceptance_fact {db : AdminDb} {id : ℕ} {sessionId : Uuid} {use : Acceptance} (h : Sound db t)
    (hstatement : db.statement now t.request t.phase = .commit result)
    (huse : acceptanceOf sessionId ⟨id, t.request, result⟩ = some use) :
    t.request.creates = [] ∧ ∃ s, db.sessions.find? sessionId = some s ∧ s.isLive use.tested = true ∧
      use.absoluteExpiresAt = s.absoluteExpiresAt ∧ .touchSession sessionId use.stored ∈ t.writes := by
  unfold acceptanceOf at huse
  split at huse
  · rename_i tokenHash s tested stored hq hresult
    change t.request = _ at hq
    cases hresult
    split at huse
    · rename_i hid
      cases huse
      have hphase := decided_of_commit hstatement rfl
      have hfact := h.fact
      rw [hq, hphase] at hfact
      obtain ⟨_, hfound, hlive, _, htouches⟩ := hfact
      rw [← hid, hq]
      exact ⟨rfl, s, hfound, hlive, rfl, htouches⟩
    · cases huse
  · cases huse

theorem session_mem_restsOn {a : AdminAnswer} {sessionId : Uuid} {use : Acceptance}
    (h : acceptanceOf sessionId a = some use) : .session sessionId ∈ restsOn a := by
  obtain ⟨id, q, result⟩ := a
  unfold acceptanceOf at h
  split at h
  · rename_i tokenHash s tested stored hq hresult
    cases hq
    cases hresult
    split at h
    · rename_i hid
      rw [← hid]
      exact List.mem_cons_self
    · cases h
  · cases h

theorem isLive_limits {s : AdminSession} (h : s.isLive now = true) :
    now < s.idleExpiresAt ∧ now < s.absoluteExpiresAt := by
  unfold AdminSession.isLive at h
  simp only [Bool.and_eq_true, decide_eq_true_eq] at h
  exact ⟨h.1.2, h.2⟩

theorem commit_acceptances (hI : Invariant idleTtl D old c) (hJ : Assertion D c t)
    (hstatement : c.db.statement now t.request t.phase = .commit result)
    (hwrites : c.db.writeAll idleTtl t.writes = some db') (sessionId : Uuid) :
    AcceptancesLinked idleTtl db' sessionId
      ((⟨t.id, t.request, result⟩ :: c.answers).filterMap (acceptanceOf sessionId)) := by
  have h := hJ.sound
  obtain ⟨hchain, hage, hlast⟩ := hI.acceptances sessionId
  cases hanswer : acceptanceOf sessionId ⟨t.id, t.request, result⟩ with
  | none =>
      rw [List.filterMap_cons_none hanswer]
      refine ⟨hchain, hage, fun last hmem s' hs' ↦ ?_⟩
      obtain ⟨a, ha, huse⟩ := List.mem_filterMap.mp (List.mem_of_mem_head? hmem)
      obtain ⟨s, hs, habsolute, hidle⟩ := session_writeAll (last.stored + idleTtl) hwrites hs'
        (fun s hw hid ↦ by
          have hcreates := (h.licensed _ hw).creates fun hopens ↦ by cases hopens
          refine (hJ.fresh _ hcreates).2 a ha ?_
          rw [show AdminWrite.target (.insertSession s) = .session sessionId from
            congrArg AdminRow.session hid]
          exact session_mem_restsOn huse)
        (fun at_ hw ↦ by
          obtain ⟨use, hsome, _⟩ := acceptance_of_touch t.id h hstatement hw
          rw [hanswer] at hsome
          cases hsome)
      obtain ⟨hlimit, habsolute'⟩ := hlast last hmem s hs
      exact ⟨hidle (Or.inl hlimit), habsolute.trans habsolute'⟩
  | some use =>
      rw [List.filterMap_cons_some hanswer]
      obtain ⟨hcreates, s, hs, hlive, habsolute, htouch⟩ := acceptance_fact h hstatement hanswer
      obtain ⟨hidle, hold⟩ := isLive_limits hlive
      refine ⟨hchain.cons fun older holder ↦ ?_, fun other hother ↦ ?_, ?_⟩
      · obtain ⟨hlimit, hsame⟩ := hlast older holder s hs
        exact ⟨hidle.trans_le hlimit, habsolute.trans hsame⟩
      · rcases List.mem_cons.mp hother with rfl | hother
        · rw [habsolute]
          exact hold
        · exact hage other hother
      · rintro _ ⟨⟩ s' hs'
        obtain ⟨s₀, hs₀, habsolute', hidle'⟩ := session_writeAll (use.stored + idleTtl) hwrites hs'
          (fun s hw _ ↦ by
            have hmem := (h.licensed _ hw).creates fun hopens ↦ by cases hopens
            rw [hcreates] at hmem
            cases hmem)
          (fun at_ hw ↦ by
            obtain ⟨other, hsome, rfl⟩ := acceptance_of_touch t.id h hstatement hw
            rw [hanswer] at hsome
            cases hsome
            exact le_refl _)
        rw [hs] at hs₀
        obtain rfl := Option.some.inj hs₀
        exact ⟨hidle' (Or.inr ⟨use.stored, htouch⟩), habsolute'.trans habsolute.symm⟩

end Commits

section Runs

variable {idleTtl : ℤ} {D : AdminRow → Prop} {old : List AdminAnswer} {c : AdminCommitted}
  {t : AdminTransaction} {now : ℤ} {result : AdminOutcome} {db' : AdminDb}

theorem commit_invariant (hI : Invariant idleTtl D old c) (hJ : Assertion D c t)
    (hpending : t.pending = [])
    (hstatement : c.db.statement now t.request t.phase = .commit result)
    (hwrites : c.db.writeAll idleTtl t.writes = some db') :
    Invariant idleTtl D old (c.answer db' ⟨t.id, t.request, result⟩) := by
  have h := hJ.sound
  have hrests : ∀ row ∈ restsOn ⟨t.id, t.request, result⟩,
      (∃ owner, c.db.openRow row = some owner) ∨ row ∈ t.request.creates := fun row hrow ↦
    open_of_restsOn h (decided_of_commit hstatement (grants_of_mem_restsOn hrow)) hrow
  have hknown : ∀ row ∈ restsOn ⟨t.id, t.request, result⟩, row ∈ c.issued := by
    intro row hrow
    rcases hrests row hrow with ⟨owner, hopen⟩ | hcreates
    · refine hI.issued row ?_ (has_of_openRow hopen)
      cases row with
      | account userId => cases hopen
      | _ => rfl
    · exact hJ.issued row hcreates
  constructor
  · intro row haccount hhas
    rcases has_writeAll hwrites hhas with hhas | ⟨w, hw, rfl, hopens⟩
    · exact hI.issued row haccount hhas
    · exact hJ.issued _ ((h.licensed w hw).creates hopens)
  · exact fun userId row hrole hkind ↦ commit_users hI h hpending hstatement hwrites hrole hkind
  · rintro row hrow
    cases huses : usesUp ⟨t.id, t.request, result⟩ with
    | none =>
        have hrow : D row ∨ row ∈ c.answers.filterMap usesUp := by
          rw [Committed.answers_answer, List.filterMap_cons_none huses] at hrow
          exact hrow
        refine openRow_none_kept h hwrites (hI.ended row hrow) fun hcreates ↦ ?_
        rcases hrow with hD | hused
        · exact (hJ.fresh row hcreates).1 hD
        · obtain ⟨a, ha, hup⟩ := List.mem_filterMap.mp hused
          exact (hJ.fresh row hcreates).2 a ha (mem_restsOn_of_usesUp hup)
    | some used =>
        rw [Committed.answers_answer, List.filterMap_cons_some huses] at hrow
        have hphase := decided_of_commit hstatement
          (grants_of_mem_restsOn (mem_restsOn_of_usesUp huses))
        by_cases hnew : row = used
        · obtain ⟨owner, hspends⟩ := spends_of_usesUp h hphase huses
          exact openRow_none_of_spends h hwrites (hnew ▸ hspends)
        · have hrow : D row ∨ row ∈ c.answers.filterMap usesUp :=
            hrow.imp_right fun hmem ↦ (List.mem_cons.mp hmem).resolve_left hnew
          refine openRow_none_kept h hwrites (hI.ended row hrow) fun hcreates ↦ ?_
          rcases hrow with hD | hused
          · exact (hJ.fresh row hcreates).1 hD
          · obtain ⟨a, ha, hup⟩ := List.mem_filterMap.mp hused
            exact (hJ.fresh row hcreates).2 a ha (mem_restsOn_of_usesUp hup)
  · cases huses : usesUp ⟨t.id, t.request, result⟩ with
    | none =>
        rw [Committed.answers_answer, List.filterMap_cons_none huses]
        exact hI.spent
    | some used =>
        rw [Committed.answers_answer, List.filterMap_cons_some huses]
        refine List.nodup_cons.mpr ⟨fun hmem ↦ ?_, hI.spent⟩
        have hphase := decided_of_commit hstatement
          (grants_of_mem_restsOn (mem_restsOn_of_usesUp huses))
        obtain ⟨owner, hspends⟩ := spends_of_usesUp h hphase huses
        have hclosed := hI.ended used (Or.inr hmem)
        rw [hspends.isOpen] at hclosed
        cases hclosed
  · exact fun credentialId ↦ commit_logins hI h hstatement hwrites credentialId
  · exact fun sessionId ↦ commit_acceptances hI hJ hstatement hwrites sessionId
  · rintro row (hD | ⟨a, ha, hrow⟩)
    · exact hI.known row (Or.inl hD)
    · rcases List.mem_cons.mp ha with rfl | ha
      · exact hknown row hrow
      · exact hI.known row (Or.inr ⟨a, ha, hrow⟩)
  · obtain ⟨new, hnew, hserved⟩ := hI.served
    refine ⟨⟨t.id, t.request, result⟩ :: new, congrArg _ hnew, fun a ha row hrow hD ↦ ?_⟩
    rcases List.mem_cons.mp ha with rfl | ha
    · rcases hrests row hrow with ⟨owner, hopen⟩ | hcreates
      · rw [hI.ended row (Or.inl hD)] at hopen
        cases hopen
      · exact (hJ.fresh row hcreates).1 hD
    · exact hserved a ha row hrow hD

/-- Every step keeps the invariant and what the transactions rely on. -/
theorem stable : (adminAccess idleTtl).Stable (Invariant idleTtl D old) (Assertion D) where
  began := fun s q hI hnodup hfresh ↦ by
    refine ⟨?_, ?_, fun t hJ ↦ ?_⟩
    · exact { hI with
        issued := fun row haccount hhas ↦ List.mem_append_right _ (hI.issued row haccount hhas)
        known := fun row hrow ↦ List.mem_append_right _ (hI.known row hrow) }
    · refine ⟨⟨fun row hrow hhas ↦ ?_, fun l hl ↦ absurd hl List.not_mem_nil, not_mem_nil, ?_⟩,
        fun row hrow ↦ List.mem_append_left _ hrow, fun row hrow ↦ ⟨fun hD ↦ ?_, fun a ha hmem ↦ ?_⟩⟩
      · exact hfresh row hrow (hI.issued row (not_account_of_creates hrow) hhas)
      · cases q <;> trivial
      · exact hfresh row hrow (hI.known row (Or.inl hD))
      · exact hfresh row hrow (hI.known row (Or.inr ⟨a, ha, hmem⟩))
    · exact ⟨hJ.sound, fun row hrow ↦ List.mem_append_right _ (hJ.issued row hrow), hJ.fresh⟩
  took := fun c t l rest now _ hJ hpending ↦ ⟨hJ.sound.take hpending, hJ.issued, hJ.fresh⟩
  scanned := fun c t now locks writes phase _ hJ hpending hstatement ↦
    ⟨hJ.sound.statement hpending hstatement, hJ.issued, hJ.fresh⟩
  answered := fun c t now result db' hI hJ hpending hstatement hwrites ↦ by
    refine ⟨commit_invariant hI hJ hpending hstatement hwrites, fun u hu hseparate ↦ ?_⟩
    refine ⟨hu.sound.kept (kept_of_commit hJ.sound hpending hseparate hwrites), hu.issued,
      fun row hrow ↦ ⟨(hu.fresh row hrow).1, fun a ha hmem ↦ ?_⟩⟩
    rcases List.mem_cons.mp ha with rfl | ha
    · have hphase := decided_of_commit hstatement (grants_of_mem_restsOn hmem)
      rcases open_of_restsOn hJ.sound hphase hmem with ⟨owner, hopen⟩ | hcreates
      · exact hu.sound.absent row hrow (has_of_openRow hopen)
      · exact hseparate.creates row hcreates hrow
    · exact (hu.fresh row hrow).2 a ha hmem

/-- A demotion that is answered leaves the user no open row, and nobody holds
the account any more. -/
theorem demoted_of_answers {s : AdminTraffic} {a : RowStep AdminRequest ℤ} {x : AdminAnswer}
    {targetId actorId : Uuid}
    (hs : (adminAccess idleTtl).Asserted (Invariant idleTtl D old) (Assertion D) s)
    (ha : (adminAccess idleTtl).system.Enabled s a)
    (hanswers : ((adminAccess idleTtl).system.next s a).committed.answers = x :: s.committed.answers)
    (hrequest : x.request = .setRole targetId .user actorId) (hresult : x.result = .role .updated) :
    (∀ row, ((adminAccess idleTtl).system.next s a).committed.db.openRow row ≠ some (some targetId)) ∧
      ∀ u ∈ ((adminAccess idleTtl).system.next s a).transactions, forUpdate (.account targetId) ∉ u.held := by
  obtain ⟨t, now, db', ht, hpending, hstatement, hwrites, hx, hcommitted⟩ :=
    RowProtocol.commit_of_answers ha hanswers
  have hsound := (hs.transactions t ht).sound
  have hfact := hsound.fact
  have hq : t.request = .setRole targetId .user actorId := by
    rw [hx] at hrequest
    exact hrequest
  rw [hq] at hfact
  have hphase : t.phase = .demotedChallenges := by
    rw [hresult, hq] at hstatement
    exact (updated_of_commit hstatement (demoting_of_updated hstatement hfact)).2 rfl
  rw [hphase] at hfact
  constructor
  · rw [hcommitted]
    exact fun row ↦ openRow_of_demotes hsound hpending hwrites hq hphase
  · rw [RowProtocol.leave_of_answers ha hanswers, hx]
    intro u hu hheld
    obtain ⟨hu, hne⟩ := RowTraffic.mem_leave.mp hu
    exact (hs.apart.separate t ht u hu (Ne.symm hne)).excludes.not_held hfact.1.locked hheld rfl
      (RowLockMode.conflicts_update .update)

end Runs

end AdminAccess

end Histae.Identity
