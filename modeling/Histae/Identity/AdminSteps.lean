import Histae.Identity.AdminStanding

/-!
# The steps of an administrator transaction

A statement reads the committed tables and scans the rows that it is about; a
lock shows what has become of such a row. Both keep everything that the
transaction relies on.
-/

namespace Histae.Identity

open Relational Systems

namespace AdminAccess

/-- Writes of rows that are stored already. -/
structure Plain (w : AdminWrite) : Prop where
  opens : w.opens = none
  insertsOpen : w.insertsOpen = true

section Locks

variable {db : AdminDb} {now : ℤ} {q : AdminRequest} {phase : AdminPhase} {l m : AdminLock}
  {w : AdminWrite} {row : AdminRow}

theorem eq_of_mem_if {c : Bool} {x : AdminWrite} (h : w ∈ if c then [x] else []) :
    c = true ∧ w = x := by
  cases c with
  | false => cases h
  | true => exact ⟨rfl, List.mem_singleton.mp h⟩

theorem eq_of_mem_decision {c : Bool} {x : AdminWrite} {p p' : AdminPhase}
    (h : w ∈ (if c then (p, [x]) else (p', [])).2) : w = x := by
  cases c with
  | false => cases h
  | true => exact List.mem_singleton.mp h

theorem endRow_writes (h : w ∈ db.endRow now row) :
    Plain w ∧ w.target = row ∧ w.ends = true ∧ ∀ q phase, w.Follows q phase := by
  cases row with
  | account userId => cases h
  | _ =>
      obtain ⟨_, rfl⟩ := eq_of_mem_if h
      exact ⟨⟨rfl, rfl⟩, rfl, rfl, fun _ _ ↦ trivial⟩

theorem delete_writes (h : w ∈ row.delete) :
    Plain w ∧ w.target = row ∧ ∀ q phase, w.Follows q phase := by
  cases row with
  | account userId => cases h
  | credential id => cases h
  | _ =>
      obtain rfl := List.mem_singleton.mp h
      exact ⟨⟨rfl, rfl⟩, rfl, fun _ _ ↦ trivial⟩

theorem plain_lockAdministrator {userId : Uuid} {refusal : AdminOutcome}
    (h : w ∈ (db.lockAdministrator userId refusal phase).2) : False := by
  cases phase <;> cases h

theorem updateSessionLock_writes {sessionId : Uuid} {condition : AdminSession → Bool}
    {result refusal : AdminOutcome}
    (h : w ∈ (db.updateSessionLock now sessionId condition result refusal phase).2) :
    w = .revokeSession sessionId now ∧ ∃ row at_, phase = .sessionSeen row at_ := by
  cases phase with
  | sessionSeen row at_ => exact ⟨eq_of_mem_decision h, row, at_, rfl⟩
  | _ => cases h

/-- What is decided about a locked row is about this row. -/
theorem lock_writes (hawaits : q.Awaits l phase) (hw : w ∈ (db.lock now l.row q phase).2) :
    Plain w ∧ w.target = l.row ∧ l.mode.writes = true ∧
      w.Follows q (db.lock now l.row q phase).1 := by
  cases q with
  | createChallenge id input => cases hw
  | consumeChallenge id purpose userId bootstrapId =>
      cases phase with
      | challengeSeen row =>
          obtain rfl : l = noKeyUpdate (.challenge id) := hawaits
          obtain rfl := eq_of_mem_decision hw
          exact ⟨⟨rfl, rfl⟩, rfl, rfl, trivial⟩
      | _ => cases hw
  | completeBootstrap bootstrapId secretHash credentialId credential sessionId session =>
      cases phase with
      | bootstrapSeen row =>
          obtain rfl : l = noKeyUpdate (.bootstrap bootstrapId) := hawaits
          simp only [AdminDb.lock, AdminDb.completeBootstrapLock] at hw
          split at hw
          · obtain rfl := List.mem_singleton.mp hw
            exact ⟨⟨rfl, rfl⟩, rfl, rfl, trivial⟩
          · cases hw
      | _ => cases hw
  | addCredential userId credentialId credential => exact (plain_lockAdministrator hw).elim
  | completeAuthentication credentialId expected next deviceType backedUp sessionId session =>
      cases phase with
      | credentialSeen row =>
          simp only [AdminDb.lock, AdminDb.completeAuthenticationLock] at hw
          split at hw <;> cases hw
      | _ => cases hw
  | activeSession tokenHash =>
      cases phase with
      | sessionSeen row at_ =>
          obtain rfl : l = noKeyUpdate (.session row.id) := hawaits
          simp only [AdminDb.lock, AdminDb.activeSessionLock] at hw ⊢
          split at hw
          · cases hw
          · rename_i current hfind
            have hid : current.id = row.id := (Table.find?_eq_some_iff.mp hfind).2
            split at hw
            · rename_i hsame
              obtain rfl := List.mem_singleton.mp hw
              refine ⟨⟨rfl, rfl⟩, rfl, rfl, ⟨tokenHash, rfl⟩, current, at_, ?_, hid⟩
              rw [if_pos hsame]
            · rename_i hchanged
              split at hw
              · rename_i hlive
                obtain rfl := List.mem_singleton.mp hw
                refine ⟨⟨rfl, rfl⟩, rfl, rfl, ⟨tokenHash, rfl⟩, current, now, ?_, hid⟩
                rw [if_neg hchanged, if_pos hlive]
              · cases hw
      | _ => cases hw
  | revokeSession userId sessionId =>
      obtain ⟨rfl, row, at_, rfl⟩ := updateSessionLock_writes hw
      obtain rfl : l = noKeyUpdate (.session sessionId) := hawaits
      exact ⟨⟨rfl, rfl⟩, rfl, rfl, trivial⟩
  | revokeSelectedSession userId sessionId currentSessionId =>
      obtain ⟨rfl, row, at_, rfl⟩ := updateSessionLock_writes hw
      obtain rfl : l = noKeyUpdate (.session sessionId) := hawaits
      exact ⟨⟨rfl, rfl⟩, rfl, rfl, trivial⟩
  | revokeOtherSessions userId currentSessionId =>
      cases phase with
      | revoking =>
          obtain ⟨hplain, htarget, _, hfollows⟩ := endRow_writes hw
          obtain ⟨id, rfl⟩ := hawaits
          exact ⟨hplain, htarget, rfl, hfollows _ _⟩
      | _ => cases hw
  | renameCredential userId credentialId name =>
      cases phase with
      | credentialSeen row =>
          obtain rfl : l = noKeyUpdate (.credential credentialId) := hawaits
          obtain rfl := eq_of_mem_decision hw
          exact ⟨⟨rfl, rfl⟩, rfl, rfl, trivial⟩
      | _ => cases hw
  | revokeCredential userId credentialId currentSessionId =>
      cases phase with
      | revoking =>
          obtain ⟨hplain, htarget, _, hfollows⟩ := endRow_writes hw
          obtain ⟨id, rfl⟩ := hawaits
          exact ⟨hplain, htarget, rfl, hfollows _ _⟩
      | _ => cases hw
  | issueBootstrap userId bootstrapId secretHash expiresAt =>
      cases phase with
      | consuming =>
          obtain ⟨hplain, htarget, _, hfollows⟩ := endRow_writes hw
          exact ⟨hplain, htarget, congrArg RowLockMode.writes hawaits, hfollows _ _⟩
      | _ => cases hw
  | setRole targetId role actorId =>
      cases phase with
      | demotedSessions | demotedCredentials | demotedBootstraps | demotedChallenges =>
          obtain ⟨hplain, htarget, _, hfollows⟩ := endRow_writes hw
          exact ⟨hplain, htarget, congrArg RowLockMode.writes hawaits, hfollows _ _⟩
      | _ => cases hw
  | setBan targetId isBanned adminId adminRole => cases phase <;> cases hw
  | cleanUp table ids =>
      cases phase with
      | cleaning =>
          obtain ⟨hplain, htarget, hfollows⟩ := delete_writes hw
          exact ⟨hplain, htarget, congrArg RowLockMode.writes hawaits, hfollows _ _⟩
      | _ => cases hw

/-- A phase is left for one in which nothing particular is awaited. -/
theorem lock_awaits (h : q.Awaits m phase) : q.Awaits m (db.lock now row q phase).1 := by
  cases q with
  | createChallenge id input => exact h
  | consumeChallenge id purpose userId bootstrapId =>
      cases phase with
      | challengeSeen seen =>
          simp only [AdminDb.lock, AdminDb.consumeChallengeLock]
          split <;> trivial
      | _ => exact h
  | completeBootstrap bootstrapId secretHash credentialId credential sessionId session =>
      cases phase with
      | bootstrapSeen seen =>
          simp only [AdminDb.lock, AdminDb.completeBootstrapLock]
          split <;> trivial
      | _ => exact h
  | addCredential userId credentialId credential =>
      cases phase with
      | accountSeen =>
          simp only [AdminDb.lock, AdminDb.lockAdministrator]
          split <;> trivial
      | _ => exact h
  | completeAuthentication credentialId expected next deviceType backedUp sessionId session =>
      cases phase with
      | credentialSeen seen =>
          simp only [AdminDb.lock, AdminDb.completeAuthenticationLock]
          split <;> trivial
      | _ => exact h
  | activeSession tokenHash =>
      cases phase with
      | sessionSeen seen at_ =>
          simp only [AdminDb.lock, AdminDb.activeSessionLock]
          split
          · trivial
          · split
            · trivial
            · split <;> trivial
      | _ => exact h
  | revokeSession userId sessionId =>
      cases phase with
      | sessionSeen seen at_ =>
          simp only [AdminDb.lock, AdminDb.updateSessionLock]
          split <;> trivial
      | _ => exact h
  | revokeOtherSessions userId currentSessionId => cases phase <;> exact h
  | revokeSelectedSession userId sessionId currentSessionId =>
      cases phase with
      | sessionSeen seen at_ =>
          simp only [AdminDb.lock, AdminDb.updateSessionLock]
          split <;> trivial
      | _ => exact h
  | renameCredential userId credentialId name =>
      cases phase with
      | credentialSeen seen =>
          simp only [AdminDb.lock, AdminDb.renameCredentialLock]
          split <;> trivial
      | _ => exact h
  | revokeCredential userId credentialId currentSessionId => cases phase <;> exact h
  | issueBootstrap userId bootstrapId secretHash expiresAt =>
      cases phase with
      | accountSeen =>
          simp only [AdminDb.lock, AdminDb.issueBootstrapLock, AdminDb.lockAdministrator]
          split <;> trivial
      | _ => exact h
  | setRole targetId role actorId =>
      cases phase with
      | actorSeen =>
          simp only [AdminDb.lock, AdminDb.setRoleLock]
          split <;> trivial
      | targetSeen =>
          simp only [AdminDb.lock, AdminDb.setRoleLock]
          cases db.findUndeleted targetId <;> trivial
      | _ => exact h
  | setBan targetId isBanned adminId adminRole =>
      cases phase with
      | targetSeen =>
          simp only [AdminDb.lock, AdminDb.setBanLock]
          cases db.findUndeleted targetId <;> trivial
      | _ => exact h
  | cleanUp table ids => cases phase <;> exact h

theorem lock_follows (h : w.Follows q phase) : w.Follows q (db.lock now row q phase).1 := by
  cases w with
  | setRole userId role =>
      obtain ⟨⟨actorId, rfl⟩, hphase⟩ := h
      refine ⟨⟨actorId, rfl⟩, ?_⟩
      cases phase with
      | roleChanged | demotedSessions | demotedCredentials | demotedBootstraps | demotedChallenges => rfl
      | _ => cases hphase
  | useCredential id counter deviceType backedUp at_ =>
      obtain ⟨⟨expected, sessionId, session, rfl⟩, hphase⟩ := h
      refine ⟨⟨expected, sessionId, session, rfl⟩, ?_⟩
      cases phase with
      | credentialUsed seen => rfl
      | decided result => exact hphase
      | _ => cases hphase
  | touchSession id at_ =>
      obtain ⟨⟨tokenHash, rfl⟩, session, tested, rfl, hid⟩ := h
      exact ⟨⟨tokenHash, rfl⟩, session, tested, rfl, hid⟩
  | _ => trivial

end Locks

section OpenRows

variable {db : AdminDb} {now : ℤ} {row : AdminRow} {id : Uuid}

theorem openRow_challenge {c : AdminChallenge} (h : db.challenges.find? id = some c)
    (hopen : c.consumedAt = none) : db.openRow (.challenge id) = some c.userId :=
  openRow_insert h (congrArg Option.isNone hopen)

theorem openRow_bootstrap {b : AdminBootstrap} (h : db.bootstraps.find? id = some b)
    (hopen : b.consumedAt = none) : db.openRow (.bootstrap id) = some (some b.userId) :=
  openRow_insert h (congrArg Option.isNone hopen)

theorem openRow_credential {k : AdminCredential} (h : db.credentials.find? id = some k)
    (hopen : k.revokedAt = none) : db.openRow (.credential id) = some (some k.userId) :=
  openRow_insert h (congrArg Option.isNone hopen)

theorem openRow_session {s : AdminSession} (h : db.sessions.find? id = some s)
    (hopen : s.revokedAt = none) : db.openRow (.session id) = some (some s.userId) :=
  openRow_insert h (congrArg Option.isNone hopen)

theorem any_of_filter_map {ρ δ : Type} {o : Option ρ} {p : ρ → Bool} {f : ρ → δ} {d : δ}
    (h : (o.filter p).map f = some d) : o.any p = true := by
  obtain ⟨r, hr, _⟩ := Option.map_eq_some_iff.mp h
  obtain ⟨rfl, hp⟩ := Option.filter_eq_some_iff.mp hr
  exact hp

/-- An update that ends every open row ends a row that is open. -/
theorem ends_of_openRow {owner : Option Uuid} (now : ℤ) (h : db.openRow row = some owner) :
    ∃ w ∈ db.endRow now row, w.target = row ∧ w.ends = true := by
  cases row with
  | account userId => cases h
  | credential id =>
      refine ⟨.revokeCredential id now, ?_, rfl, rfl⟩
      simp only [AdminDb.endRow, any_of_filter_map h, if_true, List.mem_singleton]
  | session id =>
      refine ⟨.revokeSession id now, ?_, rfl, rfl⟩
      simp only [AdminDb.endRow, any_of_filter_map h, if_true, List.mem_singleton]
  | bootstrap id =>
      refine ⟨.consumeBootstrap id now, ?_, rfl, rfl⟩
      simp only [AdminDb.endRow, any_of_filter_map h, if_true, List.mem_singleton]
  | challenge id =>
      refine ⟨.consumeChallenge id now, ?_, rfl, rfl⟩
      simp only [AdminDb.endRow, any_of_filter_map h, if_true, List.mem_singleton]

theorem passes_cases {ρ : Type} [DecidableEq ρ] {current : Option ρ} {seen : ρ} {p : ρ → Bool}
    (h : AdminDb.passes current seen p = true) : ∃ r, current = some r ∧ (r = seen ∨ p r = true) := by
  unfold AdminDb.passes at h
  rw [Option.any_eq_true] at h
  obtain ⟨r, hr, hcase⟩ := h
  rw [Bool.or_eq_true, decide_eq_true_eq] at hcase
  exact ⟨r, hr, hcase⟩

theorem unconsumed_of_isOpen {c : AdminChallenge} {purpose : ChallengePurpose}
    {userId bootstrapId : Option Uuid} (h : c.isOpen now purpose userId bootstrapId = true) :
    c.consumedAt = none := by
  unfold AdminChallenge.isOpen at h
  simp only [Bool.and_eq_true, Option.isNone_iff_eq_none] at h
  exact h.1.1.1.2

theorem unconsumed_of_isOpen_bootstrap {b : AdminBootstrap} {secretHash : List UInt8}
    (h : b.isOpen now secretHash = true) : b.consumedAt = none := by
  unfold AdminBootstrap.isOpen at h
  simp only [Bool.and_eq_true, Option.isNone_iff_eq_none] at h
  exact h.1.2

theorem unrevoked_of_isLive {s : AdminSession} (h : s.isLive now = true) : s.revokedAt = none := by
  unfold AdminSession.isLive at h
  simp only [Bool.and_eq_true, Option.isNone_iff_eq_none] at h
  exact h.1.1

theorem roleOf_of_isAdministrator {userId : Uuid} (h : db.isAdministrator userId = true) :
    db.roleOf userId ≠ some .user := by
  unfold AdminDb.isAdministrator at h
  rw [Option.any_eq_true] at h
  obtain ⟨a, ha, hadministrator⟩ := h
  intro hrole
  unfold AdminDb.roleOf at hrole
  rw [ha] at hrole
  have hrole := Option.some.inj hrole
  unfold UserAccount.isAdministrator at hadministrator
  rw [hrole] at hadministrator
  simp at hadministrator

end OpenRows

section Taken

variable {db : AdminDb} {now : ℤ} {t : AdminTransaction} {l : AdminLock} {rest : List AdminLock}
  {phase : AdminPhase}

theorem take_consumeChallenge {id : Uuid} {purpose : ChallengePurpose}
    {userId bootstrapId : Option Uuid} (h : consumeChallengeFact db t id phase)
    (hawaits : (AdminRequest.consumeChallenge id purpose userId bootstrapId).Awaits l phase)
    (hpending : t.pending = l :: rest) :
    let result := db.consumeChallengeLock now id purpose userId bootstrapId phase
    consumeChallengeFact db (t.take l result) id result.1 := by
  intro result
  have hgrows := grows_take hpending result
  cases phase with
  | challengeSeen row =>
      obtain rfl : l = noKeyUpdate (.challenge id) := hawaits
      by_cases hpasses : AdminDb.passes (db.challenges.find? id) row
          (AdminChallenge.isOpen now purpose userId bootstrapId) = true
      · obtain ⟨current, hfind, hcurrent⟩ := passes_cases hpasses
        have hopen : current.consumedAt = none := by
          rcases hcurrent with rfl | hcurrent
          · exact h
          · exact unconsumed_of_isOpen hcurrent
        have hresult : result = (.decided (.consumed (some row.ceremonyState)),
            [.consumeChallenge id now]) := if_pos hpasses
        rw [hresult]
        refine ⟨current.userId, openRow_challenge hfind hopen, holds_take _ _ rfl, ?_⟩
        exact ⟨.consumeChallenge id now, List.mem_append_right _ List.mem_cons_self, rfl, rfl⟩
      · have hresult : result = (.decided (.consumed none), []) := if_neg hpasses
        rw [hresult]
        trivial
  | decided outcome =>
      cases outcome with
      | consumed state =>
          cases state with
          | none => trivial
          | some ceremonyState =>
              obtain ⟨owner, hspends⟩ := h
              exact ⟨owner, hspends.grows hgrows⟩
      | _ => trivial
  | _ => trivial

theorem take_completeBootstrap {bootstrapId credentialId sessionId : Uuid} {secretHash : List UInt8}
    {credential : NewCredential} {session : NewSession}
    (h : completeBootstrapFact db t bootstrapId phase)
    (hawaits : (AdminRequest.completeBootstrap bootstrapId secretHash credentialId credential sessionId
      session).Awaits l phase)
    (hpending : t.pending = l :: rest) :
    let result := db.completeBootstrapLock now bootstrapId secretHash phase
    completeBootstrapFact db (t.take l result) bootstrapId result.1 := by
  intro result
  have hgrows := grows_take hpending result
  cases phase with
  | bootstrapSeen row =>
      obtain rfl : l = noKeyUpdate (.bootstrap bootstrapId) := hawaits
      cases hfilter : (db.bootstraps.find? bootstrapId).filter
          fun b ↦ b = row || b.isOpen now secretHash with
      | none =>
          have hresult : result = (.decided .noSession, []) := by simp only [result, AdminDb.completeBootstrapLock, hfilter]
          rw [hresult]
          trivial
      | some current =>
          obtain ⟨hfind, hcurrent⟩ := Option.filter_eq_some_iff.mp hfilter
          have hopen : current.consumedAt = none := by
            rw [Bool.or_eq_true, decide_eq_true_eq] at hcurrent
            rcases hcurrent with rfl | hcurrent
            · exact h
            · exact unconsumed_of_isOpen_bootstrap hcurrent
          have hresult : result = (.bootstrapTaken current.userId,
              [.consumeBootstrap bootstrapId now]) := by simp only [result, AdminDb.completeBootstrapLock, hfilter]
          rw [hresult]
          refine ⟨openRow_bootstrap hfind hopen, holds_take _ _ rfl, ?_⟩
          exact ⟨.consumeBootstrap bootstrapId now, List.mem_append_right _ List.mem_cons_self, rfl, rfl⟩
  | bootstrapTaken userId => exact Spends.grows h hgrows
  | bootstrapRegistered userId => exact Spends.grows h hgrows
  | decided outcome =>
      cases outcome with
      | opened s => exact ⟨Spends.grows h.1 hgrows, hgrows.writes _ h.2⟩
      | _ => trivial
  | _ => trivial

theorem take_lockAdministrator {userId : Uuid} {refusal : AdminOutcome}
    (h : lockAdministratorFact db t userId phase)
    (hawaits : phase = .accountSeen → l = forUpdate (.account userId))
    (hpending : t.pending = l :: rest) :
    let result := db.lockAdministrator userId refusal phase
    lockAdministratorFact db (t.take l result) userId result.1 := by
  intro result
  have hgrows := grows_take hpending result
  cases phase with
  | accountSeen =>
      by_cases hadministrator : db.isAdministrator userId = true
      · have hresult : result = (.accountLocked, []) := congrArg (·, []) (if_pos hadministrator)
        rw [hresult]
        refine ⟨List.mem_append_right _ ?_, roleOf_of_isAdministrator hadministrator⟩
        exact List.mem_singleton.mpr (hawaits rfl).symm
      · have hresult : result = (.decided refusal, []) := congrArg (·, []) (if_neg hadministrator)
        rw [hresult]
        trivial
  | accountLocked => exact ⟨hgrows.held _ h.1, h.2⟩
  | consuming => exact ⟨hgrows.held _ h.1, h.2⟩
  | _ => trivial

theorem take_completeAuthentication {credentialId sessionId : Uuid} {expected next : UInt32}
    {deviceType : DeviceType} {backedUp : Bool} {session : NewSession}
    (h : completeAuthenticationFact db t credentialId expected next phase)
    (hawaits : (AdminRequest.completeAuthentication credentialId expected next deviceType backedUp
      sessionId session).Awaits l phase)
    (hpending : t.pending = l :: rest) :
    let result := db.completeAuthenticationLock credentialId phase
    completeAuthenticationFact db (t.take l result) credentialId expected next result.1 := by
  intro result
  have hgrows := grows_take hpending result
  cases phase with
  | credentialSeen row =>
      obtain rfl : l = forUpdate (.credential credentialId) := hawaits
      cases hfilter : (db.credentials.find? credentialId).filter fun k ↦ k.revokedAt.isNone with
      | none =>
          have hresult : result = (.decided .noSession, []) := by simp only [result, AdminDb.completeAuthenticationLock, hfilter]
          rw [hresult]
          trivial
      | some current =>
          obtain ⟨hfind, hactive⟩ := Option.filter_eq_some_iff.mp hfilter
          have hid : current.id = credentialId := (Table.find?_eq_some_iff.mp hfind).2
          have hresult : result = (.credentialLocked current, []) := by simp only [result, AdminDb.completeAuthenticationLock, hfilter]
          rw [hresult]
          subst hid
          exact ⟨⟨hfind, Option.isNone_iff_eq_none.mp hactive, holds_take _ _ rfl⟩, rfl⟩
  | credentialLocked row => exact ⟨Reads.grows h.1 hgrows, h.2⟩
  | credentialUsed row =>
      obtain ⟨hreads, hid, hcounter, device, backed, at_, hwrite⟩ := h
      exact ⟨hreads.grows hgrows, hid, hcounter, device, backed, at_, hgrows.writes _ hwrite⟩
  | decided outcome =>
      cases outcome with
      | opened s =>
          obtain ⟨row, hreads, hid, howner, hcounter, ⟨device, backed, at_, hwrite⟩, hinsert⟩ := h
          exact ⟨row, hreads.grows hgrows, hid, howner, hcounter,
            ⟨device, backed, at_, hgrows.writes _ hwrite⟩, hgrows.writes _ hinsert⟩
      | _ => trivial
  | _ => trivial

theorem Accepts.grows {t' : AdminTransaction} {s : AdminSession} {tested stored : ℤ}
    (h : Accepts db t s tested stored) (hgrows : Grows t t') : Accepts db t' s tested stored :=
  ⟨h.found, h.live, h.holds.grows hgrows, hgrows.writes _ h.touches⟩

theorem take_activeSession {tokenHash : List UInt8} (h : activeSessionFact db t tokenHash phase)
    (hawaits : (AdminRequest.activeSession tokenHash).Awaits l phase)
    (hpending : t.pending = l :: rest) :
    let result := db.activeSessionLock now tokenHash phase
    activeSessionFact db (t.take l result) tokenHash result.1 := by
  intro result
  have hgrows := grows_take hpending result
  cases phase with
  | sessionSeen row at_ =>
      obtain rfl : l = noKeyUpdate (.session row.id) := hawaits
      cases hfind : db.sessions.find? row.id with
      | none =>
          have hresult : result = (.decided .noSession, []) := by simp only [result, AdminDb.activeSessionLock, hfind]
          rw [hresult]
          trivial
      | some current =>
          have hid : current.id = row.id := (Table.find?_eq_some_iff.mp hfind).2
          by_cases hsame : current = row
          · have hresult : result = (.decided (.accepted current at_ now), [.touchSession row.id now]) := by
              simp only [result, AdminDb.activeSessionLock, hfind, hsame, if_true]
            rw [hresult]
            subst hsame
            exact ⟨h.1, hfind, h.2, holds_take _ _ rfl, List.mem_append_right _ List.mem_cons_self⟩
          · by_cases hlive : (current.tokenHash = tokenHash && current.isLive now) = true
            · have hresult : result =
                  (.decided (.accepted current now now), [.touchSession row.id now]) := by
                simp only [result, AdminDb.activeSessionLock, hfind, if_neg hsame, if_pos hlive]
              rw [hresult]
              rw [Bool.and_eq_true, decide_eq_true_eq] at hlive
              rw [← hid] at hfind ⊢
              exact ⟨hlive.1, hfind, hlive.2, holds_take _ _ rfl,
                List.mem_append_right _ List.mem_cons_self⟩
            · have hresult : result = (.decided .noSession, []) := by
                simp only [result, AdminDb.activeSessionLock, hfind, if_neg hsame, if_neg hlive]
              rw [hresult]
              trivial
  | decided outcome =>
      cases outcome with
      | accepted s tested stored => exact ⟨h.1, Accepts.grows h.2 hgrows⟩
      | _ => trivial
  | _ => trivial

theorem Survives.take {userId credentialId : Uuid} (h : Survives db t userId credentialId)
    (hpending : t.pending = l :: rest) {result : AdminPhase × List AdminWrite}
    (hwrites : ∀ w ∈ result.2, ∃ id, w.target = .session id) :
    Survives db (t.take l result) userId credentialId := by
  obtain ⟨id, hne, hopen, hholds, hkeeps⟩ := h
  refine ⟨id, hne, hopen, hholds.grows (grows_take hpending result), fun w hw hends ↦ ?_⟩
  rcases List.mem_append.mp hw with hw | hw
  · exact hkeeps w hw hends
  · obtain ⟨other, htarget⟩ := hwrites w hw
    rw [htarget]
    exact fun heq ↦ by cases heq

theorem openCredential_cases {id : Uuid} :
    db.openCredential (.credential id) = [] ∨ db.openCredential (.credential id) = [id] ∧
      ((db.credentials.find? id).any fun k ↦ k.revokedAt.isNone) = true := by
  change (if _ then _ else _) = [] ∨ (if _ then _ else _) = [id] ∧ _
  by_cases hactive : ((db.credentials.find? id).any fun k ↦ k.revokedAt.isNone) = true
  · exact Or.inr ⟨if_pos hactive, hactive⟩
  · exact Or.inl (if_neg hactive)

theorem Counts.take {userId id : Uuid} {ids : List Uuid} (h : Counts db t userId ids)
    (hpending : t.pending = forUpdate (.credential id) :: rest) (outcome : AdminPhase) :
    Counts db (t.take (forUpdate (.credential id)) (outcome, [])) userId
      (ids ++ db.openCredential (.credential id)) := by
  have hgrows := grows_take hpending (outcome, [])
  have htail : (t.take (forUpdate (.credential id)) (outcome, [])).pending = rest := by
    change t.pending.tail = rest
    rw [hpending, List.tail_cons]
  have hkept : List.Sublist ((ids ++ db.openCredential (.credential id)).map AdminRow.credential)
      (ids.map AdminRow.credential ++ [AdminRow.credential id]) := by
    rw [List.map_append]
    refine (List.Sublist.refl _).append ?_
    rcases openCredential_cases with hnone | ⟨hone, _⟩
    · rw [hnone]
      exact List.nil_sublist _
    · rw [hone]
      exact List.Sublist.refl _
  constructor
  · change t.writes ++ [] = []
    rw [h.writes, List.append_nil]
  · have hnodup := h.nodup
    rw [hpending, List.map_cons] at hnodup
    rw [htail]
    refine hnodup.sublist ?_
    rw [← List.singleton_append, ← List.append_assoc]
    exact hkept.append (List.Sublist.refl _)
  · intro other hother
    rcases List.mem_append.mp hother with hother | hother
    · exact ⟨(h.counted other hother).1, (h.counted other hother).2.grows hgrows⟩
    · obtain ⟨k, hk, rfl, howner⟩ := h.owned id (hpending ▸ List.mem_cons_self)
      rcases openCredential_cases with hnone | ⟨hone, hactive⟩
      · rw [hnone] at hother
        cases hother
      · rw [hone] at hother
        obtain rfl := List.mem_singleton.mp hother
        rw [Table.find?_key hk] at hactive
        refine ⟨?_, holds_take _ _ rfl⟩
        rw [← howner]
        exact openRow_credential (Table.find?_key hk) (Option.isNone_iff_eq_none.mp hactive)
  · intro other hother
    rw [htail] at hother
    exact h.owned other (hpending ▸ List.mem_cons_of_mem _ hother)

theorem take_revokeCredential {userId credentialId currentSessionId : Uuid}
    (h : revokeCredentialFact db t userId credentialId phase)
    (hawaits : (AdminRequest.revokeCredential userId credentialId currentSessionId).Awaits l phase)
    (hpending : t.pending = l :: rest) :
    let result := db.revokeCredentialLock now l.row phase
    revokeCredentialFact db (t.take l result) userId credentialId result.1 := by
  intro result
  have hgrows := grows_take hpending result
  cases phase with
  | begun =>
      change t.writes ++ [] = []
      rw [List.append_nil]
      exact h
  | counting ids =>
      obtain ⟨id, rfl⟩ := hawaits
      exact Counts.take h hpending _
  | credentialRevoked =>
      exact ⟨Survives.take h.1 hpending fun w hw ↦ absurd hw List.not_mem_nil, h.2.grows hgrows⟩
  | revoking =>
      obtain ⟨id, rfl⟩ := hawaits
      exact ⟨Survives.take h.1 hpending fun w hw ↦ ⟨id, (endRow_writes hw).2.1⟩, h.2.grows hgrows⟩
  | _ => trivial

/-- An awaited row of a demoted user is ended under its lock, if it is open
still. -/
theorem Demotes.take {userId : Uuid} (h : Demotes db t userId phase) (hpending : t.pending = l :: rest)
    {result : AdminPhase × List AdminWrite}
    (hresult : (∀ row, phase.hasEnded row = false) ∨ result.2 = db.endRow now l.row) :
    Demotes db (t.take l result) userId phase where
  locked := List.mem_append_left _ h.locked
  ended := fun row hphase hopen ↦ by
    have htail : (t.take l result).pending = rest := by
      change t.pending.tail = rest
      rw [hpending, List.tail_cons]
    rcases hresult with hnone | hresult
    · rw [hnone row] at hphase
      cases hphase
    · rcases h.ended row hphase hopen with ⟨m, hm, hrow⟩ | hends
      · rw [hpending] at hm
        rcases List.mem_cons.mp hm with rfl | hm
        · subst hrow
          obtain ⟨w, hw, htarget⟩ := ends_of_openRow now hopen
          exact Or.inr ⟨w, List.mem_append_right _ (hresult ▸ hw), htarget⟩
        · exact Or.inl ⟨m, htail.symm ▸ hm, hrow⟩
      · exact Or.inr (hends.grows (grows_take hpending result))

theorem take_setRole {targetId actorId : Uuid} {role : AdminUserRole}
    (h : setRoleFact db t targetId role phase)
    (hawaits : (AdminRequest.setRole targetId role actorId).Awaits l phase)
    (hpending : t.pending = l :: rest) :
    let result := db.setRoleLock now targetId actorId l.row phase
    setRoleFact db (t.take l result) targetId role result.1 := by
  intro result
  have hgrows := grows_take hpending result
  cases phase with
  | actorSeen =>
      have hresult : result = (if (db.accounts.find? actorId).any UserAccount.maySetRole then .actorLocked
        else .decided (.role .forbidden), []) := rfl
      rw [hresult]
      split <;> trivial
  | targetSeen =>
      obtain rfl : l = forUpdate (.account targetId) := hawaits
      have hresult : result =
        ((db.findUndeleted targetId).elim (.decided (.role .notFound)) .targetLocked, []) := rfl
      rw [hresult]
      cases db.findUndeleted targetId with
      | none => trivial
      | some row => exact List.mem_append_right _ List.mem_cons_self
  | targetLocked row => exact hgrows.held _ h
  | roleChanged =>
      have hnone : (∀ row, AdminPhase.roleChanged.hasEnded row = false) ∨
          result.2 = db.endRow now l.row := Or.inl fun _ ↦ rfl
      exact ⟨Demotes.take h.1 hpending hnone, hgrows.writes _ h.2⟩
  | demotedSessions => exact ⟨Demotes.take h.1 hpending (Or.inr rfl), hgrows.writes _ h.2⟩
  | demotedCredentials => exact ⟨Demotes.take h.1 hpending (Or.inr rfl), hgrows.writes _ h.2⟩
  | demotedBootstraps => exact ⟨Demotes.take h.1 hpending (Or.inr rfl), hgrows.writes _ h.2⟩
  | demotedChallenges => exact ⟨Demotes.take h.1 hpending (Or.inr rfl), hgrows.writes _ h.2⟩
  | decided outcome =>
      cases outcome with
      | role outcome => cases outcome <;> exact h
      | _ => trivial
  | _ => trivial

theorem take_setBan {targetId : Uuid} (h : setBanFact t targetId phase)
    (hawaits : phase = .targetSeen → l = forUpdate (.account targetId))
    (hpending : t.pending = l :: rest) :
    let result := db.setBanLock targetId phase
    setBanFact (t.take l result) targetId result.1 := by
  intro result
  have hgrows := grows_take hpending result
  cases phase with
  | targetSeen =>
      have hresult : result =
        ((db.findUndeleted targetId).elim (.decided (.ban .notFound)) .targetLocked, []) := rfl
      rw [hresult]
      cases db.findUndeleted targetId with
      | none => trivial
      | some row => exact List.mem_append_right _ (List.mem_singleton.mpr (hawaits rfl).symm)
  | targetLocked row => exact hgrows.held _ h
  | _ => trivial

theorem Fact.take {q : AdminRequest} (h : Fact db t q phase) (hawaits : q.Awaits l phase)
    (hpending : t.pending = l :: rest) :
    Fact db (t.take l (db.lock now l.row q phase)) q (db.lock now l.row q phase).1 := by
  cases q with
  | consumeChallenge id purpose userId bootstrapId => exact take_consumeChallenge h hawaits hpending
  | completeBootstrap bootstrapId secretHash credentialId credential sessionId session =>
      exact take_completeBootstrap h hawaits hpending
  | addCredential userId credentialId credential =>
      exact take_lockAdministrator h (fun hphase ↦ by subst hphase; exact hawaits) hpending
  | issueBootstrap userId bootstrapId secretHash expiresAt =>
      cases phase with
      | accountSeen =>
          have hseen : lockAdministratorFact db t userId .accountSeen := h
          exact take_lockAdministrator hseen (fun _ ↦ hawaits) hpending
      | accountLocked => exact ⟨(grows_take hpending _).held _ h.1, h.2⟩
      | consuming => exact ⟨(grows_take hpending _).held _ h.1, h.2⟩
      | _ => trivial
  | completeAuthentication credentialId expected next deviceType backedUp sessionId session =>
      exact take_completeAuthentication h hawaits hpending
  | activeSession tokenHash => exact take_activeSession h hawaits hpending
  | revokeCredential userId credentialId currentSessionId =>
      exact take_revokeCredential h hawaits hpending
  | setRole targetId role actorId => exact take_setRole h hawaits hpending
  | setBan targetId isBanned adminId adminRole =>
      exact take_setBan h (fun hphase ↦ by subst hphase; exact hawaits) hpending
  | _ => trivial

/-- A locked row leaves the transaction with everything it relies on. -/
theorem Sound.take (h : Sound db t) (hpending : t.pending = l :: rest) :
    Sound db (t.take l (db.lock now l.row t.request t.phase)) where
  absent := h.absent
  awaited := fun m hm ↦ by
    have hm : m ∈ t.pending.tail := hm
    exact lock_awaits (h.awaited m (List.mem_of_mem_tail hm))
  licensed := fun w hw ↦ by
    have hgrows := grows_take hpending (db.lock now l.row t.request t.phase)
    rcases List.mem_append.mp hw with hw | hw
    · exact (h.licensed w hw).grows hgrows (lock_follows (h.licensed w hw).follows)
    · obtain ⟨hplain, htarget, hmode, hfollows⟩ :=
        lock_writes (h.awaited l (hpending ▸ List.mem_cons_self)) hw
      have hheld : l ∈ (t.take l (db.lock now l.row t.request t.phase)).locks :=
        List.mem_append_left _ (List.mem_append_right _ List.mem_cons_self)
      exact ⟨hplain.insertsOpen, fun _ ↦ ⟨l, hheld, htarget.symm, hmode⟩,
        fun hopens ↦ absurd hplain.opens hopens,
        fun userId hopens ↦ absurd (hplain.opens.symm.trans hopens) (by simp),
        fun userId hopens ↦ absurd (hplain.opens.symm.trans hopens) (by simp), hfollows⟩
  fact := h.fact.take (h.awaited l (hpending ▸ List.mem_cons_self)) hpending

end Taken

section Scanned

variable {db : AdminDb} {now : ℤ} {t : AdminTransaction} {q : AdminRequest} {locks : List AdminLock}
  {writes : List AdminWrite} {phase phase' : AdminPhase} {w : AdminWrite}

/-- What a statement adds to a transaction that waits for no lock. -/
structure Scans (db : AdminDb) (t : AdminTransaction) (q : AdminRequest) (phase : AdminPhase)
    (locks : List AdminLock) (writes : List AdminWrite) (phase' : AdminPhase) : Prop where
  awaits : ∀ l ∈ locks, q.Awaits l phase'
  follows : ∀ w : AdminWrite, w.Follows q phase → w.Follows q phase'
  licensed : ∀ w ∈ writes, Licensed db (t.scan locks writes phase') w
  fact : Fact db (t.scan locks writes phase') q phase'

theorem Sound.scan (h : Sound db t) (hpending : t.pending = [])
    (hscans : Scans db t t.request t.phase locks writes phase') :
    Sound db (t.scan locks writes phase') where
  absent := h.absent
  awaited := hscans.awaits
  licensed := fun w hw ↦ by
    rcases List.mem_append.mp hw with hw | hw
    · exact (h.licensed w hw).grows (grows_scan hpending locks writes phase')
        (hscans.follows w (h.licensed w hw).follows)
    · exact hscans.licensed w hw
  fact := hscans.fact

theorem follows_of_ne (hrole : ∀ targetId role actorId, q ≠ .setRole targetId role actorId)
    (hlogin : ∀ id expected next deviceType backedUp sessionId session,
      q ≠ .completeAuthentication id expected next deviceType backedUp sessionId session)
    (hactive : ∀ tokenHash, q ≠ .activeSession tokenHash) (h : w.Follows q phase) :
    w.Follows q phase' := by
  cases w with
  | setRole userId role =>
      obtain ⟨⟨actorId, hq⟩, _⟩ := h
      exact absurd hq (hrole _ _ _)
  | useCredential id counter deviceType backedUp at_ =>
      obtain ⟨⟨expected, sessionId, session, hq⟩, _⟩ := h
      exact absurd hq (hlogin _ _ _ _ _ _ _)
  | touchSession id at_ =>
      obtain ⟨⟨tokenHash, hq⟩, _⟩ := h
      exact absurd hq (hactive tokenHash)
  | _ => trivial

theorem mem_locks_of_mem (hpending : t.pending = []) {l : AdminLock} (hl : l ∈ locks) :
    l ∈ (t.scan locks writes phase').locks := (t.mem_locks_scan hpending _ _ _).mpr (Or.inr hl)

theorem licensed_update (hpending : t.pending = []) (hopens : w.opens = none)
    (hopen : w.insertsOpen = true) {l : AdminLock} (hl : l ∈ locks) (hrow : l.row = w.target)
    (hmode : l.mode.writes = true) (hfollows : w.Follows t.request phase') :
    Licensed db (t.scan locks writes phase') w where
  insertsOpen := hopen
  locked := fun _ ↦ ⟨l, mem_locks_of_mem hpending hl, hrow, hmode⟩
  creates := fun hsome ↦ absurd hopens hsome
  account := fun userId hsome ↦ absurd (hopens.symm.trans hsome) (by simp)
  stands := fun userId hsome ↦ absurd (hopens.symm.trans hsome) (by simp)
  follows := hfollows

theorem licensed_insert (hpending : t.pending = []) {owner : Option Uuid} (hopens : w.opens = some owner)
    (hopen : w.insertsOpen = true) (hcreates : w.target ∈ t.request.creates)
    (haccount : ∀ userId, owner = some userId → ∃ l ∈ locks, l.row = .account userId)
    (hstands : ∀ userId, owner = some userId → w.target.isChallenge = false → Stands db t userId)
    (hfollows : w.Follows t.request phase') : Licensed db (t.scan locks writes phase') w where
  insertsOpen := hopen
  locked := fun hnone ↦ absurd (hnone.symm.trans hopens) (by simp)
  creates := fun _ ↦ hcreates
  account := fun userId hsome ↦ by
    obtain ⟨l, hl, hrow⟩ := haccount userId (Option.some.inj (hopens.symm.trans hsome))
    exact ⟨l, mem_locks_of_mem hpending hl, hrow⟩
  stands := fun userId hsome hkind ↦
    (hstands userId (Option.some.inj (hopens.symm.trans hsome)) hkind).grows
      (grows_scan hpending locks writes phase')
  follows := hfollows

theorem not_mem_nil {C : AdminWrite → Prop} : ∀ w ∈ ([] : List AdminWrite), C w :=
  fun _ hw ↦ absurd hw List.not_mem_nil

theorem scan_createChallenge {id : Uuid} {input : NewChallenge} (hpending : t.pending = [])
    (hq : t.request = .createChallenge id input)
    (h : AdminDb.createChallengeStatement id input phase = .scan locks writes phase') :
    Scans db t t.request phase locks writes phase' := by
  cases phase with
  | begun =>
      cases h
      refine ⟨fun l _ ↦ hq ▸ trivial, fun w ↦ follows_of_ne (by simp [hq]) (by simp [hq]) (by simp [hq]), ?_, hq ▸ trivial⟩
      intro w hw
      obtain rfl := List.mem_singleton.mp hw
      refine licensed_insert hpending rfl rfl (hq ▸ List.mem_singleton.mpr rfl) ?_ ?_ trivial
      · intro userId howner
        refine ⟨keyShare (.account userId), List.mem_append_left _ ?_, rfl⟩
        exact List.mem_map.mpr ⟨userId, Option.mem_toList.mpr howner, rfl⟩
      · intro userId _ hkind
        cases hkind
  | _ => cases h

theorem scan_consumeChallenge {id : Uuid} {purpose : ChallengePurpose} {userId bootstrapId : Option Uuid}
    (hq : t.request = .consumeChallenge id purpose userId bootstrapId)
    (h : db.consumeChallengeStatement now id purpose userId bootstrapId phase =
      .scan locks writes phase') : Scans db t t.request phase locks writes phase' := by
  cases phase with
  | begun =>
      simp only [AdminDb.consumeChallengeStatement] at h
      split at h
      · cases h
      · rename_i row hfind
        cases h
        refine ⟨fun l hl ↦ ?_, fun w ↦ follows_of_ne (by simp [hq]) (by simp [hq]) (by simp [hq]), not_mem_nil, ?_⟩
        · rw [hq]
          exact List.mem_singleton.mp hl
        · rw [hq]
          exact unconsumed_of_isOpen (Option.filter_eq_some_iff.mp hfind).2
  | _ => cases h

theorem scan_completeBootstrap {bootstrapId credentialId sessionId : Uuid} {secretHash : List UInt8}
    {credential : NewCredential} {session : NewSession} (hpending : t.pending = [])
    (hq : t.request =
      .completeBootstrap bootstrapId secretHash credentialId credential sessionId session)
    (hfact : completeBootstrapFact db t bootstrapId phase)
    (h : db.completeBootstrapStatement now bootstrapId secretHash credentialId credential sessionId
      session phase = .scan locks writes phase') : Scans db t t.request phase locks writes phase' := by
  have hgrows := grows_scan hpending locks writes phase'
  cases phase with
  | begun =>
      simp only [AdminDb.completeBootstrapStatement] at h
      split at h
      · cases h
      · rename_i row hfind
        cases h
        refine ⟨fun l hl ↦ ?_, fun w ↦ follows_of_ne (by simp [hq]) (by simp [hq]) (by simp [hq]), not_mem_nil, ?_⟩
        · rw [hq]
          exact List.mem_singleton.mp hl
        · rw [hq]
          have hopen := (Option.filter_eq_some_iff.mp hfind).2
          rw [Bool.and_eq_true] at hopen
          exact unconsumed_of_isOpen_bootstrap hopen.1
  | bootstrapTaken userId =>
      cases h
      refine ⟨fun l _ ↦ hq ▸ trivial, fun w ↦ follows_of_ne (by simp [hq]) (by simp [hq]) (by simp [hq]), ?_, ?_⟩
      · intro w hw
        obtain rfl := List.mem_singleton.mp hw
        refine licensed_insert hpending rfl rfl (hq ▸ List.mem_cons_self) ?_ ?_ trivial
        · rintro _ ⟨⟩
          exact ⟨keyShare (.account userId), List.mem_cons_self, rfl⟩
        · rintro _ ⟨⟩ _
          exact Spends.stands hfact rfl
      · rw [hq]
        exact Spends.grows hfact hgrows
  | bootstrapRegistered userId =>
      cases h
      refine ⟨fun l _ ↦ hq ▸ trivial, fun w ↦ follows_of_ne (by simp [hq]) (by simp [hq]) (by simp [hq]), ?_, ?_⟩
      · intro w hw
        obtain rfl := List.mem_singleton.mp hw
        refine licensed_insert hpending rfl rfl
          (hq ▸ List.mem_cons_of_mem _ List.mem_cons_self) ?_ ?_ trivial
        · rintro _ ⟨⟩
          exact ⟨keyShare (.account userId), List.mem_cons_self, rfl⟩
        · rintro _ ⟨⟩ _
          exact Spends.stands hfact rfl
      · rw [hq]
        exact ⟨Spends.grows hfact hgrows, List.mem_append_right _ List.mem_cons_self⟩
  | _ => cases h

theorem scan_selectAdministrator {userId : Uuid} {refusal : AdminOutcome}
    (hawaits : t.request.Awaits (forUpdate (.account userId)) .accountSeen)
    (hfollows : ∀ w : AdminWrite, w.Follows t.request phase → w.Follows t.request .accountSeen)
    (hfact : Fact db (t.scan [forUpdate (.account userId)] [] .accountSeen) t.request .accountSeen)
    (h : db.selectAdministrator userId refusal = .scan locks writes phase') :
    Scans db t t.request phase locks writes phase' := by
  unfold AdminDb.selectAdministrator at h
  split at h
  · cases h
    refine ⟨fun l hl ↦ ?_, hfollows, not_mem_nil, hfact⟩
    rw [List.mem_singleton.mp hl]
    exact hawaits
  · cases h

theorem scan_addCredential {userId credentialId : Uuid} {credential : NewCredential}
    (hpending : t.pending = []) (hq : t.request = .addCredential userId credentialId credential)
    (hfact : lockAdministratorFact db t userId phase)
    (h : db.addCredentialStatement userId credentialId credential phase = .scan locks writes phase') :
    Scans db t t.request phase locks writes phase' := by
  cases phase with
  | begun =>
      refine scan_selectAdministrator ?_ ?_ ?_ h
      · rw [hq]
        rfl
      · exact fun w ↦ follows_of_ne (by simp [hq]) (by simp [hq]) (by simp [hq])
      · rw [hq]
        trivial
  | accountLocked =>
      cases h
      refine ⟨fun l _ ↦ hq ▸ trivial, fun w ↦ follows_of_ne (by simp [hq]) (by simp [hq]) (by simp [hq]), ?_, hq ▸ trivial⟩
      intro w hw
      obtain rfl := List.mem_singleton.mp hw
      refine licensed_insert hpending rfl rfl (hq ▸ List.mem_cons_self) ?_ ?_ trivial
      · rintro _ ⟨⟩
        exact ⟨keyShare (.account userId), List.mem_cons_self, rfl⟩
      · rintro _ ⟨⟩ _
        exact Or.inr hfact
  | _ => cases h

theorem follows_completeAuthentication {id sessionId : Uuid} {expected next : UInt32}
    {deviceType : DeviceType} {backedUp : Bool} {session : NewSession}
    (hphase : phase.isAuthenticated = true → phase'.isAuthenticated = true)
    (h : w.Follows (.completeAuthentication id expected next deviceType backedUp sessionId session) phase) :
    w.Follows (.completeAuthentication id expected next deviceType backedUp sessionId session) phase' := by
  cases w with
  | setRole userId role =>
      obtain ⟨⟨actorId, hq⟩, _⟩ := h
      cases hq
  | useCredential id counter deviceType backedUp at_ => exact ⟨h.1, hphase h.2⟩
  | touchSession id at_ =>
      obtain ⟨⟨tokenHash, hq⟩, _⟩ := h
      cases hq
  | _ => trivial

theorem scan_completeAuthentication {credentialId sessionId : Uuid} {expected next : UInt32}
    {deviceType : DeviceType} {backedUp : Bool} {session : NewSession} (hpending : t.pending = [])
    (hq : t.request = .completeAuthentication credentialId expected next deviceType backedUp sessionId
      session)
    (hfact : completeAuthenticationFact db t credentialId expected next phase)
    (h : db.completeAuthenticationStatement now credentialId expected next deviceType backedUp sessionId
      session phase = .scan locks writes phase') : Scans db t t.request phase locks writes phase' := by
  have hgrows := grows_scan hpending locks writes phase'
  cases phase with
  | begun =>
      simp only [AdminDb.completeAuthenticationStatement] at h
      split at h
      · cases h
      · cases h
        refine ⟨fun l hl ↦ ?_, fun w hw ↦ ?_, not_mem_nil, hq ▸ trivial⟩
        · rw [hq]
          exact List.mem_singleton.mp hl
        · rw [hq] at hw ⊢
          exact follows_completeAuthentication (fun hphase ↦ by cases hphase) hw
  | credentialLocked row =>
      simp only [AdminDb.completeAuthenticationStatement] at h
      split at h
      · cases h
      · rename_i hcounter
        cases h
        refine ⟨fun l _ ↦ hq ▸ trivial, fun w hw ↦ ?_, fun w hw ↦ ?_, ?_⟩
        · rw [hq] at hw ⊢
          exact follows_completeAuthentication (fun _ ↦ rfl) hw
        · obtain rfl := List.mem_singleton.mp hw
          refine licensed_update hpending rfl rfl List.mem_cons_self rfl rfl ?_
          rw [hq]
          exact ⟨⟨expected, sessionId, session, rfl⟩, rfl⟩
        · rw [hq]
          exact ⟨Reads.grows hfact.1 hgrows, hfact.2, not_not.mp hcounter, deviceType, backedUp, now,
            List.mem_append_right _ List.mem_cons_self⟩
  | credentialUsed row =>
      cases h
      obtain ⟨hreads, hid, hcounter, device, backed, at_, hwrite⟩ := hfact
      refine ⟨fun l _ ↦ hq ▸ trivial, fun w hw ↦ ?_, fun w hw ↦ ?_, ?_⟩
      · rw [hq] at hw ⊢
        exact follows_completeAuthentication (fun _ ↦ rfl) hw
      · obtain rfl := List.mem_singleton.mp hw
        refine licensed_insert hpending rfl rfl (hq ▸ List.mem_cons_self) ?_ ?_ trivial
        · rintro _ ⟨⟩
          exact ⟨keyShare (.account row.userId), List.mem_cons_self, rfl⟩
        · rintro _ ⟨⟩ _
          exact hreads.stands
      · rw [hq]
        exact ⟨row, hreads.grows hgrows, hid, rfl, hcounter,
          ⟨device, backed, at_, hgrows.writes _ hwrite⟩, List.mem_append_right _ List.mem_cons_self⟩
  | _ => cases h

theorem follows_activeSession {tokenHash : List UInt8}
    (h : w.Follows (.activeSession tokenHash) .begun) : w.Follows (.activeSession tokenHash) phase' := by
  cases w with
  | setRole userId role =>
      obtain ⟨⟨actorId, hq⟩, _⟩ := h
      cases hq
  | useCredential id counter deviceType backedUp at_ =>
      obtain ⟨⟨expected, sessionId, session, hq⟩, _⟩ := h
      cases hq
  | touchSession id at_ =>
      obtain ⟨_, session, tested, hphase, _⟩ := h
      cases hphase
  | _ => trivial

theorem scan_activeSession {tokenHash : List UInt8} (hq : t.request = .activeSession tokenHash)
    (h : db.activeSessionStatement now tokenHash phase = .scan locks writes phase') :
    Scans db t t.request phase locks writes phase' := by
  cases phase with
  | begun =>
      simp only [AdminDb.activeSessionStatement] at h
      split at h
      · cases h
      · rename_i row hfind
        cases h
        refine ⟨fun l hl ↦ ?_, fun w hw ↦ ?_, not_mem_nil, ?_⟩
        · rw [hq]
          exact List.mem_singleton.mp hl
        · rw [hq] at hw ⊢
          exact follows_activeSession hw
        · rw [hq]
          have hrow := List.find?_some hfind
          rw [Bool.and_eq_true, Bool.and_eq_true, decide_eq_true_eq] at hrow
          exact hrow.1
  | _ => cases h

theorem scan_updateSession {sessionId : Uuid} {condition : AdminSession → Bool} {refusal : AdminOutcome}
    (hawaits : ∀ row at_, t.request.Awaits (noKeyUpdate (.session sessionId)) (.sessionSeen row at_))
    (hfollows : ∀ phase', ∀ w : AdminWrite, w.Follows t.request phase → w.Follows t.request phase')
    (hfact : ∀ u : AdminTransaction, ∀ row at_, Fact db u t.request (.sessionSeen row at_))
    (h : db.updateSessionStatement now sessionId condition refusal phase = .scan locks writes phase') :
    Scans db t t.request phase locks writes phase' := by
  cases phase with
  | begun =>
      simp only [AdminDb.updateSessionStatement] at h
      split at h
      · cases h
      · cases h
        refine ⟨fun l hl ↦ ?_, hfollows _, not_mem_nil, hfact _ _ _⟩
        rw [List.mem_singleton.mp hl]
        exact hawaits _ _
  | _ => cases h

theorem mem_otherSessions {userId currentSessionId : Uuid} {l : AdminLock}
    (h : l ∈ db.otherSessions userId currentSessionId) : ∃ id, l = noKeyUpdate (.session id) := by
  obtain ⟨s, _, rfl⟩ := List.mem_map.mp h
  exact ⟨s.id, rfl⟩

theorem scan_revokeOtherSessions {userId currentSessionId : Uuid}
    (hq : t.request = .revokeOtherSessions userId currentSessionId)
    (h : db.revokeOtherSessionsStatement userId currentSessionId phase = .scan locks writes phase') :
    Scans db t t.request phase locks writes phase' := by
  cases phase with
  | begun =>
      cases h
      refine ⟨fun l hl ↦ ?_, fun w ↦ follows_of_ne (by simp [hq]) (by simp [hq]) (by simp [hq]), not_mem_nil, hq ▸ trivial⟩
      rw [hq]
      exact mem_otherSessions hl
  | _ => cases h

theorem scan_renameCredential {userId credentialId : Uuid} {name : List Char}
    (hq : t.request = .renameCredential userId credentialId name)
    (h : db.renameCredentialStatement userId credentialId phase = .scan locks writes phase') :
    Scans db t t.request phase locks writes phase' := by
  cases phase with
  | begun =>
      simp only [AdminDb.renameCredentialStatement] at h
      split at h
      · cases h
      · cases h
        refine ⟨fun l hl ↦ ?_, fun w ↦ follows_of_ne (by simp [hq]) (by simp [hq]) (by simp [hq]), not_mem_nil,
          hq ▸ trivial⟩
        rw [hq]
        exact List.mem_singleton.mp hl
  | _ => cases h

theorem counts_openCredentials {userId : Uuid} (hwrites : t.writes = []) (phase : AdminPhase) :
    Counts db (t.scan ((((db.openCredentials userId).map AdminCredential.id).insertionSort (· ≤ ·)).map
      fun id ↦ forUpdate (.credential id)) [] phase) userId [] where
  writes := by
    change t.writes ++ [] = []
    rw [hwrites, List.append_nil]
  nodup := by
    have hids : ((db.openCredentials userId).map AdminCredential.id).Nodup :=
      db.credentials.nodup.sublist (List.filter_sublist.map _)
    have hsorted := (List.perm_insertionSort (· ≤ ·)
      ((db.openCredentials userId).map AdminCredential.id)).nodup_iff.mpr hids
    change (List.map RowLock.row (List.map _ _)).Nodup
    rw [List.map_map]
    exact hsorted.map fun x y hxy ↦ AdminRow.credential.inj hxy
  counted := fun id hid ↦ absurd hid List.not_mem_nil
  owned := fun id hid ↦ by
    obtain ⟨other, hother, hlock⟩ := List.mem_map.mp hid
    obtain rfl : other = id := AdminRow.credential.inj (congrArg RowLock.row hlock)
    have hmem := (List.perm_insertionSort (· ≤ ·) _).mem_iff.mp hother
    obtain ⟨k, hk, hkid⟩ := List.mem_map.mp hmem
    obtain ⟨hk, hopen⟩ := Table.mem_select.mp hk
    rw [Bool.and_eq_true, decide_eq_true_eq] at hopen
    exact ⟨k, hk, hkid, hopen.1⟩

theorem exists_ne_of_nodup {ids : List Uuid} (id : Uuid) (hnodup : ids.Nodup)
    (hlength : ¬ ids.length ≤ 1) : ∃ other ∈ ids, other ≠ id := by
  cases ids with
  | nil => exact absurd (Nat.zero_le 1) hlength
  | cons x xs =>
      cases xs with
      | nil => exact absurd (le_refl 1) hlength
      | cons y ys =>
          have hne : x ≠ y := fun hxy ↦ (List.nodup_cons.mp hnodup).1 (hxy ▸ List.mem_cons_self)
          by_cases hx : x = id
          · exact ⟨y, List.mem_cons_of_mem _ List.mem_cons_self, fun hy ↦ hne (hx.trans hy.symm)⟩
          · exact ⟨x, List.mem_cons_self, hx⟩

/-- When more than one credential is counted, one of the others stays. -/
theorem Counts.survives {userId credentialId : Uuid} {ids : List Uuid} (h : Counts db t userId ids)
    (hlength : ¬ ids.length ≤ 1) (hpending : t.pending = []) :
    Survives db (t.scan [noKeyUpdate (.credential credentialId)] [.revokeCredential credentialId now]
      .credentialRevoked) userId credentialId := by
  have hnodup : ids.Nodup := by
    have hrows := h.nodup
    rw [hpending, List.map_nil, List.append_nil] at hrows
    exact hrows.of_map _
  obtain ⟨other, hother, hne⟩ := exists_ne_of_nodup credentialId hnodup hlength
  refine ⟨other, hne, (h.counted other hother).1,
    (h.counted other hother).2.grows (grows_scan hpending _ _ _), fun w hw _ htarget ↦ ?_⟩
  have hw : w ∈ t.writes ++ [.revokeCredential credentialId now] := hw
  rw [h.writes, List.nil_append] at hw
  obtain rfl := List.mem_singleton.mp hw
  exact hne (AdminRow.credential.inj htarget).symm

theorem scan_revokeCredential {userId credentialId currentSessionId : Uuid} (hpending : t.pending = [])
    (hq : t.request = .revokeCredential userId credentialId currentSessionId)
    (hfact : revokeCredentialFact db t userId credentialId phase)
    (h : db.revokeCredentialStatement now userId credentialId currentSessionId phase =
      .scan locks writes phase') : Scans db t t.request phase locks writes phase' := by
  cases phase with
  | begun =>
      cases h
      refine ⟨fun l hl ↦ ?_, fun w ↦ follows_of_ne (by simp [hq]) (by simp [hq]) (by simp [hq]), not_mem_nil, ?_⟩
      · rw [hq]
        obtain ⟨id, _, rfl⟩ := List.mem_map.mp hl
        exact ⟨id, rfl⟩
      · rw [hq]
        exact counts_openCredentials hfact _
  | counting ids =>
      simp only [AdminDb.revokeCredentialStatement] at h
      split at h
      · cases h
      · split at h
        · cases h
        · rename_i hlength
          cases h
          refine ⟨fun l _ ↦ hq ▸ trivial, fun w ↦ follows_of_ne (by simp [hq]) (by simp [hq]) (by simp [hq]),
            fun w hw ↦ ?_, ?_⟩
          · obtain rfl := List.mem_singleton.mp hw
            exact licensed_update hpending rfl rfl List.mem_cons_self rfl rfl trivial
          · rw [hq]
            exact ⟨Counts.survives hfact hlength hpending, .revokeCredential credentialId now,
              List.mem_append_right _ List.mem_cons_self, rfl, rfl⟩
  | credentialRevoked =>
      cases h
      refine ⟨fun l hl ↦ ?_, fun w ↦ follows_of_ne (by simp [hq]) (by simp [hq]) (by simp [hq]), not_mem_nil, ?_⟩
      · rw [hq]
        exact mem_otherSessions hl
      · rw [hq]
        obtain ⟨⟨id, hne, hopen, hholds, hkeeps⟩, hends⟩ := hfact
        refine ⟨⟨id, hne, hopen, hholds.grows (grows_scan hpending _ _ _), fun w hw ↦ ?_⟩,
          hends.grows (grows_scan hpending _ _ _)⟩
        exact hkeeps w ((List.append_nil t.writes) ▸ hw)
  | _ => cases h

theorem scan_issueBootstrap {userId bootstrapId : Uuid} {secretHash : List UInt8} {expiresAt : ℤ}
    (hpending : t.pending = []) (hq : t.request = .issueBootstrap userId bootstrapId secretHash expiresAt)
    (hfact : lockAdministratorFact db t userId phase)
    (h : db.issueBootstrapStatement userId bootstrapId secretHash expiresAt phase =
      .scan locks writes phase') : Scans db t t.request phase locks writes phase' := by
  have hgrows := grows_scan hpending locks writes phase'
  cases phase with
  | begun =>
      refine scan_selectAdministrator ?_ ?_ ?_ h
      · rw [hq]
        rfl
      · exact fun w ↦ follows_of_ne (by simp [hq]) (by simp [hq]) (by simp [hq])
      · rw [hq]
        trivial
  | accountLocked =>
      cases h
      refine ⟨fun l hl ↦ ?_, fun w ↦ follows_of_ne (by simp [hq]) (by simp [hq]) (by simp [hq]), not_mem_nil, ?_⟩
      · rw [hq]
        obtain ⟨b, _, rfl⟩ := List.mem_map.mp hl
        rfl
      · rw [hq]
        exact ⟨hgrows.held _ hfact.1, hfact.2⟩
  | consuming =>
      cases h
      refine ⟨fun l _ ↦ hq ▸ trivial, fun w ↦ follows_of_ne (by simp [hq]) (by simp [hq]) (by simp [hq]), ?_, hq ▸ trivial⟩
      intro w hw
      obtain rfl := List.mem_singleton.mp hw
      refine licensed_insert hpending rfl rfl (hq ▸ List.mem_cons_self) ?_ ?_ trivial
      · rintro _ ⟨⟩
        exact ⟨keyShare (.account userId), List.mem_cons_self, rfl⟩
      · rintro _ ⟨⟩ _
        exact Or.inr hfact
  | _ => cases h

section Demotions

variable {userId id : Uuid}

/-- An open row of the user's is among the rows that one of the four updates selects. -/
theorem exists_lock_of_open {ρ : Type} {key : ρ → Uuid} {rows : Table key} {isOpen : ρ → Bool}
    {owner : ρ → Option Uuid} {belongs : ρ → Prop} [DecidablePred belongs] (row : Uuid → AdminRow)
    (h : ((rows.find? id).filter isOpen).map owner = some (some userId))
    (howned : ∀ r, owner r = some userId → belongs r) :
    ∃ l ∈ (rows.select fun r ↦ belongs r && isOpen r).map fun r ↦ noKeyUpdate (row (key r)),
      l.row = row id := by
  obtain ⟨r, hr, howner⟩ := Option.map_eq_some_iff.mp h
  obtain ⟨hfind, hopen⟩ := Option.filter_eq_some_iff.mp hr
  obtain ⟨hmem, rfl⟩ := Table.find?_eq_some_iff.mp hfind
  refine ⟨noKeyUpdate (row (key r)), List.mem_map.mpr ⟨r, Table.mem_select.mpr ⟨hmem, ?_⟩, rfl⟩, rfl⟩
  rw [Bool.and_eq_true, decide_eq_true_eq]
  exact ⟨howned r howner, hopen⟩

/-- The next update of a demotion is about the rows of one more table. -/
theorem Demotes.scan (h : Demotes db t userId phase) (hpending : t.pending = [])
    (hlisted : ∀ row, phase'.hasEnded row = true → phase.hasEnded row = false →
      db.openRow row = some (some userId) → ∃ l ∈ locks, l.row = row) :
    Demotes db (t.scan locks [] phase') userId phase' where
  locked := h.locked
  ended := fun row hphase hopen ↦ by
    cases hbefore : phase.hasEnded row with
    | false => exact Or.inl (hlisted row hphase hbefore hopen)
    | true =>
        rcases h.ended row hbefore hopen with ⟨l, hl, _⟩ | hends
        · rw [hpending] at hl
          exact absurd hl List.not_mem_nil
        · exact Or.inr (hends.grows (grows_scan hpending locks [] phase'))

end Demotions

theorem follows_setRole {targetId actorId : Uuid} {role : AdminUserRole}
    (hphase : phase.isDemoting = true → phase'.isDemoting = true)
    (h : w.Follows (.setRole targetId role actorId) phase) :
    w.Follows (.setRole targetId role actorId) phase' := by
  cases w with
  | setRole userId newRole => exact ⟨h.1, hphase h.2⟩
  | useCredential id counter deviceType backedUp at_ =>
      obtain ⟨⟨expected, sessionId, session, hq⟩, _⟩ := h
      cases hq
  | touchSession id at_ =>
      obtain ⟨⟨tokenHash, hq⟩, _⟩ := h
      cases hq
  | _ => trivial

theorem scan_setRole {targetId actorId : Uuid} {role : AdminUserRole} (hpending : t.pending = [])
    (hq : t.request = .setRole targetId role actorId) (hfact : setRoleFact db t targetId role phase)
    (h : db.setRoleStatement targetId role actorId phase = .scan locks writes phase') :
    Scans db t t.request phase locks writes phase' := by
  have hgrows := grows_scan hpending locks writes phase'
  cases phase with
  | begun =>
      simp only [AdminDb.setRoleStatement] at h
      split at h
      · cases h
        refine ⟨fun l _ ↦ hq ▸ trivial, fun w hw ↦ ?_, not_mem_nil, hq ▸ trivial⟩
        rw [hq] at hw ⊢
        exact follows_setRole (fun hphase ↦ by cases hphase) hw
      · cases h
  | actorLocked =>
      simp only [AdminDb.setRoleStatement] at h
      split at h
      · cases h
      · split at h
        · cases h
          refine ⟨fun l hl ↦ ?_, fun w hw ↦ ?_, not_mem_nil, hq ▸ trivial⟩
          · rw [hq]
            exact List.mem_singleton.mp hl
          · rw [hq] at hw ⊢
            exact follows_setRole (fun hphase ↦ by cases hphase) hw
        · cases h
  | targetLocked row =>
      simp only [AdminDb.setRoleStatement] at h
      split at h
      · cases h
      · split at h
        · cases h
        · cases h
          refine ⟨fun l _ ↦ hq ▸ trivial, fun w hw ↦ ?_, fun w hw ↦ ?_, ?_⟩
          · rw [hq] at hw ⊢
            exact follows_setRole (fun _ ↦ rfl) hw
          · obtain rfl := List.mem_singleton.mp hw
            refine licensed_update hpending rfl rfl List.mem_cons_self rfl rfl ?_
            rw [hq]
            exact ⟨⟨actorId, rfl⟩, rfl⟩
          · rw [hq]
            exact ⟨⟨hgrows.held _ hfact, fun row hphase ↦ by cases row <;> cases hphase⟩,
              List.mem_append_right _ List.mem_cons_self⟩
  | roleChanged =>
      simp only [AdminDb.setRoleStatement] at h
      split at h
      · cases h
        refine ⟨fun l hl ↦ ?_, fun w hw ↦ ?_, not_mem_nil, ?_⟩
        · rw [hq]
          obtain ⟨s, _, rfl⟩ := List.mem_map.mp hl
          rfl
        · rw [hq] at hw ⊢
          exact follows_setRole (fun _ ↦ rfl) hw
        · rw [hq]
          refine ⟨Demotes.scan hfact.1 hpending fun row hphase _ hopen ↦ ?_, hgrows.writes _ hfact.2⟩
          cases row with
          | session id => exact exists_lock_of_open .session hopen fun _ ↦ Option.some.inj
          | _ => cases hphase
      · cases h
  | demotedSessions =>
      cases h
      refine ⟨fun l hl ↦ ?_, fun w hw ↦ ?_, not_mem_nil, ?_⟩
      · rw [hq]
        obtain ⟨k, _, rfl⟩ := List.mem_map.mp hl
        rfl
      · rw [hq] at hw ⊢
        exact follows_setRole (fun _ ↦ rfl) hw
      · rw [hq]
        refine ⟨Demotes.scan hfact.1 hpending fun row hphase hbefore hopen ↦ ?_, hgrows.writes _ hfact.2⟩
        cases row with
        | session id => cases hbefore
        | credential id => exact exists_lock_of_open .credential hopen fun _ ↦ Option.some.inj
        | _ => cases hphase
  | demotedCredentials =>
      cases h
      refine ⟨fun l hl ↦ ?_, fun w hw ↦ ?_, not_mem_nil, ?_⟩
      · rw [hq]
        obtain ⟨b, _, rfl⟩ := List.mem_map.mp hl
        rfl
      · rw [hq] at hw ⊢
        exact follows_setRole (fun _ ↦ rfl) hw
      · rw [hq]
        refine ⟨Demotes.scan hfact.1 hpending fun row hphase hbefore hopen ↦ ?_, hgrows.writes _ hfact.2⟩
        cases row with
        | account other => cases hopen
        | session id => cases hbefore
        | credential id => cases hbefore
        | bootstrap id => exact exists_lock_of_open .bootstrap hopen fun _ ↦ Option.some.inj
        | challenge id => cases hphase
  | demotedBootstraps =>
      cases h
      refine ⟨fun l hl ↦ ?_, fun w hw ↦ ?_, not_mem_nil, ?_⟩
      · rw [hq]
        obtain ⟨c, _, rfl⟩ := List.mem_map.mp hl
        rfl
      · rw [hq] at hw ⊢
        exact follows_setRole (fun _ ↦ rfl) hw
      · rw [hq]
        refine ⟨Demotes.scan hfact.1 hpending fun row _ hbefore hopen ↦ ?_, hgrows.writes _ hfact.2⟩
        cases row with
        | challenge id => exact exists_lock_of_open .challenge hopen fun _ howner ↦ howner
        | _ => cases hbefore
  | _ => cases h

theorem scan_setBan {targetId adminId : Uuid} {isBanned : Bool} {adminRole : AdminRole}
    (hpending : t.pending = []) (hq : t.request = .setBan targetId isBanned adminId adminRole)
    (h : db.setBanStatement targetId isBanned adminId adminRole phase = .scan locks writes phase') :
    Scans db t t.request phase locks writes phase' := by
  cases phase with
  | begun =>
      simp only [AdminDb.setBanStatement] at h
      split at h
      · cases h
        refine ⟨fun l hl ↦ ?_, fun w ↦ follows_of_ne (by simp [hq]) (by simp [hq]) (by simp [hq]), not_mem_nil,
          hq ▸ trivial⟩
        rw [hq]
        exact List.mem_singleton.mp hl
      · cases h
  | targetLocked row =>
      simp only [AdminDb.setBanStatement] at h
      split at h
      · cases h
      · cases h
        refine ⟨fun l _ ↦ hq ▸ trivial, fun w ↦ follows_of_ne (by simp [hq]) (by simp [hq]) (by simp [hq]),
          fun w hw ↦ ?_, hq ▸ trivial⟩
        obtain rfl := List.mem_singleton.mp hw
        exact licensed_update hpending rfl rfl List.mem_cons_self rfl rfl trivial
  | _ => cases h

theorem scan_cleanUp {table : RemovedTable} {ids : List Uuid} (hq : t.request = .cleanUp table ids)
    (h : db.cleanUpStatement now table ids phase = .scan locks writes phase') :
    Scans db t t.request phase locks writes phase' := by
  cases phase with
  | begun =>
      simp only [AdminDb.cleanUpStatement] at h
      split at h
      · cases h
        refine ⟨fun l hl ↦ ?_, fun w ↦ follows_of_ne (by simp [hq]) (by simp [hq]) (by simp [hq]), not_mem_nil,
          hq ▸ trivial⟩
        rw [hq]
        obtain ⟨id, _, rfl⟩ := List.mem_map.mp hl
        rfl
      · cases h
  | _ => cases h

/-- A statement leaves the transaction with everything it relies on. -/
theorem Sound.statement (h : Sound db t) (hpending : t.pending = [])
    (hstatement : db.statement now t.request t.phase = .scan locks writes phase') :
    Sound db (t.scan locks writes phase') := by
  refine h.scan hpending ?_
  have hfact := h.fact
  cases hq : t.request with
  | createChallenge id input =>
      rw [hq] at hstatement
      exact hq ▸ scan_createChallenge hpending hq hstatement
  | consumeChallenge id purpose userId bootstrapId =>
      rw [hq] at hstatement
      exact hq ▸ scan_consumeChallenge hq hstatement
  | completeBootstrap bootstrapId secretHash credentialId credential sessionId session =>
      rw [hq] at hstatement hfact
      exact hq ▸ scan_completeBootstrap hpending hq hfact hstatement
  | addCredential userId credentialId credential =>
      rw [hq] at hstatement hfact
      exact hq ▸ scan_addCredential hpending hq hfact hstatement
  | completeAuthentication credentialId expected next deviceType backedUp sessionId session =>
      rw [hq] at hstatement hfact
      exact hq ▸ scan_completeAuthentication hpending hq hfact hstatement
  | activeSession tokenHash =>
      rw [hq] at hstatement
      exact hq ▸ scan_activeSession hq hstatement
  | revokeSession userId sessionId =>
      rw [hq] at hstatement
      refine hq ▸ scan_updateSession (fun _ _ ↦ ?_) (fun _ w ↦ ?_) (fun _ _ _ ↦ ?_) hstatement
      · rw [hq]
        rfl
      · exact follows_of_ne (by simp [hq]) (by simp [hq]) (by simp [hq])
      · rw [hq]
        trivial
  | revokeOtherSessions userId currentSessionId =>
      rw [hq] at hstatement
      exact hq ▸ scan_revokeOtherSessions hq hstatement
  | revokeSelectedSession userId sessionId currentSessionId =>
      rw [hq] at hstatement
      refine hq ▸ scan_updateSession (fun _ _ ↦ ?_) (fun _ w ↦ ?_) (fun _ _ _ ↦ ?_) hstatement
      · rw [hq]
        rfl
      · exact follows_of_ne (by simp [hq]) (by simp [hq]) (by simp [hq])
      · rw [hq]
        trivial
  | renameCredential userId credentialId name =>
      rw [hq] at hstatement
      exact hq ▸ scan_renameCredential hq hstatement
  | revokeCredential userId credentialId currentSessionId =>
      rw [hq] at hstatement hfact
      exact hq ▸ scan_revokeCredential hpending hq hfact hstatement
  | issueBootstrap userId bootstrapId secretHash expiresAt =>
      rw [hq] at hstatement hfact
      exact hq ▸ scan_issueBootstrap hpending hq hfact hstatement
  | setRole targetId role actorId =>
      rw [hq] at hstatement hfact
      exact hq ▸ scan_setRole hpending hq hfact hstatement
  | setBan targetId isBanned adminId adminRole =>
      rw [hq] at hstatement
      exact hq ▸ scan_setBan hpending hq hstatement
  | cleanUp table ids =>
      rw [hq] at hstatement
      exact hq ▸ scan_cleanUp hq hstatement

end Scanned

end AdminAccess

end Histae.Identity
