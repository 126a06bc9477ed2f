import Histae.Identity.AdminSafety

/-!
# Administrator transactions in flight

What a transaction that registers a credential or opens a session has seen and
done before it commits. A demotion leaves such a transaction nothing: what it
has read as an administrator's is closed by then, and under its lock it is
refused.
-/

namespace Histae.Identity

open Relational Systems

/-- A credential or session is inserted when nothing else is left to do, but
for the session of a new credential. -/
def AdminWrite.ComesWith (phase : AdminPhase) : AdminWrite → Prop
  | .insertCredential _ => (∃ userId, phase = .bootstrapRegistered userId) ∨ ∃ result, phase = .decided result
  | .insertSession s => phase = .decided (.opened s)
  | _ => True

namespace AdminAccess

section Insertions

variable {db : AdminDb} {now : ℤ} {t : AdminTransaction} {q : AdminRequest} {l : AdminLock}
  {rest locks : List AdminLock} {writes : List AdminWrite} {phase phase' : AdminPhase}
  {w : AdminWrite} {row : AdminRow} {result : AdminOutcome}

/-- What a transaction has inserted belongs to its phase, and a credential is
added under the lock of its account. -/
structure InsertsLast (t : AdminTransaction) : Prop where
  inserted : ∀ w ∈ t.writes, w.ComesWith t.phase
  locked : ∀ userId credentialId credential, t.request = .addCredential userId credentialId credential →
    t.phase = .decided (.added true) → forUpdate (.account userId) ∈ t.held

theorem comesWith_of_opens (h : w.opens = none) : w.ComesWith phase := by
  cases w with
  | insertCredential k => cases h
  | insertSession s => cases h
  | _ => trivial

theorem lock_decided : db.lock now row q (.decided result) = (.decided result, []) := by
  cases q <;> rfl

theorem lock_registered {userId : Uuid} :
    db.lock now row q (.bootstrapRegistered userId) = (.bootstrapRegistered userId, []) := by
  cases q <;> rfl

theorem statement_decided : db.statement now q (.decided result) ≠ .scan locks writes phase := by
  cases q <;> exact nofun

theorem insertsLast_opening {s : AdminTraffic} {idleTtl : ℤ} :
    InsertsLast ((adminAccess idleTtl).opening s q) :=
  ⟨fun w hw ↦ absurd hw List.not_mem_nil, fun _ _ _ _ hphase ↦ by cases hphase⟩

theorem InsertsLast.take (h : InsertsLast t) (hsound : Sound db t) (hpending : t.pending = l :: rest) :
    InsertsLast (t.take l (db.lock now l.row t.request t.phase)) where
  inserted := fun w hw ↦ by
    rcases List.mem_append.mp hw with hw | hw
    · have hcomes := h.inserted w hw
      cases w with
      | insertCredential k =>
          rcases hcomes with ⟨userId, hphase⟩ | ⟨result, hphase⟩
          · exact Or.inl ⟨userId, by rw [hphase, lock_registered]; rfl⟩
          · exact Or.inr ⟨result, by rw [hphase, lock_decided]; rfl⟩
      | insertSession s =>
          have hphase : t.phase = .decided (.opened s) := hcomes
          change (db.lock now l.row t.request t.phase).1 = _
          rw [hphase, lock_decided]
      | _ => trivial
    · exact comesWith_of_opens
        (lock_writes (hsound.awaited l (hpending ▸ List.mem_cons_self)) hw).1.opens
  locked := fun userId credentialId credential hq hphase ↦ by
    refine List.mem_append_left _ (h.locked userId credentialId credential hq ?_)
    change t.request = _ at hq
    change (db.lock now l.row t.request t.phase).1 = _ at hphase
    rw [hq] at hphase
    cases hbefore : t.phase with
    | accountSeen =>
        rw [hbefore] at hphase
        simp only [AdminDb.lock, AdminDb.lockAdministrator] at hphase
        split at hphase <;> cases hphase
    | _ =>
        rw [hbefore] at hphase
        exact hphase

/-- A statement that inserts a credential or a session decides the answer, but
for the credential of a bootstrap. -/
theorem comesWith_of_scan (hsound : Sound db t) (hpending : t.pending = [])
    (hstatement : db.statement now t.request t.phase = .scan locks writes phase') (hw : w ∈ writes) :
    w.ComesWith phase' := by
  cases hopens : w.opens with
  | none => exact comesWith_of_opens hopens
  | some owner =>
      have hcreates : w.target ∈ t.request.creates :=
        ((hsound.statement hpending hstatement).licensed w (List.mem_append_right _ hw)).creates
          (by simp [hopens])
      cases hq : t.request with
      | completeBootstrap bootstrapId secretHash credentialId credential sessionId session =>
          rw [hq] at hstatement
          cases hphase : t.phase with
          | begun =>
              rw [hphase] at hstatement
              simp only [AdminDb.statement, AdminDb.completeBootstrapStatement] at hstatement
              split at hstatement <;> cases hstatement
              cases hw
          | bootstrapTaken userId =>
              rw [hphase] at hstatement
              cases hstatement
              obtain rfl := List.mem_singleton.mp hw
              exact Or.inl ⟨userId, rfl⟩
          | bootstrapRegistered userId =>
              rw [hphase] at hstatement
              cases hstatement
              obtain rfl := List.mem_singleton.mp hw
              rfl
          | decided result => exact absurd (hphase ▸ hstatement) statement_decided
          | _ =>
              rw [hphase] at hstatement
              cases hstatement
      | addCredential userId credentialId credential =>
          rw [hq] at hstatement
          cases hphase : t.phase with
          | begun =>
              rw [hphase] at hstatement
              simp only [AdminDb.statement, AdminDb.addCredentialStatement,
                AdminDb.selectAdministrator] at hstatement
              split at hstatement <;> cases hstatement
              cases hw
          | accountLocked =>
              rw [hphase] at hstatement
              cases hstatement
              obtain rfl := List.mem_singleton.mp hw
              exact Or.inr ⟨_, rfl⟩
          | decided result => exact absurd (hphase ▸ hstatement) statement_decided
          | _ =>
              rw [hphase] at hstatement
              cases hstatement
      | completeAuthentication credentialId expected next deviceType backedUp sessionId session =>
          rw [hq] at hstatement
          cases hphase : t.phase with
          | begun =>
              rw [hphase] at hstatement
              simp only [AdminDb.statement, AdminDb.completeAuthenticationStatement] at hstatement
              split at hstatement <;> cases hstatement
              cases hw
          | credentialLocked seen =>
              rw [hphase] at hstatement
              simp only [AdminDb.statement, AdminDb.completeAuthenticationStatement] at hstatement
              split at hstatement <;> cases hstatement
              obtain rfl := List.mem_singleton.mp hw
              cases hopens
          | credentialUsed seen =>
              rw [hphase] at hstatement
              cases hstatement
              obtain rfl := List.mem_singleton.mp hw
              rfl
          | decided result => exact absurd (hphase ▸ hstatement) statement_decided
          | _ =>
              rw [hphase] at hstatement
              cases hstatement
      | _ =>
          rw [hq] at hcreates
          cases w with
          | insertCredential k => simp [AdminRequest.creates, AdminWrite.target] at hcreates
          | insertSession s => simp [AdminRequest.creates, AdminWrite.target] at hcreates
          | _ => trivial

theorem InsertsLast.scan (h : InsertsLast t) (hsound : Sound db t) (hpending : t.pending = [])
    (hstatement : db.statement now t.request t.phase = .scan locks writes phase') :
    InsertsLast (t.scan locks writes phase') where
  inserted := fun w hw ↦ by
    rcases List.mem_append.mp hw with hw | hw
    · have hcomes := h.inserted w hw
      cases w with
      | insertCredential k =>
          rcases hcomes with ⟨userId, hphase⟩ | ⟨result, hphase⟩
          · rw [hphase] at hstatement
            cases hq : t.request with
            | completeBootstrap bootstrapId secretHash credentialId credential sessionId session =>
                rw [hq] at hstatement
                cases hstatement
                exact Or.inr ⟨_, rfl⟩
            | _ =>
                rw [hq] at hstatement
                cases hstatement
          · rw [hphase] at hstatement
            exact absurd hstatement statement_decided
      | insertSession s =>
          have hphase : t.phase = .decided (.opened s) := hcomes
          rw [hphase] at hstatement
          exact absurd hstatement statement_decided
      | _ => trivial
    · exact comesWith_of_scan hsound hpending hstatement hw
  locked := fun userId credentialId credential hq hphase ↦ by
    change t.request = _ at hq
    change phase' = _ at hphase
    have hfact := hsound.fact
    rw [hq] at hstatement hfact
    cases hbefore : t.phase with
    | begun =>
        rw [hbefore] at hstatement
        simp only [AdminDb.statement, AdminDb.addCredentialStatement,
          AdminDb.selectAdministrator] at hstatement
        split at hstatement <;> cases hstatement
        cases hphase
    | accountLocked =>
        rw [hbefore] at hfact
        exact hfact.1
    | decided result => exact absurd (hbefore ▸ hstatement) statement_decided
    | _ =>
        rw [hbefore] at hstatement
        cases hstatement

end Insertions

section Glimpses

/-- The row that a statement has found in its snapshot and not locked yet, and
the user whose account the snapshot shows as an administrator's. -/
def glimpse (t : AdminTransaction) : Option (AdminRow × Uuid) :=
  match t.request, t.phase with
  | .completeBootstrap bootstrapId _ _ _ _ _, .bootstrapSeen row =>
      some (.bootstrap bootstrapId, row.userId)
  | .completeAuthentication credentialId _ _ _ _ _ _, .credentialSeen row =>
      some (.credential credentialId, row.userId)
  | _, _ => none

/-- A row that has been seen: nobody inserts it again, and while it is open it
is of the same user. -/
structure Glimpsed (s : AdminTraffic) (row : AdminRow) (userId : Uuid) : Prop where
  issued : row ∈ s.committed.issued
  fresh : ∀ u ∈ s.transactions, row ∉ u.request.creates
  owner : ∀ owner, s.committed.db.openRow row = some owner → owner = some userId

variable {idleTtl : ℤ} {D : AdminRow → Prop} {old : List AdminAnswer} {s : AdminTraffic}
  {db db' : AdminDb} {now : ℤ} {t : AdminTransaction} {l : AdminLock} {locks : List AdminLock}
  {writes : List AdminWrite} {phase : AdminPhase} {row : AdminRow} {userId : Uuid}
  {a : RowStep AdminRequest ℤ}

theorem glimpse_take : glimpse (t.take l (db.lock now l.row t.request t.phase)) = none := by
  cases hq : t.request with
  | completeBootstrap bootstrapId secretHash credentialId credential sessionId session =>
      cases hphase : t.phase with
      | bootstrapSeen seen =>
          cases hfind : (db.bootstraps.find? bootstrapId).filter
              fun b ↦ b = seen || b.isOpen now secretHash <;>
            simp [glimpse, RowTransaction.take, hq, AdminDb.lock, AdminDb.completeBootstrapLock, hfind]
      | _ => simp [glimpse, RowTransaction.take, hq, AdminDb.lock, AdminDb.completeBootstrapLock]
  | completeAuthentication credentialId expected next deviceType backedUp sessionId session =>
      cases hphase : t.phase with
      | credentialSeen seen =>
          cases hfind : (db.credentials.find? credentialId).filter fun k ↦ k.revokedAt.isNone <;>
            simp [glimpse, RowTransaction.take, hq, AdminDb.lock,
              AdminDb.completeAuthenticationLock, hfind]
      | _ => simp [glimpse, RowTransaction.take, hq, AdminDb.lock, AdminDb.completeAuthenticationLock]
  | _ => simp [glimpse, RowTransaction.take, hq]

/-- What a statement sees is stored and open. -/
theorem openRow_of_glimpse (hstatement : db.statement now t.request t.phase = .scan locks writes phase)
    (h : glimpse (t.scan locks writes phase) = some (row, userId)) :
    db.openRow row = some (some userId) := by
  cases hq : t.request with
  | completeBootstrap bootstrapId secretHash credentialId credential sessionId session =>
      rw [hq] at hstatement
      cases hphase : t.phase with
      | begun =>
          rw [hphase] at hstatement
          simp only [AdminDb.statement, AdminDb.completeBootstrapStatement] at hstatement
          split at hstatement <;> cases hstatement
          rename_i seen hfind
          obtain ⟨hstored, hopen⟩ := Option.filter_eq_some_iff.mp hfind
          rw [Bool.and_eq_true] at hopen
          simp only [glimpse, RowTransaction.scan, hq, Option.some.injEq, Prod.mk.injEq] at h
          obtain ⟨rfl, rfl⟩ := h
          exact openRow_bootstrap hstored (unconsumed_of_isOpen_bootstrap hopen.1)
      | bootstrapTaken owner =>
          rw [hphase] at hstatement
          cases hstatement
          simp [glimpse, RowTransaction.scan, hq] at h
      | bootstrapRegistered owner =>
          rw [hphase] at hstatement
          cases hstatement
          simp [glimpse, RowTransaction.scan, hq] at h
      | decided result => exact absurd (hphase ▸ hstatement) statement_decided
      | _ =>
          rw [hphase] at hstatement
          cases hstatement
  | completeAuthentication credentialId expected next deviceType backedUp sessionId session =>
      rw [hq] at hstatement
      cases hphase : t.phase with
      | begun =>
          rw [hphase] at hstatement
          simp only [AdminDb.statement, AdminDb.completeAuthenticationStatement] at hstatement
          split at hstatement <;> cases hstatement
          rename_i seen hfind
          obtain ⟨hstored, hopen⟩ := Option.filter_eq_some_iff.mp hfind
          rw [Bool.and_eq_true] at hopen
          simp only [glimpse, RowTransaction.scan, hq, Option.some.injEq, Prod.mk.injEq] at h
          obtain ⟨rfl, rfl⟩ := h
          exact openRow_credential hstored (Option.isNone_iff_eq_none.mp hopen.1)
      | credentialLocked seen =>
          rw [hphase] at hstatement
          simp only [AdminDb.statement, AdminDb.completeAuthenticationStatement] at hstatement
          split at hstatement <;> cases hstatement
          simp [glimpse, RowTransaction.scan, hq] at h
      | credentialUsed seen =>
          rw [hphase] at hstatement
          cases hstatement
          simp [glimpse, RowTransaction.scan, hq] at h
      | decided result => exact absurd (hphase ▸ hstatement) statement_decided
      | _ =>
          rw [hphase] at hstatement
          cases hstatement
  | _ => simp [glimpse, RowTransaction.scan, hq] at h

/-- What the transactions in flight have done and seen. -/
structure Observed (s : AdminTraffic) : Prop where
  insertsLast : ∀ t ∈ s.transactions, InsertsLast t
  glimpsed : ∀ t ∈ s.transactions, ∀ row userId, glimpse t = some (row, userId) → Glimpsed s row userId

theorem isAccount_of_openRow {owner : Option Uuid} (h : db.openRow row = some owner) :
    row.isAccount = false := by
  cases row with
  | account other => cases h
  | _ => rfl

/-- One transaction of the traffic takes a step. -/
theorem Observed.put (h : Observed s) {t' : AdminTransaction} (ht : t ∈ s.transactions)
    (hid : t'.id = t.id) (hrequest : t'.request = t.request) (hlast : InsertsLast t')
    (hglimpse : ∀ row userId, glimpse t' = some (row, userId) → Glimpsed s row userId) :
    Observed { s with transactions := s.put t' } := by
  have hmem {u : AdminTransaction} : u ∈ s.put t' ↔ u = t' ∨ u ∈ s.transactions ∧ u.id ≠ t.id := by
    rw [RowTraffic.mem_put ⟨t, ht, hid.symm⟩, hid]
  have hkeeps {row : AdminRow} {userId : Uuid} (hseen : Glimpsed s row userId) :
      Glimpsed { s with transactions := s.put t' } row userId := by
    refine ⟨hseen.issued, fun u hu ↦ ?_, hseen.owner⟩
    rcases hmem.mp hu with rfl | ⟨hu, _⟩
    · rw [hrequest]
      exact hseen.fresh t ht
    · exact hseen.fresh u hu
  refine ⟨fun u hu ↦ ?_, fun u hu row userId hseen ↦ ?_⟩
  · rcases hmem.mp hu with rfl | ⟨hu, _⟩
    · exact hlast
    · exact h.insertsLast u hu
  · rcases hmem.mp hu with rfl | ⟨hu, _⟩
    · exact hkeeps (hglimpse row userId hseen)
    · exact hkeeps (h.glimpsed u hu row userId hseen)

theorem Observed.next (h : Observed s)
    (hs : (adminAccess idleTtl).Asserted (Invariant idleTtl D old) (Assertion D) s)
    (ha : (adminAccess idleTtl).system.Enabled s a) :
    Observed ((adminAccess idleTtl).system.next s a) := by
  have heffect := RowProtocol.effect_of_enabled ha
  generalize (adminAccess idleTtl).system.next s a = s' at heffect ⊢
  cases heffect with
  | began q transactions hnodup hfresh hinsert =>
      refine ⟨fun t ht ↦ ?_, fun t ht row userId hseen ↦ ?_⟩
      · rcases (Table.mem_insert hinsert).mp ht with rfl | ht
        · exact insertsLast_opening
        · exact h.insertsLast t ht
      · rcases (Table.mem_insert hinsert).mp ht with rfl | ht
        · cases q <;> cases hseen
        · have hold := h.glimpsed t ht row userId hseen
          refine ⟨List.mem_append_right _ hold.issued, fun u hu ↦ ?_, hold.owner⟩
          rcases (Table.mem_insert hinsert).mp hu with rfl | hu
          · exact fun hrow ↦ hfresh row hrow hold.issued
          · exact hold.fresh u hu
  | took t l rest clock ht hpending hfree =>
      refine h.put ht rfl rfl ((h.insertsLast t ht).take (hs.transactions t ht).sound hpending) ?_
      intro row userId hseen
      have hnone : glimpse (t.take l (s.committed.db.lock clock l.row t.request t.phase)) = none :=
        glimpse_take
      exact absurd (hnone.symm.trans hseen) (by simp)
  | scanned t clock locks writes phase ht hpending hstatement =>
      have hsound := (hs.transactions t ht).sound
      refine h.put ht rfl rfl ((h.insertsLast t ht).scan hsound hpending hstatement) ?_
      intro row userId hseen
      have hopen := openRow_of_glimpse hstatement hseen
      refine ⟨hs.committed.issued row (isAccount_of_openRow hopen) (has_of_openRow hopen), ?_, ?_⟩
      · exact fun u hu hcreates ↦ (hs.transactions u hu).sound.absent row hcreates (has_of_openRow hopen)
      · exact fun owner howner ↦ Option.some.inj (howner.symm.trans hopen)
  | answered t clock result db' ht hpending hstatement hwrites =>
      refine ⟨fun u hu ↦ h.insertsLast u (RowTraffic.mem_leave.mp hu).1, fun u hu row userId hseen ↦ ?_⟩
      have hold := h.glimpsed u (RowTraffic.mem_leave.mp hu).1 row userId hseen
      refine ⟨hold.issued, fun v hv ↦ hold.fresh v (RowTraffic.mem_leave.mp hv).1, fun owner hafter ↦ ?_⟩
      have hsound := (hs.transactions t ht).sound
      rcases openRow_writeAll hwrites (fun w hw ↦ (hsound.licensed w hw).insertsOpen) hafter with
        ⟨hbefore, _⟩ | ⟨w, hw, rfl, hopens⟩
      · exact hold.owner owner hbefore
      · exact absurd ((hsound.licensed w hw).creates (by simp [hopens])) (hold.fresh t ht)
  | left a id =>
      refine ⟨fun u hu ↦ h.insertsLast u (RowTraffic.mem_leave.mp hu).1, fun u hu row userId hseen ↦ ?_⟩
      have hold := h.glimpsed u (RowTraffic.mem_leave.mp hu).1 row userId hseen
      exact ⟨hold.issued, fun v hv ↦ hold.fresh v (RowTraffic.mem_leave.mp hv).1, hold.owner⟩

theorem observed_idle {db : AdminDb} {issued : List AdminRow} : Observed (.idle db issued) where
  insertsLast := fun _ ht ↦ absurd ht (Table.notMem_empty _)
  glimpsed := fun _ ht ↦ absurd ht (Table.notMem_empty _)

theorem Observed.exec {as : List (RowStep AdminRequest ℤ)} (h : Observed s)
    (hs : (adminAccess idleTtl).Asserted (Invariant idleTtl D old) (Assertion D) s)
    (hvalid : (adminAccess idleTtl).system.Valid s as) :
    Observed ((adminAccess idleTtl).system.exec s as) := by
  have hboth := hvalid.invariant (I := fun s ↦ (adminAccess idleTtl).Asserted (Invariant idleTtl D old)
    (Assertion D) s ∧ Observed s) ⟨hs, h⟩ fun s a h ha ↦ ⟨stable.next h.1 ha, h.2.next h.1 ha⟩
  exact hboth.2

end Glimpses

section Withheld

/-- The user whose account a transaction that inserts a credential or a session
has read as an administrator's. A statement that locks the account looks at it
again under the lock, and has read it then. -/
def readsAdministrator (t : AdminTransaction) : Option Uuid :=
  match t.request, t.phase with
  | .completeBootstrap _ _ _ _ _ _, .bootstrapSeen row => some row.userId
  | .completeBootstrap _ _ _ _ _ _, .bootstrapTaken userId => some userId
  | .completeBootstrap _ _ _ _ _ _, .bootstrapRegistered userId => some userId
  | .completeBootstrap _ _ _ _ _ _, .decided (.opened s) => some s.userId
  | .addCredential userId _ _, .accountLocked => some userId
  | .addCredential userId _ _, .decided (.added true) => some userId
  | .completeAuthentication _ _ _ _ _ _ _, .credentialSeen row => some row.userId
  | .completeAuthentication _ _ _ _ _ _ _, .credentialLocked row => some row.userId
  | .completeAuthentication _ _ _ _ _ _ _, .credentialUsed row => some row.userId
  | .completeAuthentication _ _ _ _ _ _ _, .decided (.opened s) => some s.userId
  | _, _ => none

/-- A transaction that inserts nothing: what it has seen is closed by now, or
it has been refused. -/
structure TurnedAway (D : AdminRow → Prop) (t : AdminTransaction) : Prop where
  waits : (∃ row userId, glimpse t = some (row, userId) ∧ D row) ∨
    ∃ result, t.phase = .decided result ∧ result.grants = false
  inserts : ∀ w ∈ t.writes, w.opens = none

/-- The rows of `T` are given out and not inserted. -/
structure Withheld (idleTtl : ℤ) (D : AdminRow → Prop) (old : List AdminAnswer) (T : AdminRow → Prop)
    (c : AdminCommitted) : Prop where
  invariant : Invariant idleTtl D old c
  issued : ∀ row, T row → row ∈ c.issued
  closed : ∀ row, T row → c.db.openRow row = none
  unserved : ∀ row, T row → ∀ a ∈ c.answers, row ∉ restsOn a

variable {idleTtl : ℤ} {D T : AdminRow → Prop} {old : List AdminAnswer} {s : AdminTraffic}
  {db db' : AdminDb} {now : ℤ} {t : AdminTransaction} {l : AdminLock} {rest locks : List AdminLock}
  {writes : List AdminWrite} {phase : AdminPhase} {row : AdminRow} {userId : Uuid}
  {result : AdminOutcome}

/-- A closed row that has been seen is refused under its lock. -/
theorem lock_of_glimpse (hsound : Sound db t) (h : glimpse t = some (row, userId))
    (hclosed : db.openRow row = none) :
    db.lock now l.row t.request t.phase = (.decided .noSession, []) := by
  have hfact := hsound.fact
  unfold glimpse at h
  split at h
  · rename_i bootstrapId secretHash credentialId credential sessionId session seen hq hphase
    cases h
    rw [hq, hphase] at hfact ⊢
    simp only [AdminDb.lock, AdminDb.completeBootstrapLock]
    cases hfind : (db.bootstraps.find? bootstrapId).filter fun b ↦ b = seen || b.isOpen now secretHash with
    | none => rfl
    | some b =>
        obtain ⟨hstored, hpasses⟩ := Option.filter_eq_some_iff.mp hfind
        have hunconsumed : b.consumedAt = none := by
          rcases Bool.or_eq_true _ _ ▸ hpasses with hsame | hopen
          · rw [of_decide_eq_true hsame]
            exact hfact
          · exact unconsumed_of_isOpen_bootstrap hopen
        rw [openRow_bootstrap hstored hunconsumed] at hclosed
        cases hclosed
  · rename_i credentialId expected next deviceType backedUp sessionId session seen hq hphase
    cases h
    rw [hq, hphase]
    simp only [AdminDb.lock, AdminDb.completeAuthenticationLock]
    cases hfind : (db.credentials.find? credentialId).filter fun k ↦ k.revokedAt.isNone with
    | none => rfl
    | some k =>
        obtain ⟨hstored, hactive⟩ := Option.filter_eq_some_iff.mp hfind
        rw [openRow_credential hstored (Option.isNone_iff_eq_none.mp hactive)] at hclosed
        cases hclosed
  · cases h

/-- A transaction that waits for a row that it has seen has no statement to run. -/
theorem statement_of_glimpse (h : glimpse t = some (row, userId)) :
    db.statement now t.request t.phase = .rollback := by
  unfold glimpse at h
  split at h
  · rename_i hq hphase
    rw [hq, hphase]
    rfl
  · rename_i hq hphase
    rw [hq, hphase]
    rfl
  · cases h

theorem TurnedAway.take (h : TurnedAway D t) (hsound : Sound db t) (hpending : t.pending = l :: rest)
    (hclosed : ∀ row, D row → db.openRow row = none) :
    TurnedAway D (t.take l (db.lock now l.row t.request t.phase)) where
  waits := by
    rcases h.waits with ⟨row, userId, hseen, hrow⟩ | ⟨result, hphase, hgrants⟩
    · rw [lock_of_glimpse hsound hseen (hclosed row hrow)]
      exact Or.inr ⟨.noSession, rfl, rfl⟩
    · rw [hphase, lock_decided]
      exact Or.inr ⟨result, rfl, hgrants⟩
  inserts := fun w hw ↦ by
    rcases List.mem_append.mp hw with hw | hw
    · exact h.inserts w hw
    · exact (lock_writes (hsound.awaited l (hpending ▸ List.mem_cons_self)) hw).1.opens

theorem TurnedAway.not_scan (h : TurnedAway D t) :
    db.statement now t.request t.phase ≠ .scan locks writes phase := by
  rcases h.waits with ⟨row, userId, hseen, _⟩ | ⟨result, hphase, _⟩
  · rw [statement_of_glimpse hseen]
    exact nofun
  · rw [hphase]
    exact statement_decided

theorem TurnedAway.grants (h : TurnedAway D t)
    (hstatement : db.statement now t.request t.phase = .commit result) : result.grants = false := by
  rcases h.waits with ⟨row, userId, hseen, _⟩ | ⟨decided, hphase, hgrants⟩
  · rw [statement_of_glimpse hseen] at hstatement
    cases hstatement
  · by_contra hgranted
    have hsame := decided_of_commit hstatement (by simpa using hgranted)
    rw [hphase] at hsame
    cases hsame
    exact hgranted hgrants

/-- Every step keeps the rows of `T` out, as long as the transactions that would
insert them are refused. -/
theorem stable_withheld : (adminAccess idleTtl).Stable (Withheld idleTtl D old T)
    (fun c t ↦ Assertion D c t ∧ ((∃ row ∈ t.request.creates, T row) → TurnedAway D t)) where
  began := fun s q hI hnodup hfresh ↦ by
    have hstable : (adminAccess idleTtl).Stable (Invariant idleTtl D old) (Assertion D) := stable
    obtain ⟨hinvariant, hopening, hkeep⟩ := hstable.began s q hI.invariant hnodup hfresh
    refine ⟨?_, ⟨hopening, ?_⟩, fun t ht ↦ ⟨hkeep t ht.1, ht.2⟩⟩
    · exact ⟨hinvariant, fun row hrow ↦ List.mem_append_right _ (hI.issued row hrow), hI.closed, hI.unserved⟩
    · rintro ⟨row, hrow, hT⟩
      exact absurd (hI.issued row hT) (hfresh row hrow)
  took := fun c t l rest now hI hJ hpending ↦ by
    refine ⟨stable.took c t l rest now hI.invariant hJ.1 hpending, fun hcreates ↦ ?_⟩
    exact (hJ.2 hcreates).take hJ.1.sound hpending fun row hrow ↦ hI.invariant.ended row (Or.inl hrow)
  scanned := fun c t now locks writes phase hI hJ hpending hstatement ↦ by
    refine ⟨stable.scanned c t now locks writes phase hI.invariant hJ.1 hpending hstatement, ?_⟩
    exact fun hcreates ↦ absurd hstatement (hJ.2 hcreates).not_scan
  answered := fun c t now result db' hI hJ hpending hstatement hwrites ↦ by
    obtain ⟨hinvariant, hothers⟩ :=
      stable.answered c t now result db' hI.invariant hJ.1 hpending hstatement hwrites
    refine ⟨⟨hinvariant, hI.issued, fun row hrow ↦ ?_, fun row hrow a ha hrests ↦ ?_⟩,
      fun u hu hseparate ↦ ⟨hothers u hu.1 hseparate, hu.2⟩⟩
    · cases hafter : db'.openRow row with
      | none => exact hafter
      | some owner =>
          have hsound := hJ.1.sound
          rcases openRow_writeAll hwrites (fun w hw ↦ (hsound.licensed w hw).insertsOpen) hafter with
            ⟨hbefore, _⟩ | ⟨w, hw, rfl, hopens⟩
          · rw [hI.closed row hrow] at hbefore
            cases hbefore
          · have hcreates := (hsound.licensed w hw).creates (by simp [hopens])
            rw [(hJ.2 ⟨_, hcreates, hrow⟩).inserts w hw] at hopens
            cases hopens
    · rcases List.mem_cons.mp ha with rfl | ha
      · have hgrants := grants_of_mem_restsOn hrests
        rcases open_of_restsOn hJ.1.sound (decided_of_commit hstatement hgrants) hrests with
          ⟨owner, hopen⟩ | hcreates
        · rw [hI.closed row hrow] at hopen
          cases hopen
        · rw [(hJ.2 ⟨row, hcreates, hrow⟩).grants hstatement] at hgrants
          cases hgrants
      · exact hI.unserved row hrow a ha hrests

end Withheld

section Demoted

variable {idleTtl : ℤ} {D : AdminRow → Prop} {s : AdminTraffic} {db : AdminDb} {t : AdminTransaction}
  {row : AdminRow} {userId targetId : Uuid} {bs : List (RowStep AdminRequest ℤ)}

/-- Before its lock a registration or login has inserted nothing. -/
theorem opens_of_glimpse (hsound : Sound db t) (hlast : InsertsLast t)
    (h : glimpse t = some (row, userId)) : ∀ w ∈ t.writes, w.opens = none := by
  intro w hw
  by_contra hopens
  have hcreates := (hsound.licensed w hw).creates hopens
  have hcomes := hlast.inserted w hw
  unfold glimpse at h
  split at h
  · rename_i hq hphase
    rw [hq] at hcreates
    rw [hphase] at hcomes
    cases w with
    | insertCredential k => rcases hcomes with ⟨_, hphase⟩ | ⟨_, hphase⟩ <;> cases hphase
    | insertSession x => cases hcomes
    | insertBootstrap b => simp [AdminRequest.creates, AdminWrite.target] at hcreates
    | insertChallenge c => simp [AdminRequest.creates, AdminWrite.target] at hcreates
    | _ => exact hopens rfl
  · rename_i hq hphase
    rw [hq] at hcreates
    rw [hphase] at hcomes
    cases w with
    | insertCredential k => rcases hcomes with ⟨_, hphase⟩ | ⟨_, hphase⟩ <;> cases hphase
    | insertSession x => cases hcomes
    | insertBootstrap b => simp [AdminRequest.creates, AdminWrite.target] at hcreates
    | insertChallenge c => simp [AdminRequest.creates, AdminWrite.target] at hcreates
    | _ => exact hopens rfl
  · cases h

/-- Once a user has no open row and nobody holds the account, a transaction that
has read the account as an administrator's waits for a row of the user. -/
theorem glimpse_of_demoted (hsound : Sound db t) (hlast : InsertsLast t)
    (hnone : ∀ row, db.openRow row ≠ some (some targetId))
    (hunlocked : forUpdate (.account targetId) ∉ t.held)
    (hreads : readsAdministrator t = some targetId) : ∃ row, glimpse t = some (row, targetId) := by
  have hfact := hsound.fact
  unfold readsAdministrator at hreads
  split at hreads
  · rename_i hq hphase
    cases hreads
    exact ⟨_, by rw [glimpse, hq, hphase]⟩
  · rename_i hq hphase
    cases hreads
    rw [hq, hphase] at hfact
    exact absurd (Spends.isOpen hfact) (hnone _)
  · rename_i hq hphase
    cases hreads
    rw [hq, hphase] at hfact
    exact absurd (Spends.isOpen hfact) (hnone _)
  · rename_i hq hphase
    cases hreads
    rw [hq, hphase] at hfact
    exact absurd hfact.1.isOpen (hnone _)
  · rename_i hq hphase
    cases hreads
    rw [hq, hphase] at hfact
    exact absurd hfact.1 hunlocked
  · rename_i hq hphase
    cases hreads
    exact absurd (hlast.locked _ _ _ hq hphase) hunlocked
  · rename_i hq hphase
    cases hreads
    exact ⟨_, by rw [glimpse, hq, hphase]⟩
  · rename_i hq hphase
    cases hreads
    rw [hq, hphase] at hfact
    exact absurd hfact.1.openRow_eq (hnone _)
  · rename_i hq hphase
    cases hreads
    rw [hq, hphase] at hfact
    exact absurd hfact.1.openRow_eq (hnone _)
  · rename_i hq hphase
    cases hreads
    rw [hq, hphase] at hfact
    obtain ⟨k, hreads, _, howner, _⟩ := hfact
    exact absurd (howner ▸ hreads.openRow_eq) (hnone _)
  · cases hreads

/-- The rows that the transactions in flight would insert for a user whose
account they have read as an administrator's. -/
def Intended (s : AdminTraffic) (userId : Uuid) (row : AdminRow) : Prop :=
  ∃ t ∈ s.transactions, readsAdministrator t = some userId ∧ row ∈ t.request.creates

/-- Once a user has no open row and nobody holds the account, the rows stored
for the user and those that transactions in flight would insert are given up. -/
theorem givenUp_of_demoted
    (hs : (adminAccess idleTtl).Asserted (Invariant idleTtl (fun _ ↦ False) []) (Assertion fun _ ↦ False) s)
    (hobserved : Observed s) (hnone : ∀ row, s.committed.db.openRow row ≠ some (some targetId))
    (hunlocked : ∀ t ∈ s.transactions, forUpdate (.account targetId) ∉ t.held)
    (hvalid : (adminAccess idleTtl).system.Valid s bs) :
    GivenUp (fun row ↦ s.committed.db.Owns targetId row ∨ Intended s targetId row) s
      ((adminAccess idleTtl).system.exec s bs) := by
  let D : AdminRow → Prop := fun row ↦ s.committed.db.Owns targetId row ∨
    ∃ t ∈ s.transactions, glimpse t = some (row, targetId)
  have hglimpsed {row : AdminRow} (h : ∃ t ∈ s.transactions, glimpse t = some (row, targetId)) :
      Glimpsed s row targetId := by
    obtain ⟨t, ht, hseen⟩ := h
    exact hobserved.glimpsed t ht row targetId hseen
  have hstart : (adminAccess idleTtl).Asserted (Invariant idleTtl D s.committed.answers) (Assertion D) s := by
    refine asserted_from hs (fun row hrow ↦ ?_) (fun row hrow ↦ ?_) fun row hrow t ht hcreates ↦ ?_
    · rcases hrow with howns | hseen
      · exact hs.committed.issued row howns.has.1 howns.has.2
      · exact (hglimpsed hseen).issued
    · rcases hrow with howns | hseen
      · exact howns.openRow_eq (hnone row)
      · cases hopen : s.committed.db.openRow row with
        | none => rfl
        | some owner => exact absurd ((hglimpsed hseen).owner owner hopen ▸ hopen) (hnone row)
    · rcases hrow with howns | hseen
      · exact (hs.transactions t ht).sound.absent row hcreates howns.has.2
      · exact (hglimpsed hseen).fresh t ht hcreates
  have hwithheld : (adminAccess idleTtl).Asserted
      (Withheld idleTtl D s.committed.answers (Intended s targetId))
      (fun c t ↦ Assertion D c t ∧
        ((∃ row ∈ t.request.creates, Intended s targetId row) → TurnedAway D t)) s := by
    refine ⟨hstart.apart, ⟨hstart.committed, ?_, ?_, ?_⟩, fun t ht ↦ ⟨hstart.transactions t ht, ?_⟩⟩
    · rintro row ⟨t, ht, _, hcreates⟩
      exact hs.apart.issued t ht row hcreates
    · rintro row ⟨t, ht, _, hcreates⟩
      cases hopen : s.committed.db.openRow row with
      | none => rfl
      | some owner =>
          exact absurd (has_of_openRow hopen) ((hs.transactions t ht).sound.absent row hcreates)
    · rintro row ⟨t, ht, _, hcreates⟩
      exact ((hs.transactions t ht).fresh row hcreates).2
    · rintro ⟨row, hcreates, u, hu, hreads, hcreates'⟩
      obtain rfl : u = t := by
        by_contra hne
        have hid : u.id ≠ t.id := fun hid ↦ hne (Table.eq_of_key_eq hu ht hid)
        exact (hs.apart.separate u hu t ht hid).creates row hcreates' hcreates
      have hsound := (hs.transactions u hu).sound
      obtain ⟨seen, hseen⟩ :=
        glimpse_of_demoted hsound (hobserved.insertsLast u hu) hnone (hunlocked u hu) hreads
      exact ⟨Or.inl ⟨seen, targetId, hseen, Or.inr ⟨u, hu, hseen⟩⟩,
        opens_of_glimpse hsound (hobserved.insertsLast u hu) hseen⟩
  have hlast := (stable_withheld.exec hwithheld hvalid).committed
  refine ⟨fun row hrow ↦ ?_, ?_⟩
  · rcases hrow with howns | hintended
    · exact hlast.invariant.ended row (Or.inl (Or.inl howns))
    · exact hlast.closed row hintended
  · obtain ⟨new, hnew, hserved⟩ := hlast.invariant.served
    refine ⟨new, hnew, fun a ha row hrests hrow ↦ ?_⟩
    rcases hrow with howns | hintended
    · exact hserved a ha row hrests (Or.inl howns)
    · exact hlast.unserved row hintended a (hnew ▸ List.mem_append_left _ ha) hrests

end Demoted

end AdminAccess

end Histae.Identity
