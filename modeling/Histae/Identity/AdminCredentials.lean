import Histae.Identity.AdminInFlight

/-!
# The credentials of an administrator

What a revocation leaves, how the uses of a session follow each other from the
login that opened it, and what no run after a demotion brings back.
-/

namespace Histae.Identity

open Relational Systems

/-- A use of a session at an instant, and the limits that it leaves. -/
structure SessionUse where
  usedAt : ℤ
  idleExpiresAt : ℤ
  absoluteExpiresAt : ℤ
  deriving DecidableEq

namespace AdminDb

def HasCredential (db : AdminDb) (userId : Uuid) : Prop :=
  ∃ k ∈ db.credentials, k.userId = userId ∧ k.revokedAt = none

end AdminDb

namespace AdminAccess

/-- The opening of the session or a use of it. -/
def useOf (idleTtl : ℤ) (sessionId : Uuid) (a : AdminAnswer) : Option SessionUse :=
  match a.request, a.result with
  | .completeBootstrap _ _ _ _ _ _, .opened s =>
      if s.id = sessionId then some ⟨s.createdAt, s.idleExpiresAt, s.absoluteExpiresAt⟩ else none
  | .completeAuthentication _ _ _ _ _ _ _, .opened s =>
      if s.id = sessionId then some ⟨s.createdAt, s.idleExpiresAt, s.absoluteExpiresAt⟩ else none
  | .activeSession _, .accepted s tested stored =>
      if s.id = sessionId then some ⟨tested, stored + idleTtl, s.absoluteExpiresAt⟩ else none
  | _, _ => none

/-- Each use of a session comes before the limits that the one before it, or
the login, has left, and none moves the limit of its age. -/
def UsesLinked (uses : List SessionUse) : Prop :=
  uses.IsChain (fun newer older ↦ newer.usedAt < older.idleExpiresAt ∧
    newer.absoluteExpiresAt = older.absoluteExpiresAt) ∧ ∀ use ∈ uses, use.usedAt < use.absoluteExpiresAt

/-- The uses of a session are linked, and the limits that the last of them has
left are stored. -/
structure Used (idleTtl : ℤ) (sessionId : Uuid) (db : AdminDb) (answers : List AdminAnswer) : Prop where
  linked : UsesLinked (answers.filterMap (useOf idleTtl sessionId))
  stored : ∀ last ∈ (answers.filterMap (useOf idleTtl sessionId)).head?, ∀ s,
    db.sessions.find? sessionId = some s →
      s.idleExpiresAt ≤ last.idleExpiresAt ∧ s.absoluteExpiresAt = last.absoluteExpiresAt

section Limits

variable {idleTtl now limit : ℤ} {db db' : AdminDb} {ws : List AdminWrite} {id : Uuid} {s s' : AdminSession}

/-- A session that is stored after writes that do not use it has the limits it
was stored or inserted with. -/
theorem limits_writeAll (h : db.writeAll idleTtl ws = some db')
    (huntouched : ∀ at_, .touchSession id at_ ∉ ws) (hs : db'.sessions.find? id = some s') :
    ∃ s, (db.sessions.find? id = some s ∨ .insertSession s ∈ ws ∧ s.id = id) ∧
      s'.idleExpiresAt = s.idleExpiresAt ∧ s'.absoluteExpiresAt = s.absoluteExpiresAt := by
  induction ws generalizing db with
  | nil =>
      obtain rfl := writeAll_nil h
      exact ⟨s', Or.inl hs, rfl, rfl⟩
  | cons w ws ih =>
      obtain ⟨db₁, hwrite, hrest⟩ := writeAll_cons h
      obtain ⟨s₁, hsource, hidle, habsolute⟩ :=
        ih hrest fun at_ hw ↦ huntouched at_ (List.mem_cons_of_mem _ hw)
      rcases hsource with hs₁ | ⟨hw, hid⟩
      · rcases session_write hwrite hs₁ with rfl | ⟨s, hfind, habsolute', hkept | ⟨at_, rfl, _⟩⟩
        · exact ⟨s₁, Or.inr ⟨List.mem_cons_self, (Table.find?_eq_some_iff.mp hs₁).2⟩, hidle, habsolute⟩
        · exact ⟨s, Or.inl hfind, hidle.trans hkept, habsolute.trans habsolute'⟩
        · exact absurd List.mem_cons_self (huntouched at_)
      · exact ⟨s₁, Or.inr ⟨List.mem_cons_of_mem _ hw, hid⟩, hidle, habsolute⟩

theorem checked_of_insertSession (h : db.writeAll idleTtl ws = some db') (hw : .insertSession s ∈ ws) :
    s.checked = true := by
  induction ws generalizing db with
  | nil => exact absurd hw List.not_mem_nil
  | cons w ws ih =>
      obtain ⟨db₁, hwrite, hrest⟩ := writeAll_cons h
      rcases List.mem_cons.mp hw with rfl | hw
      · obtain ⟨hconstraints, _⟩ := exists_insert hwrite
        simp only [Bool.and_eq_true] at hconstraints
        exact hconstraints.1.2
      · exact ih hrest hw

end Limits

section Uses

variable {idleTtl now : ℤ} {D : AdminRow → Prop} {old : List AdminAnswer} {c : AdminCommitted}
  {db db' : AdminDb} {t : AdminTransaction} {result : AdminOutcome} {id : ℕ} {sessionId : Uuid}
  {use : SessionUse}

theorem session_of_useOf {a : AdminAnswer} (h : useOf idleTtl sessionId a = some use) :
    .session sessionId ∈ restsOn a := by
  obtain ⟨id, q, result⟩ := a
  unfold useOf at h
  split at h
  all_goals
    first
    | cases h
    | rename_i hq hresult
      cases hq
      cases hresult
      split at h
      · rename_i hid
        rw [← hid]
        simp [restsOn]
      · cases h

/-- What an answer that uses a session has found or inserted. -/
theorem use_fact (h : Sound db t) (hstatement : db.statement now t.request t.phase = .commit result)
    (huse : useOf idleTtl sessionId ⟨id, t.request, result⟩ = some use) :
    (t.request.creates = [] ∧ ∃ s at_, db.sessions.find? sessionId = some s ∧ s.isLive use.usedAt = true ∧
      use.absoluteExpiresAt = s.absoluteExpiresAt ∧ use.idleExpiresAt = at_ + idleTtl ∧
      .touchSession sessionId at_ ∈ t.writes) ∨
    ∃ s, t.phase = .decided (.opened s) ∧ .insertSession s ∈ t.writes ∧ s.id = sessionId ∧
      use = ⟨s.createdAt, s.idleExpiresAt, s.absoluteExpiresAt⟩ := by
  have hfact := h.fact
  unfold useOf at huse
  split at huse
  · rename_i s hq hresult
    change t.request = _ at hq
    cases hresult
    split at huse
    · rename_i hid
      cases huse
      have hphase := decided_of_commit hstatement rfl
      rw [hq, hphase] at hfact
      exact Or.inr ⟨s, hphase, hfact.2, hid, rfl⟩
    · cases huse
  · rename_i s hq hresult
    change t.request = _ at hq
    cases hresult
    split at huse
    · rename_i hid
      cases huse
      have hphase := decided_of_commit hstatement rfl
      rw [hq, hphase] at hfact
      obtain ⟨k, _, _, _, _, _, hinsert⟩ := hfact
      exact Or.inr ⟨s, hphase, hinsert, hid, rfl⟩
    · cases huse
  · rename_i tokenHash s tested stored hq hresult
    change t.request = _ at hq
    cases hresult
    split at huse
    · rename_i hid
      cases huse
      have hphase := decided_of_commit hstatement rfl
      rw [hq, hphase] at hfact
      obtain ⟨_, hfound, hlive, _, htouches⟩ := hfact
      rw [← hid, hq]
      exact Or.inl ⟨rfl, s, stored, hfound, hlive, rfl, rfl, htouches⟩
    · cases huse
  · cases huse

theorem use_of_touch (idleTtl : ℤ) (id : ℕ) {at_ : ℤ} (h : Sound db t)
    (hstatement : db.statement now t.request t.phase = .commit result)
    (hw : .touchSession sessionId at_ ∈ t.writes) :
    ∃ use, useOf idleTtl sessionId ⟨id, t.request, result⟩ = some use ∧
      use.idleExpiresAt = at_ + idleTtl := by
  obtain ⟨⟨tokenHash, hq⟩, s, tested, hphase, hid⟩ := (h.licensed _ hw).follows
  rw [hq, hphase] at hstatement
  cases hstatement
  rw [hq]
  exact ⟨⟨tested, at_ + idleTtl, s.absoluteExpiresAt⟩, if_pos hid, rfl⟩

/-- A session that the transaction inserts has not been used. -/
theorem unused_of_insert (hJ : Assertion D c t) {s : AdminSession} (hw : .insertSession s ∈ t.writes)
    (hid : s.id = sessionId) : c.answers.filterMap (useOf idleTtl sessionId) = [] := by
  rw [List.filterMap_eq_nil_iff]
  intro a ha
  by_contra hused
  obtain ⟨use, huse⟩ := Option.ne_none_iff_exists'.mp hused
  have hcreates : AdminRow.session sessionId ∈ t.request.creates :=
    hid ▸ (hJ.sound.licensed _ hw).creates fun hopens ↦ by cases hopens
  exact (hJ.fresh _ hcreates).2 a ha (session_of_useOf huse)

/-- An answer that does not use the session leaves its limits. -/
theorem Used.of_unused (h : Used idleTtl sessionId c.db c.answers) (hJ : Assertion D c t)
    (hstatement : c.db.statement now t.request t.phase = .commit result)
    (hwrites : c.db.writeAll idleTtl t.writes = some db')
    (hnone : useOf idleTtl sessionId ⟨t.id, t.request, result⟩ = none) :
    Used idleTtl sessionId db' (⟨t.id, t.request, result⟩ :: c.answers) := by
  have huses := List.filterMap_cons_none (l := c.answers) hnone
  refine ⟨huses ▸ h.linked, fun last hmem s' hs' ↦ ?_⟩
  rw [huses] at hmem
  have huntouched : ∀ at_, .touchSession sessionId at_ ∉ t.writes := fun at_ hw ↦ by
    obtain ⟨use, hsome, _⟩ := use_of_touch idleTtl t.id hJ.sound hstatement hw
    rw [hnone] at hsome
    cases hsome
  obtain ⟨s, hfind | ⟨hw, hid⟩, hidle, habsolute⟩ := limits_writeAll hwrites huntouched hs'
  · obtain ⟨hlimit, hage⟩ := h.stored last hmem s hfind
    exact ⟨hidle ▸ hlimit, habsolute.trans hage⟩
  · rw [unused_of_insert hJ hw hid] at hmem
    cases hmem

/-- The session that an answer opens is inserted with its limits. -/
theorem Used.of_opened (hJ : Assertion D c t) (hlast : InsertsLast t) {s : AdminSession}
    (hwrites : c.db.writeAll idleTtl t.writes = some db') (hphase : t.phase = .decided (.opened s))
    (hw : .insertSession s ∈ t.writes) (hid : s.id = sessionId)
    (huse : useOf idleTtl sessionId ⟨t.id, t.request, result⟩ =
      some ⟨s.createdAt, s.idleExpiresAt, s.absoluteExpiresAt⟩) :
    Used idleTtl sessionId db' (⟨t.id, t.request, result⟩ :: c.answers) := by
  have huses : (⟨t.id, t.request, result⟩ :: c.answers).filterMap (useOf idleTtl sessionId) =
      [⟨s.createdAt, s.idleExpiresAt, s.absoluteExpiresAt⟩] := by
    rw [List.filterMap_cons_some huse, unused_of_insert hJ hw hid]
  refine ⟨?_, fun last hmem s' hs' ↦ ?_⟩
  · rw [huses]
    refine ⟨List.isChain_singleton _, fun use hmem ↦ ?_⟩
    have hchecked := checked_of_insertSession hwrites hw
    simp only [AdminSession.checked, Bool.and_eq_true, decide_eq_true_eq] at hchecked
    rw [List.mem_singleton.mp hmem]
    exact hchecked.1.trans_le hchecked.2
  · rw [huses] at hmem
    cases hmem
    have huntouched : ∀ at_, .touchSession sessionId at_ ∉ t.writes := fun at_ htouch ↦ by
      obtain ⟨_, other, tested, haccepted, _⟩ := (hJ.sound.licensed _ htouch).follows
      rw [hphase] at haccepted
      cases haccepted
    obtain ⟨stored, hfind | ⟨hinsert, _⟩, hidle, habsolute⟩ := limits_writeAll hwrites huntouched hs'
    · have hcreates : AdminRow.session sessionId ∈ t.request.creates :=
        hid ▸ (hJ.sound.licensed _ hw).creates fun hopens ↦ by cases hopens
      exact absurd (Option.isSome_iff_exists.mpr ⟨stored, hfind⟩) (hJ.sound.absent _ hcreates)
    · have hsame : t.phase = .decided (.opened stored) := hlast.inserted _ hinsert
      rw [hphase] at hsame
      cases hsame
      exact ⟨hidle.le, habsolute⟩

theorem commit_uses (h : Used idleTtl sessionId c.db c.answers) (hJ : Assertion D c t)
    (hlast : InsertsLast t) (hstatement : c.db.statement now t.request t.phase = .commit result)
    (hwrites : c.db.writeAll idleTtl t.writes = some db') :
    Used idleTtl sessionId db' (⟨t.id, t.request, result⟩ :: c.answers) := by
  cases huse : useOf idleTtl sessionId ⟨t.id, t.request, result⟩ with
  | none => exact h.of_unused hJ hstatement hwrites huse
  | some use =>
      rcases use_fact hJ.sound hstatement huse with
        ⟨hcreates, s, at_, hs, hlive, habsolute, hidle, htouch⟩ | ⟨s, hphase, hw, hid, rfl⟩
      · obtain ⟨hbefore, hage⟩ := isLive_limits hlive
        have huses := List.filterMap_cons_some (l := c.answers) huse
        constructor
        · rw [huses]
          refine ⟨h.linked.1.cons fun older holder ↦ ?_, fun other hother ↦ ?_⟩
          · obtain ⟨hlimit, hsame⟩ := h.stored older holder s hs
            exact ⟨hbefore.trans_le hlimit, habsolute.trans hsame⟩
          · rcases List.mem_cons.mp hother with rfl | hother
            · exact habsolute ▸ hage
            · exact h.linked.2 other hother
        · intro last hmem s' hs'
          rw [huses] at hmem
          cases hmem
          obtain ⟨s₀, hs₀, habsolute', hidle'⟩ := session_writeAll (at_ + idleTtl) hwrites hs'
            (fun s hw _ ↦ by
              have hmem := (hJ.sound.licensed _ hw).creates fun hopens ↦ by cases hopens
              rw [hcreates] at hmem
              cases hmem)
            (fun other hw ↦ by
              obtain ⟨use', hsome, hidle'⟩ :=
                use_of_touch idleTtl t.id hJ.sound hstatement hw
              rw [huse] at hsome
              cases hsome
              exact (hidle'.symm.trans hidle).le)
          rw [hs] at hs₀
          obtain rfl := Option.some.inj hs₀
          exact ⟨hidle ▸ hidle' (Or.inr ⟨at_, htouch⟩), habsolute'.trans habsolute.symm⟩
      · exact .of_opened hJ hlast hwrites hphase hw hid huse

/-- Every step keeps the uses of every session linked. -/
theorem stable_uses : (adminAccess idleTtl).Stable
    (fun c ↦ Invariant idleTtl D old c ∧ ∀ sessionId, Used idleTtl sessionId c.db c.answers)
    (fun c t ↦ Assertion D c t ∧ InsertsLast t) where
  began := fun s q hI hnodup hfresh ↦ by
    have hstable : (adminAccess idleTtl).Stable (Invariant idleTtl D old) (Assertion D) := stable
    obtain ⟨hinvariant, hopening, hkeep⟩ := hstable.began s q hI.1 hnodup hfresh
    exact ⟨⟨hinvariant, hI.2⟩, ⟨hopening, insertsLast_opening⟩, fun t ht ↦ ⟨hkeep t ht.1, ht.2⟩⟩
  took := fun c t l rest now hI hJ hpending ↦
    ⟨stable.took c t l rest now hI.1 hJ.1 hpending, hJ.2.take hJ.1.sound hpending⟩
  scanned := fun c t now locks writes phase hI hJ hpending hstatement ↦
    ⟨stable.scanned c t now locks writes phase hI.1 hJ.1 hpending hstatement,
      hJ.2.scan hJ.1.sound hpending hstatement⟩
  answered := fun c t now result db' hI hJ hpending hstatement hwrites ↦ by
    obtain ⟨hinvariant, hothers⟩ := stable.answered c t now result db' hI.1 hJ.1 hpending hstatement hwrites
    exact ⟨⟨hinvariant, fun sessionId ↦ commit_uses (hI.2 sessionId) hJ.1 hJ.2 hstatement hwrites⟩,
      fun u hu hseparate ↦ ⟨hothers u hu.1 hseparate, hu.2⟩⟩

end Uses

section Revocations

variable {idleTtl now : ℤ} {db db' : AdminDb} {t : AdminTransaction} {result : AdminOutcome}
  {userId credentialId currentSessionId : Uuid}

/-- A revocation leaves the user a credential when there was one: it revokes
nothing, or another credential that it has locked survives it. -/
theorem hasCredential_of_revocation (h : Sound db t)
    (hq : t.request = .revokeCredential userId credentialId currentSessionId)
    (hstatement : db.statement now t.request t.phase = .commit result)
    (hwrites : db.writeAll idleTtl t.writes = some db') (hbefore : db.HasCredential userId) :
    db'.HasCredential userId := by
  have hfact := h.fact
  rw [hq] at hstatement hfact
  cases hphase : t.phase with
  | counting ids =>
      rw [hphase] at hfact
      rw [hfact.writes] at hwrites
      obtain rfl := writeAll_nil hwrites
      exact hbefore
  | revoking =>
      rw [hphase] at hfact
      obtain ⟨k, hk, _, howner, hactive⟩ := credential_of_survives h (by rw [hq]; rfl) hwrites hfact.1
      exact ⟨k, hk, howner, hactive⟩
  | _ =>
      rw [hphase] at hstatement
      cases hstatement

end Revocations

end AdminAccess

open AdminAccess

section Samples

def login : List (RowStep AdminRequest ℤ) :=
  .begin (.completeAuthentication 21 0 1 .singleDevice false 61 ⟨[1], 20, 30⟩) :: steps 0 9 1

def demotionMeanwhile : List (RowStep AdminRequest ℤ) := .begin (.setRole 2 .user 1) :: steps 1 10 15

/-- The user is an administrator again before the login has the credential. -/
def promotionMeanwhile : List (RowStep AdminRequest ℤ) :=
  .begin (.setRole 2 .admin 1) :: steps 2 11 7 ++ steps 0 12 2

def useOfLogin : List (RowStep AdminRequest ℤ) := steps 0 10 7 ++ .begin (.activeSession [1]) :: steps 1 12 2

def afterDemotion : AdminTraffic := afterSteps ((login ++ demotionMeanwhile) ++ [.advance 1 10])

end Samples

section Theorems

variable {idleTtl : ℤ} {db : AdminDb} {as bs : List (RowStep AdminRequest ℤ)}

theorem hasCredential_of_answers {s : AdminTraffic} {a : RowStep AdminRequest ℤ} {x : AdminAnswer}
    {D : AdminRow → Prop} {old : List AdminAnswer} {userId credentialId currentSessionId : Uuid}
    (hs : (adminAccess idleTtl).Asserted (Invariant idleTtl D old) (Assertion D) s)
    (ha : (adminAccess idleTtl).system.Enabled s a)
    (hanswers : ((adminAccess idleTtl).system.next s a).committed.answers = x :: s.committed.answers)
    (hrequest : x.request = .revokeCredential userId credentialId currentSessionId)
    (hbefore : s.committed.db.HasCredential userId) :
    ((adminAccess idleTtl).system.next s a).committed.db.HasCredential userId := by
  obtain ⟨t, now, db', ht, _, hstatement, hwrites, hx, hcommitted⟩ :=
    RowProtocol.commit_of_answers ha hanswers
  rw [hcommitted]
  have hq : t.request = .revokeCredential userId credentialId currentSessionId := by
    rw [hx] at hrequest
    exact hrequest
  exact hasCredential_of_revocation (hs.transactions t ht).sound hq hstatement hwrites hbefore

theorem used_exec (h : db.Guarded)
    (hvalid : (adminAccess idleTtl).system.Valid (.idle db db.rowNames) as) (sessionId : Uuid) :
    let c := ((adminAccess idleTtl).system.exec (.idle db db.rowNames) as).committed
    Used idleTtl sessionId c.db c.answers := by
  have hidle : ∀ sessionId, Used idleTtl sessionId db [] := fun sessionId ↦
    ⟨⟨List.isChain_nil, fun use huse ↦ absurd huse List.not_mem_nil⟩, fun last hlast ↦ by cases hlast⟩
  have hstart := RowProtocol.asserted_idle (P := adminAccess idleTtl)
    (I := fun c ↦ Invariant idleTtl (fun _ ↦ False) [] c ∧ ∀ sessionId, Used idleTtl sessionId c.db c.answers)
    (J := fun c t ↦ Assertion (fun _ ↦ False) c t ∧ InsertsLast t)
    ⟨(asserted_rowNames h).committed, hidle⟩
  exact (stable_uses.exec hstart hvalid).committed.2 sessionId

/-- What the WebAuthn library verifies of every login: the counter to store is
not below the expected one. -/
def Verified (logins : List (UInt32 × UInt32)) : Prop := ∀ p ∈ logins, p.1 ≤ p.2

/-- No credential is lost to a revocation, brought back or used twice. -/
theorem credentials_never_lost_or_revived (h : db.Guarded) {a : RowStep AdminRequest ℤ}
    (hvalid : (adminAccess idleTtl).system.Valid (.idle db db.rowNames) (as ++ a :: bs)) :
    let s := (adminAccess idleTtl).system.exec (.idle db db.rowNames) as
    let s₁ := (adminAccess idleTtl).system.exec (.idle db db.rowNames) (as ++ [a])
    let s₂ := (adminAccess idleTtl).system.exec s₁ bs
    (∀ x userId credentialId currentSessionId, s₁.committed.answers = x :: s.committed.answers →
      x.request = .revokeCredential userId credentialId currentSessionId →
        s.committed.db.HasCredential userId → s₁.committed.db.HasCredential userId) ∧
      GivenUp s₁.committed.db.Ended s₁ s₂ ∧ (s₂.committed.answers.filterMap usesUp).Nodup ∧
      (∀ credentialId, Verified (s₂.committed.answers.filterMap (loginOf credentialId)) →
        (s₂.committed.answers.filterMap (loginOf credentialId)).Pairwise fun newer older ↦
          newer.1 = older.1 → ¬ older.1 < older.2) ∧
      (∀ sessionId, UsesLinked (s₂.committed.answers.filterMap (useOf idleTtl sessionId))) ∧
      ∀ x targetId actorId, s₁.committed.answers = x :: s.committed.answers →
        x.request = .setRole targetId .user actorId → x.result = .role .updated →
          GivenUp (fun row ↦ s₁.committed.db.Owns targetId row ∨ Intended s₁ targetId row) s₁ s₂ := by
  intro s s₁ s₂
  have hsplit : (adminAccess idleTtl).system.Valid (.idle db db.rowNames) ((as ++ [a]) ++ bs) := by
    rw [List.append_assoc]
    exact hvalid
  obtain ⟨hcommit, hafter⟩ := System.valid_append.mp hsplit
  obtain ⟨hbefore, henabled, _⟩ := System.valid_append.mp hcommit
  have hs := asserted_exec h hbefore
  have hs₁ : (adminAccess idleTtl).Asserted (Invariant idleTtl (fun _ ↦ False) [])
      (Assertion fun _ ↦ False) s₁ := asserted_exec h hcommit
  have hs₂ := (stable.exec hs₁ hafter).committed
  have hstep : s₁ = (adminAccess idleTtl).system.next s a := System.exec_concat a
  refine ⟨fun x userId credentialId currentSessionId hanswers hrequest hcredential ↦ ?_, ?_, hs₂.spent,
    fun credentialId hverified ↦ ?_, fun sessionId ↦ ?_, fun x targetId actorId hanswers hrequest hresult ↦ ?_⟩
  · rw [hstep] at hanswers ⊢
    exact hasCredential_of_answers hs henabled hanswers hrequest hcredential
  · exact givenUp_of_closed hs₁ (fun _ hrow ↦ hrow.has) (fun _ hrow ↦ hrow.openRow_eq) hafter
  · refine (ordered_of_linked (hs₂.logins credentialId).1 hverified).imp fun hle hsame ↦ ?_
    rw [← hsame]
    exact UInt32.not_lt.mpr hle
  · have hused := used_exec h hsplit sessionId
    rw [System.exec_append] at hused
    exact hused.linked
  · have hobserved : Observed s₁ := observed_idle.exec (asserted_rowNames h) hcommit
    rw [hstep] at hanswers
    obtain ⟨hnone, hunlocked⟩ := demoted_of_answers hs henabled hanswers hrequest hresult
    exact givenUp_of_demoted hs₁ hobserved (hstep ▸ hnone) (hstep ▸ hunlocked) hafter

/-- A login that waits for the credential during the demotion is refused after
the promotion; another one opens a session, which is used. -/
theorem credentials_never_lost_or_revived_login :
    GivenUp (fun row ↦ afterDemotion.committed.db.Owns 2 row ∨ Intended afterDemotion 2 row) afterDemotion
        ((adminAccess 8).system.exec afterDemotion promotionMeanwhile) ∧
      Intended afterDemotion 2 (.session 61) ∧
      UsesLinked ((afterSteps (login ++ useOfLogin ++ [.advance 1 12])).committed.answers.filterMap (useOf 8 61)) ∧
      (afterSteps (login ++ useOfLogin ++ [.advance 1 12])).committed.answers.filterMap (useOf 8 61) =
        [⟨12, 20, 30⟩, ⟨10, 20, 30⟩] := by
  have hdemotion : (adminAccess 8).system.Valid (.idle twoCredentials twoCredentials.rowNames)
      ((login ++ demotionMeanwhile) ++ .advance 1 10 :: promotionMeanwhile) := by decide +kernel
  have hanswers : afterDemotion.committed.answers =
      ⟨1, .setRole 2 .user 1, .role .updated⟩ ::
        (afterSteps (login ++ demotionMeanwhile)).committed.answers := by decide +kernel
  have huse : (adminAccess 8).system.Valid (.idle twoCredentials twoCredentials.rowNames)
      ((login ++ useOfLogin) ++ .advance 1 12 :: []) := by decide +kernel
  obtain ⟨_, _, _, _, _, hdemoted⟩ := credentials_never_lost_or_revived guarded_twoCredentials hdemotion
  obtain ⟨_, _, _, _, hlinked, _⟩ := credentials_never_lost_or_revived guarded_twoCredentials huse
  refine ⟨hdemoted _ 2 1 hanswers rfl rfl, ?_, hlinked 61, by decide +kernel⟩
  refine ⟨⟨0, .completeAuthentication 21 0 1 .singleDevice false 61 ⟨[1], 20, 30⟩,
    .credentialSeen ((sampleCredential 'a').row 21 2), [forUpdate (.credential 21)], [], []⟩, ?_, rfl, ?_⟩
  · exact Table.mem_rows.mp (by decide +kernel)
  · exact List.mem_singleton_self _

end Theorems

end Histae.Identity
