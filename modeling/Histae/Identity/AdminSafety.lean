import Histae.Identity.AdminRuns

/-!
# What administrators can rely on

The runs start from tables in which no plain user has access. Whatever
transactions interleave, they lead to such tables again; what has been ended
stays ended; and the last credential of a user is never revoked by a request.
-/

namespace Histae.Identity

open Relational Systems

namespace AdminDb

/-- No open credential, session or bootstrap belongs to a plain user. -/
structure Guarded (db : AdminDb) : Prop where
  credentials : ∀ k ∈ db.credentials, k.revokedAt = none → db.roleOf k.userId ≠ some .user
  sessions : ∀ s ∈ db.sessions, s.revokedAt = none → db.roleOf s.userId ≠ some .user
  bootstraps : ∀ b ∈ db.bootstraps, b.consumedAt = none → db.roleOf b.userId ≠ some .user

/-- The rows that are stored. -/
def rowNames (db : AdminDb) : List AdminRow :=
  db.credentials.rows.map (fun k ↦ .credential k.id) ++ db.sessions.rows.map (fun s ↦ .session s.id) ++
    db.bootstraps.rows.map (fun b ↦ .bootstrap b.id) ++ db.challenges.rows.map fun c ↦ .challenge c.id

/-- The row is stored and belongs to the user. -/
def Owns (db : AdminDb) (userId : Uuid) : AdminRow → Prop
  | .account _ => False
  | .credential id => ∃ k ∈ db.credentials, k.id = id ∧ k.userId = userId
  | .session id => ∃ s ∈ db.sessions, s.id = id ∧ s.userId = userId
  | .bootstrap id => ∃ b ∈ db.bootstraps, b.id = id ∧ b.userId = userId
  | .challenge id => ∃ c ∈ db.challenges, c.id = id ∧ c.userId = some userId

/-- The row is stored and has been ended. -/
def Ended (db : AdminDb) : AdminRow → Prop
  | .account _ => False
  | .credential id => ∃ k ∈ db.credentials, k.id = id ∧ k.revokedAt ≠ none
  | .session id => ∃ s ∈ db.sessions, s.id = id ∧ s.revokedAt ≠ none
  | .bootstrap id => ∃ b ∈ db.bootstraps, b.id = id ∧ b.consumedAt ≠ none
  | .challenge id => ∃ c ∈ db.challenges, c.id = id ∧ c.consumedAt ≠ none

section Tables

variable {db : AdminDb} {row : AdminRow} {userId : Uuid}

theorem guarded_iff : db.Guarded ↔ ∀ userId row, db.roleOf userId = some .user →
    row.isChallenge = false → db.openRow row ≠ some (some userId) := by
  constructor
  · intro h userId row hrole hkind hopen
    cases row with
    | account other => cases hopen
    | challenge id => cases hkind
    | credential id =>
        obtain ⟨k, hk, howner⟩ := Option.map_eq_some_iff.mp hopen
        obtain ⟨hfind, hactive⟩ := Option.filter_eq_some_iff.mp hk
        obtain rfl := Option.some.inj howner
        exact h.credentials k (Table.find?_eq_some_iff.mp hfind).1
          (Option.isNone_iff_eq_none.mp hactive) hrole
    | session id =>
        obtain ⟨s, hs, howner⟩ := Option.map_eq_some_iff.mp hopen
        obtain ⟨hfind, hactive⟩ := Option.filter_eq_some_iff.mp hs
        obtain rfl := Option.some.inj howner
        exact h.sessions s (Table.find?_eq_some_iff.mp hfind).1
          (Option.isNone_iff_eq_none.mp hactive) hrole
    | bootstrap id =>
        obtain ⟨b, hb, howner⟩ := Option.map_eq_some_iff.mp hopen
        obtain ⟨hfind, hactive⟩ := Option.filter_eq_some_iff.mp hb
        obtain rfl := Option.some.inj howner
        exact h.bootstraps b (Table.find?_eq_some_iff.mp hfind).1
          (Option.isNone_iff_eq_none.mp hactive) hrole
  · intro h
    refine ⟨fun k hk hactive hrole ↦ ?_, fun s hs hactive hrole ↦ ?_, fun b hb hactive hrole ↦ ?_⟩
    · exact h k.userId (.credential k.id) hrole rfl
        (AdminAccess.openRow_credential (Table.find?_key hk) hactive)
    · exact h s.userId (.session s.id) hrole rfl
        (AdminAccess.openRow_session (Table.find?_key hs) hactive)
    · exact h b.userId (.bootstrap b.id) hrole rfl
        (AdminAccess.openRow_bootstrap (Table.find?_key hb) hactive)

theorem mem_rowNames (haccount : row.isAccount = false) (h : db.Has row) : row ∈ db.rowNames := by
  unfold rowNames
  cases row with
  | account other => cases haccount
  | credential id =>
      obtain ⟨k, hfind⟩ := Option.isSome_iff_exists.mp h
      obtain ⟨hk, rfl⟩ := Table.find?_eq_some_iff.mp hfind
      have hmem : AdminRow.credential k.id ∈ db.credentials.rows.map fun k ↦ .credential k.id :=
        List.mem_map.mpr ⟨k, hk, rfl⟩
      simp only [List.mem_append, hmem, true_or]
  | session id =>
      obtain ⟨s, hfind⟩ := Option.isSome_iff_exists.mp h
      obtain ⟨hs, rfl⟩ := Table.find?_eq_some_iff.mp hfind
      have hmem : AdminRow.session s.id ∈ db.sessions.rows.map fun s ↦ .session s.id :=
        List.mem_map.mpr ⟨s, hs, rfl⟩
      simp only [List.mem_append, hmem, true_or, or_true]
  | bootstrap id =>
      obtain ⟨b, hfind⟩ := Option.isSome_iff_exists.mp h
      obtain ⟨hb, rfl⟩ := Table.find?_eq_some_iff.mp hfind
      have hmem : AdminRow.bootstrap b.id ∈ db.bootstraps.rows.map fun b ↦ .bootstrap b.id :=
        List.mem_map.mpr ⟨b, hb, rfl⟩
      simp only [List.mem_append, hmem, true_or, or_true]
  | challenge id =>
      obtain ⟨c, hfind⟩ := Option.isSome_iff_exists.mp h
      obtain ⟨hc, rfl⟩ := Table.find?_eq_some_iff.mp hfind
      have hmem : AdminRow.challenge c.id ∈ db.challenges.rows.map fun c ↦ .challenge c.id :=
        List.mem_map.mpr ⟨c, hc, rfl⟩
      simp only [List.mem_append, hmem, or_true]

theorem Owns.has (h : db.Owns userId row) : row.isAccount = false ∧ db.Has row := by
  cases row with
  | account other => exact h.elim
  | _ =>
      obtain ⟨r, hr, rfl, _⟩ := h
      exact ⟨rfl, Option.isSome_iff_exists.mpr ⟨r, Table.find?_key hr⟩⟩

theorem Ended.has (h : db.Ended row) : row.isAccount = false ∧ db.Has row := by
  cases row with
  | account other => exact h.elim
  | _ =>
      obtain ⟨r, hr, rfl, _⟩ := h
      exact ⟨rfl, Option.isSome_iff_exists.mpr ⟨r, Table.find?_key hr⟩⟩

theorem filter_eq_none_of_not {ρ : Type} {o : Option ρ} {r : ρ} {p : ρ → Bool} (h : o = some r)
    (hp : ¬ p r = true) : o.filter p = none := by
  rw [h, Option.filter_some, if_neg hp]

theorem Ended.openRow_eq (h : db.Ended row) : db.openRow row = none := by
  cases row with
  | account other => exact h.elim
  | _ =>
      obtain ⟨r, hr, rfl, hended⟩ := h
      refine congrArg (Option.map _) (filter_eq_none_of_not (Table.find?_key hr) ?_)
      rw [Option.isNone_iff_eq_none]
      exact hended

/-- An open row of another owner does not belong to the user. -/
theorem Owns.openRow_eq (h : db.Owns userId row) (hopen : db.openRow row ≠ some (some userId)) :
    db.openRow row = none := by
  cases hrow : db.openRow row with
  | none => rfl
  | some owner =>
      cases row with
      | account other => cases hrow
      | _ =>
          obtain ⟨r, hr, rfl, howner⟩ := h
          obtain ⟨r', hr', heq⟩ := Option.map_eq_some_iff.mp hrow
          obtain ⟨hfind, _⟩ := Option.filter_eq_some_iff.mp hr'
          rw [Table.find?_key hr] at hfind
          obtain rfl := Option.some.inj hfind
          rw [hrow, ← heq, howner] at hopen
          exact absurd rfl hopen

end Tables

end AdminDb

open AdminAccess

section Samples

def administrators : Table UserAccount.userId :=
  ⟨[⟨1, .superadmin, .keyed ['1'], false, none, false⟩, ⟨2, .admin, .keyed ['2'], false, none, false⟩],
    by decide⟩

def sampleCredential (name : Char) : NewCredential := ⟨[name], [], 0, .singleDevice, false, [], none, [name]⟩

def sampleSession : AdminSession := NewSession.row 5 ⟨[9], 20, 30⟩ 31 2 21

def twoCredentials : AdminDb where
  accounts := administrators
  credentials := ⟨[(sampleCredential 'a').row 21 2, (sampleCredential 'b').row 22 2], by decide⟩
  sessions := ⟨[sampleSession], by decide⟩
  bootstraps := ⟨[⟨41, 2, [7], 30, none⟩], by decide⟩
  challenges := ⟨[NewChallenge.row ⟨.authentication, [8], [], some 2, none, 30⟩ 51], by decide⟩

theorem guarded_twoCredentials : twoCredentials.Guarded where
  credentials := by decide
  sessions := by decide
  bootstraps := by decide

/-- Steps of one transaction at one instant. -/
def steps (id : ℕ) (clock : ℤ) (count : ℕ) : List (RowStep AdminRequest ℤ) :=
  List.replicate count (.advance id clock)

def demotion : List (RowStep AdminRequest ℤ) := .begin (.setRole 2 .user 1) :: steps 0 10 15

def laterUse : List (RowStep AdminRequest ℤ) := .begin (.activeSession [9]) :: steps 1 12 1

def revocation : List (RowStep AdminRequest ℤ) := .begin (.revokeCredential 2 21 31) :: steps 0 10 6

def twoConsumptions : List (RowStep AdminRequest ℤ) :=
  .begin (.consumeChallenge 51 .authentication (some 2) none) :: steps 0 10 3 ++
    .begin (.consumeChallenge 51 .authentication (some 2) none) :: steps 1 11 1

def twoLogins : List (RowStep AdminRequest ℤ) :=
  .begin (.completeAuthentication 21 0 1 .singleDevice false 61 ⟨[1], 20, 30⟩) :: steps 0 10 8 ++
    .begin (.completeAuthentication 21 1 3 .singleDevice false 62 ⟨[2], 20, 30⟩) :: steps 1 11 8

def twoUses : List (RowStep AdminRequest ℤ) :=
  .begin (.activeSession [9]) :: steps 0 12 3 ++ .begin (.activeSession [9]) :: steps 1 18 3

/-- What the sample run leads to. -/
def afterSteps (as : List (RowStep AdminRequest ℤ)) : AdminTraffic :=
  (adminAccess 8).system.exec (.idle twoCredentials twoCredentials.rowNames) as

end Samples

section Theorems

variable {idleTtl : ℤ} {db : AdminDb} {as bs : List (RowStep AdminRequest ℤ)}

theorem asserted_rowNames (h : db.Guarded) :
    (adminAccess idleTtl).Asserted (Invariant idleTtl (fun _ ↦ False) []) (Assertion fun _ ↦ False)
      (.idle db db.rowNames) := by
  refine RowProtocol.asserted_idle ?_
  refine ⟨fun row haccount hhas ↦ AdminDb.mem_rowNames haccount hhas, AdminDb.guarded_iff.mp h, ?_,
    List.nodup_nil, ?_, ?_, ?_, ⟨[], rfl, fun a ha ↦ absurd ha List.not_mem_nil⟩⟩
  · rintro row (hfalse | hmem)
    · exact hfalse.elim
    · exact absurd hmem List.not_mem_nil
  · exact fun credentialId ↦ ⟨List.isChain_nil, fun last hlast ↦ by cases hlast⟩
  · exact fun sessionId ↦ ⟨List.isChain_nil, fun use huse ↦ absurd huse List.not_mem_nil,
      fun last hlast ↦ by cases hlast⟩
  · rintro row (hfalse | ⟨a, ha, _⟩)
    · exact hfalse.elim
    · exact absurd ha List.not_mem_nil

theorem asserted_exec (h : db.Guarded)
    (hvalid : (adminAccess idleTtl).system.Valid (.idle db db.rowNames) as) :
    (adminAccess idleTtl).Asserted (Invariant idleTtl (fun _ ↦ False) []) (Assertion fun _ ↦ False)
      ((adminAccess idleTtl).system.exec (.idle db db.rowNames) as) :=
  stable.exec (asserted_rowNames h) hvalid

/-- From any state that a run has reached, rows that are closed there and that
nobody is going to insert stay closed, and no later answer rests on one of
them. -/
theorem asserted_from {s : AdminTraffic} {D : AdminRow → Prop}
    (h : (adminAccess idleTtl).Asserted (Invariant idleTtl (fun _ ↦ False) []) (Assertion fun _ ↦ False) s)
    (hissued : ∀ row, D row → row ∈ s.committed.issued)
    (hclosed : ∀ row, D row → s.committed.db.openRow row = none)
    (hfresh : ∀ row, D row → ∀ t ∈ s.transactions, row ∉ t.request.creates) :
    (adminAccess idleTtl).Asserted (Invariant idleTtl D s.committed.answers) (Assertion D) s where
  apart := h.apart
  committed :=
    { h.committed with
      ended := fun row hrow ↦ by
        rcases hrow with hrow | hrow
        · exact hclosed row hrow
        · exact h.committed.ended row (Or.inr hrow)
      known := fun row hrow ↦ by
        rcases hrow with hrow | hrow
        · exact hissued row hrow
        · exact h.committed.known row (Or.inr hrow)
      served := ⟨[], rfl, fun a ha ↦ absurd ha List.not_mem_nil⟩ }
  transactions := fun t ht ↦
    { h.transactions t ht with
      fresh := fun row hrow ↦ ⟨fun hrow' ↦ hfresh row hrow' t ht hrow,
        ((h.transactions t ht).fresh row hrow).2⟩ }

/-- From `s` to `s'` the rows of `T` are given up: none is open in the end, and
no answer rests on one. -/
def GivenUp (T : AdminRow → Prop) (s s' : AdminTraffic) : Prop :=
  (∀ row, T row → s'.committed.db.openRow row = none) ∧
    ∃ new, s'.committed.answers = new ++ s.committed.answers ∧ ∀ a ∈ new, ∀ row ∈ restsOn a, ¬ T row

theorem givenUp_of_closed {s : AdminTraffic} {T : AdminRow → Prop}
    (h : (adminAccess idleTtl).Asserted (Invariant idleTtl (fun _ ↦ False) []) (Assertion fun _ ↦ False) s)
    (hhas : ∀ row, T row → row.isAccount = false ∧ s.committed.db.Has row)
    (hclosed : ∀ row, T row → s.committed.db.openRow row = none)
    (hvalid : (adminAccess idleTtl).system.Valid s bs) :
    GivenUp T s ((adminAccess idleTtl).system.exec s bs) := by
  have hfrom := asserted_from h (fun row hrow ↦ h.committed.issued row (hhas row hrow).1 (hhas row hrow).2)
    hclosed fun row hrow t ht hcreates ↦ (h.transactions t ht).sound.absent row hcreates (hhas row hrow).2
  have hlast := (stable.exec hfrom hvalid).committed
  exact ⟨fun row hrow ↦ hlast.ended row (Or.inl hrow), hlast.served⟩

theorem plain_users_have_no_access (h : db.Guarded)
    (hvalid : (adminAccess idleTtl).system.Valid (.idle db db.rowNames) as) :
    ((adminAccess idleTtl).system.exec (.idle db db.rowNames) as).committed.db.Guarded :=
  AdminDb.guarded_iff.mpr (asserted_exec h hvalid).committed.users

theorem plain_users_have_no_access_demotion : (afterSteps (demotion ++ [.advance 0 10])).committed.db.Guarded :=
  plain_users_have_no_access guarded_twoCredentials (by decide +kernel)

theorem ended_rows_stay_ended (h : db.Guarded)
    (hvalid : (adminAccess idleTtl).system.Valid (.idle db db.rowNames) (as ++ bs)) :
    let s₁ := (adminAccess idleTtl).system.exec (.idle db db.rowNames) as
    let s₂ := (adminAccess idleTtl).system.exec s₁ bs
    (∀ row, s₁.committed.db.Ended row → s₂.committed.db.openRow row = none) ∧
      ∃ new, s₂.committed.answers = new ++ s₁.committed.answers ∧
        ∀ a ∈ new, ∀ row ∈ restsOn a, ¬ s₁.committed.db.Ended row := by
  intro s₁ s₂
  obtain ⟨hbefore, hafter⟩ := System.valid_append.mp hvalid
  exact givenUp_of_closed (asserted_exec h hbefore) (fun _ hrow ↦ hrow.has) (fun _ hrow ↦ hrow.openRow_eq)
    hafter

theorem ended_rows_stay_ended_session :
    (afterSteps ((demotion ++ [.advance 0 10]) ++ laterUse)).committed.db.openRow (.session 31) = none := by
  have hvalid : (adminAccess 8).system.Valid (.idle twoCredentials twoCredentials.rowNames)
      ((demotion ++ [.advance 0 10]) ++ laterUse) := by decide +kernel
  have hended : (afterSteps (demotion ++ [.advance 0 10])).committed.db.Ended (.session 31) :=
    ⟨sampleSession.revoke 10, Table.mem_rows.mp (by decide +kernel), rfl, by decide⟩
  have hfinal := (ended_rows_stay_ended guarded_twoCredentials hvalid).1 (.session 31) hended
  rw [← System.exec_append] at hfinal
  exact hfinal

theorem revoking_of_revoked {db : AdminDb} {now : ℤ} {userId credentialId currentSessionId : Uuid}
    {phase : AdminPhase}
    (h : db.revokeCredentialStatement now userId credentialId currentSessionId phase =
      .commit (.revocation .revoked)) : phase = .revoking := by
  cases phase with
  | counting ids =>
      simp only [AdminDb.revokeCredentialStatement] at h
      split at h
      · cases h
      · split at h <;> cases h
  | revoking => rfl
  | _ => cases h

/-- No login expects less than a login before it has stored. -/
theorem ordered_of_linked {logins : List (UInt32 × UInt32)}
    (h : logins.IsChain fun newer older ↦ newer.1 = older.2) (hle : ∀ p ∈ logins, p.1 ≤ p.2) :
    logins.Pairwise fun newer older ↦ older.2 ≤ newer.1 := by
  induction logins with
  | nil => exact List.Pairwise.nil
  | cons p rest ih =>
      rw [List.isChain_cons] at h
      have hrest := ih h.2 fun q hq ↦ hle q (List.mem_cons_of_mem _ hq)
      refine List.pairwise_cons.mpr ⟨fun older hmem ↦ ?_, hrest⟩
      cases rest with
      | nil => exact absurd hmem List.not_mem_nil
      | cons last rest =>
          rw [h.1 last rfl]
          rcases List.mem_cons.mp hmem with rfl | hmem
          · exact UInt32.le_refl _
          · have horder := (List.pairwise_cons.mp hrest).1 older hmem
            have hgrow := hle last (List.mem_cons_of_mem _ List.mem_cons_self)
            exact UInt32.le_trans horder hgrow

/-- Counters that grow at each login never come back. -/
theorem pairwise_of_linked {logins : List (UInt32 × UInt32)}
    (h : logins.IsChain fun newer older ↦ newer.1 = older.2) (hgrow : ∀ p ∈ logins, p.1 < p.2) :
    logins.Pairwise fun newer older ↦ older.1 < newer.1 := by
  have hordered := ordered_of_linked h fun p hp ↦ UInt32.le_of_lt (hgrow p hp)
  exact hordered.imp_of_mem fun _ holder hle ↦ UInt32.lt_of_lt_of_le (hgrow _ holder) hle

/-- A demotion that has been answered leaves the user without access for good:
no row of the user that is stored then is open afterwards, and no later answer
rests on one. -/
theorem demotion_is_final (h : db.Guarded) {id : ℕ} {clock : ℤ} {x : AdminAnswer}
    {targetId actorId : Uuid}
    (hvalid : (adminAccess idleTtl).system.Valid (.idle db db.rowNames) (as ++ .advance id clock :: bs))
    (hrequest : x.request = .setRole targetId .user actorId) (hresult : x.result = .role .updated)
    (hanswers :
      ((adminAccess idleTtl).system.exec (.idle db db.rowNames)
        (as ++ [.advance id clock])).committed.answers =
      x :: ((adminAccess idleTtl).system.exec (.idle db db.rowNames) as).committed.answers) :
    let s₁ := (adminAccess idleTtl).system.exec (.idle db db.rowNames) (as ++ [.advance id clock])
    let s₂ := (adminAccess idleTtl).system.exec s₁ bs
    (∀ row, s₁.committed.db.Owns targetId row → s₂.committed.db.openRow row = none) ∧
      ∃ new, s₂.committed.answers = new ++ s₁.committed.answers ∧
        ∀ a ∈ new, ∀ row ∈ restsOn a, ¬ s₁.committed.db.Owns targetId row := by
  intro s₁ s₂
  have hsplit : (adminAccess idleTtl).system.Valid (.idle db db.rowNames)
      ((as ++ [.advance id clock]) ++ bs) := by
    rw [List.append_assoc]
    exact hvalid
  obtain ⟨hcommit, hafter⟩ := System.valid_append.mp hsplit
  obtain ⟨hbefore, henabled, _⟩ := System.valid_append.mp hcommit
  rw [System.exec_concat] at hanswers
  obtain ⟨hnone, _⟩ := demoted_of_answers (asserted_exec h hbefore) henabled hanswers hrequest hresult
  have hstep : s₁ = (adminAccess idleTtl).system.next
      ((adminAccess idleTtl).system.exec (.idle db db.rowNames) as) (.advance id clock) :=
    System.exec_concat _
  rw [← hstep] at hnone
  exact givenUp_of_closed (asserted_exec h hcommit) (fun _ howns ↦ howns.has)
    (fun row howns ↦ howns.openRow_eq (hnone row)) hafter

theorem demotion_is_final_session :
    (afterSteps ((demotion ++ [.advance 0 10]) ++ laterUse)).committed.db.openRow (.session 31) = none := by
  have hvalid : (adminAccess 8).system.Valid (.idle twoCredentials twoCredentials.rowNames)
      (demotion ++ .advance 0 10 :: laterUse) := by decide +kernel
  have hanswers : (afterSteps (demotion ++ [.advance 0 10])).committed.answers =
      ⟨0, .setRole 2 .user 1, .role .updated⟩ :: (afterSteps demotion).committed.answers := by
    decide +kernel
  have howns : (afterSteps (demotion ++ [.advance 0 10])).committed.db.Owns 2 (.session 31) :=
    ⟨sampleSession.revoke 10, Table.mem_rows.mp (by decide +kernel), rfl, rfl⟩
  have hfinal := (demotion_is_final guarded_twoCredentials hvalid rfl rfl hanswers).1 (.session 31) howns
  rw [← System.exec_append] at hfinal
  exact hfinal

theorem revocation_leaves_a_credential (h : db.Guarded) {id : ℕ} {clock : ℤ} {x : AdminAnswer}
    {userId credentialId currentSessionId : Uuid}
    (hvalid : (adminAccess idleTtl).system.Valid (.idle db db.rowNames) (as ++ [.advance id clock]))
    (hrequest : x.request = .revokeCredential userId credentialId currentSessionId)
    (hresult : x.result = .revocation .revoked)
    (hanswers :
      ((adminAccess idleTtl).system.exec (.idle db db.rowNames)
        (as ++ [.advance id clock])).committed.answers =
      x :: ((adminAccess idleTtl).system.exec (.idle db db.rowNames) as).committed.answers) :
    let s₁ := (adminAccess idleTtl).system.exec (.idle db db.rowNames) (as ++ [.advance id clock])
    (∃ k ∈ s₁.committed.db.credentials, k.id ≠ credentialId ∧ k.userId = userId ∧ k.revokedAt = none) ∧
      ∀ k ∈ s₁.committed.db.credentials, k.id = credentialId → k.revokedAt ≠ none := by
  intro s₁
  obtain ⟨hbefore, henabled, _⟩ := System.valid_append.mp hvalid
  have hreached := asserted_exec h hbefore
  rw [System.exec_concat] at hanswers
  obtain ⟨t, now, db', ht, hpending, hstatement, hwrites, hx, hcommitted⟩ :=
    RowProtocol.commit_of_answers henabled hanswers
  have hsound := (hreached.transactions t ht).sound
  have hq : t.request = .revokeCredential userId credentialId currentSessionId := by
    rw [hx] at hrequest
    exact hrequest
  have hdb : s₁.committed.db = db' := by
    change ((adminAccess idleTtl).system.exec _ _).committed.db = db'
    rw [System.exec_concat, hcommitted]
    rfl
  have hfact := hsound.fact
  rw [hresult, hq] at hstatement
  rw [hq, revoking_of_revoked hstatement] at hfact
  obtain ⟨hsurvives, w, hw, htarget, hends⟩ := hfact
  have hcreates : t.request.creates = [] := by rw [hq]; rfl
  rw [hdb]
  constructor
  · exact credential_of_survives hsound hcreates hwrites hsurvives
  · rintro k hk rfl hactive
    have hafter := openRow_credential (Table.find?_key hk) hactive
    rcases openRow_writeAll hwrites (fun v hv ↦ (hsound.licensed v hv).insertsOpen) hafter with
      ⟨_, hkept⟩ | ⟨v, hv, _, hopens⟩
    · rw [hkept w hw htarget] at hends
      cases hends
    · rw [opens_of_creates hsound hcreates v hv] at hopens
      cases hopens

theorem revocation_leaves_a_credential_second :
    ∃ k ∈ (afterSteps (revocation ++ [.advance 0 10])).committed.db.credentials,
      k.id ≠ 21 ∧ k.userId = 2 ∧ k.revokedAt = none := by
  have hanswers : (afterSteps (revocation ++ [.advance 0 10])).committed.answers =
      ⟨0, .revokeCredential 2 21 31, .revocation .revoked⟩ :: (afterSteps revocation).committed.answers := by
    decide +kernel
  exact (revocation_leaves_a_credential guarded_twoCredentials (by decide +kernel) rfl rfl hanswers).1

/-- A challenge is consumed by one answer at most, and a bootstrap opens one
session at most. -/
theorem used_up_once (h : db.Guarded)
    (hvalid : (adminAccess idleTtl).system.Valid (.idle db db.rowNames) as) :
    (((adminAccess idleTtl).system.exec (.idle db db.rowNames) as).committed.answers.filterMap
      usesUp).Nodup := (asserted_exec h hvalid).committed.spent

theorem used_up_once_challenge : ((afterSteps twoConsumptions).committed.answers.filterMap usesUp).Nodup ∧
    (afterSteps twoConsumptions).committed.answers.length = 2 :=
  ⟨used_up_once guarded_twoCredentials (by decide +kernel), by decide +kernel⟩

theorem logins_are_linked (h : db.Guarded)
    (hvalid : (adminAccess idleTtl).system.Valid (.idle db db.rowNames) as) (credentialId : Uuid) :
    let c := ((adminAccess idleTtl).system.exec (.idle db db.rowNames) as).committed
    let logins := c.answers.filterMap (loginOf credentialId)
    LoginsLinked c.db credentialId logins ∧
      ((∀ p ∈ logins, p.1 < p.2) → logins.Pairwise fun newer older ↦ older.1 < newer.1) := by
  intro c logins
  have hlinked : LoginsLinked c.db credentialId logins := (asserted_exec h hvalid).committed.logins credentialId
  exact ⟨hlinked, fun hgrow ↦ pairwise_of_linked hlinked.1 hgrow⟩

theorem logins_are_linked_twice :
    LoginsLinked (afterSteps twoLogins).committed.db 21
      ((afterSteps twoLogins).committed.answers.filterMap (loginOf 21)) ∧
      (afterSteps twoLogins).committed.answers.filterMap (loginOf 21) = [(1, 3), (0, 1)] :=
  ⟨(logins_are_linked guarded_twoCredentials (by decide +kernel) 21).1, by decide +kernel⟩

theorem accepted_sessions_keep_their_limits (h : db.Guarded)
    (hvalid : (adminAccess idleTtl).system.Valid (.idle db db.rowNames) as) (sessionId : Uuid) :
    let c := ((adminAccess idleTtl).system.exec (.idle db db.rowNames) as).committed
    AcceptancesLinked idleTtl c.db sessionId (c.answers.filterMap (acceptanceOf sessionId)) :=
  (asserted_exec h hvalid).committed.acceptances sessionId

theorem accepted_sessions_keep_their_limits_twice :
    AcceptancesLinked 8 (afterSteps twoUses).committed.db 31
      ((afterSteps twoUses).committed.answers.filterMap (acceptanceOf 31)) ∧
      (afterSteps twoUses).committed.answers.filterMap (acceptanceOf 31) = [⟨18, 18, 30⟩, ⟨12, 12, 30⟩] :=
  ⟨accepted_sessions_keep_their_limits guarded_twoCredentials (by decide +kernel) 31, by decide +kernel⟩

end Theorems

end Histae.Identity
