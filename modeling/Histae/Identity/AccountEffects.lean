import Histae.Identity.AccountTraffic

/-!
# What the account transactions commit

Every commit is one of a few changes of the tables. A change of an account row
comes from a call that holds its lock, and no two calls hold the lock of one
row. Whoever issues a session does so for an account in use.
-/

namespace Histae.Identity

open Relational Systems

/-- The session that an outcome hands out. -/
def AccountOutcome.issued : AccountOutcome → Option MobileSessionIdentity
  | .session identity | .reviewed identity _ => some identity
  | .rotation (.outcome (.rotated identity)) | .rotation (.recovered identity _) => some identity
  | _ => none

/-- The account that a request names. -/
def AccountRequest.account : AccountRequest → Option Uuid
  | .create userId _ _ | .setBan userId _ _ _ | .acceptErasure userId _ | .anonymize userId _ =>
      some userId
  | _ => none

section Commits

variable {c : TokenCrypto} {db db' : AccountDb} {q : AccountRequest} {phase : AccountPhase}
  {r : Readings} {result : AccountOutcome}

/-- Everything a commit can do to the tables. -/
inductive Commits (c : TokenCrypto) (db : AccountDb) (r : Readings) :
    AccountRequest → AccountPhase → AccountOutcome → AccountDb → Prop
  | unchanged (q : AccountRequest) (phase : AccountPhase) (result : AccountOutcome)
      (hissued : result.issued = none) (hresult : result = .refused ∨ result = .webSession false ∨
        result = .ban .notFound ∨ result = .ban .forbidden ∨
        result = .rotation (.outcome .invalid)) : Commits c db r q phase result db
  | signedUp (userId : Uuid) (phone : List Char) (created : Bool) (db' : AccountDb)
      (h : db.insertAccount (newAccount userId phone false) = some db') :
      Commits c db r (.createAccount userId phone) (.inserted created) (.signedUp userId r.token)
        db'
  | reviewed (request user sessionId : Uuid) (phone : List Char) (token : NewRefreshToken)
      (identity : MobileSessionIdentity) (s : Store)
      (h : db.store.insertSession c user sessionId token = .ok (identity, s)) :
      Commits c db r (.createReviewSession request phone sessionId token) (.adopted user false)
        (.reviewed identity none) (db.withSessions s)
  | adopted (request user sessionId : Uuid) (phone : List Char) (token : NewRefreshToken)
      (identity : MobileSessionIdentity) (db₁ : AccountDb) (s : Store)
      (hinsert : db.insertAccount (newAccount user phone true) = some db₁)
      (h : db₁.store.insertSession c user sessionId token = .ok (identity, s)) :
      Commits c db r (.createReviewSession request phone sessionId token) (.adopted user true)
        (.reviewed identity (some r.token)) (db₁.withSessions s)
  | session (userId sessionId user : Uuid) (started : ℤ) (token : NewRefreshToken)
      (identity : MobileSessionIdentity) (s : Store)
      (h : db.store.insertSession c userId sessionId token = .ok (identity, s)) :
      Commits c db r (.create userId sessionId token) (.locked user started) (.session identity)
        (db.withSessions s)
  | rotated (jti : Uuid) (hash : List Char) (next : NewRefreshToken)
      (recovery : Option RefreshRecovery) (user : Uuid) (started : ℤ) (rotation : RefreshRotation)
      (s : Store) (h : db.store.rotateInner c r jti hash next recovery = .ok (rotation, s)) :
      Commits c db r (.rotate jti hash next recovery) (.locked user started) (.rotation rotation)
        (db.withSessions s)
  | webSession (challengeId userId : Uuid) (tokenHash : List Char) (db' : AccountDb)
      (h : db.openWebSession challengeId userId tokenHash r.token = some db') :
      Commits c db r (.openWebSession challengeId userId tokenHash) .consumed (.webSession true) db'
  | ban (targetId adminId user : Uuid) (isBanned : Bool) (adminRole : AdminRole) (started : ℤ)
      (row : UserAccount) (hrow : db.findUndeleted targetId = some row)
      (h : (db.setBan targetId isBanned adminId adminRole r.write).1 = .updated) :
      Commits c db r (.setBan targetId isBanned adminId adminRole) (.locked user started)
        (.ban .updated) (db.setBan targetId isBanned adminId adminRole r.write).2
  | accepted (userId user : Uuid) (started : ℤ) :
      Commits c db r (.acceptErasure userId true) (.locked user started) .accepted
        (db.enqueueAccountErasure userId r.write)
  | anonymized (userId user : Uuid) (random : List Char) (started : ℤ) (db' : AccountDb)
      (h : db.anonymizeUser user random started = some db') :
      Commits c db r (.anonymize userId random) (.locked user started)
        (.anonymized (db.tombstoneOf user started)) db'
  | cleaned (now : ℤ) (limit : ℕ) (chosen phones : List (List Char)) :
      Commits c db r (.cleanTombstones now limit chosen) (.selected phones) .cleaned
        { db with tombstones := db.tombstones.delete fun t ↦ t.phoneNumberHash ∈ phones }

theorem commits_refusal {refusal : AccountOutcome} {locked : AccountProgress} {condition : Bool}
    {userId : Uuid} (h : lockStatement db r userId condition refusal locked phase = .commit result db') :
    (result = refusal ∧ db' = db) ∨ (∃ user started, phase = .locked user started) ∧
      locked = .commit result db' := by
  unfold lockStatement at h
  cases phase with
  | begun =>
      dsimp only at h
      split at h
      · cases h
      · obtain ⟨rfl, rfl⟩ := Progress.commit.inj h
        exact Or.inl ⟨rfl, rfl⟩
  | waiting user started =>
      dsimp only at h
      split at h
      · cases h
      · obtain ⟨rfl, rfl⟩ := Progress.commit.inj h
        exact Or.inl ⟨rfl, rfl⟩
  | locked user started => exact Or.inr ⟨⟨user, started, rfl⟩, h⟩
  | _ => cases h

theorem commits_createAccount {userId : Uuid} {phone : List Char}
    (h : createAccountStatement db r userId phone phase = .commit result db') :
    Commits c db r (.createAccount userId phone) phase result db' := by
  unfold createAccountStatement at h
  split at h
  · split at h
    · obtain ⟨rfl, rfl⟩ := Progress.commit.inj h
      exact .unchanged _ _ _ rfl (Or.inl rfl)
    · cases h
  · split at h
    · obtain ⟨rfl, rfl⟩ := Progress.commit.inj h
      exact .unchanged _ _ _ rfl (Or.inl rfl)
    · cases h
  · rename_i created
    split at h
    · cases h
    · rename_i db₁ hinsert
      obtain ⟨rfl, rfl⟩ := Progress.commit.inj h
      exact .signedUp userId phone created _ hinsert
  · cases h

theorem reviewSession_eq_commit {userId sessionId : Uuid} {token : NewRefreshToken}
    {created : Option ℤ}
    (h : reviewSession c db userId sessionId token created = .commit result db') :
    ∃ identity s, db.store.insertSession c userId sessionId token = .ok (identity, s) ∧
      result = .reviewed identity created ∧ db' = db.withSessions s := by
  unfold reviewSession at h
  split at h
  · cases h
  · rename_i identity s hinsert
    obtain ⟨rfl, rfl⟩ := Progress.commit.inj h
    exact ⟨identity, s, hinsert, rfl, rfl⟩

theorem commits_createReviewSession {userId sessionId : Uuid} {phone : List Char}
    {token : NewRefreshToken}
    (h : createReviewSessionStatement c db r userId phone sessionId token phase =
      .commit result db') :
    Commits c db r (.createReviewSession userId phone sessionId token) phase result db' := by
  have hrefused : Commits c db r (.createReviewSession userId phone sessionId token) phase
      .refused db := .unchanged _ _ _ rfl (Or.inl rfl)
  unfold createReviewSessionStatement at h
  split at h
  · cases h
  · split at h
    · obtain ⟨rfl, rfl⟩ := Progress.commit.inj h
      exact hrefused
    · cases h
  · cases h
  · split at h
    · cases h
    · split at h <;> cases h
  · split at h <;> cases h
  · cases h
  · split at h
    · obtain ⟨rfl, rfl⟩ := Progress.commit.inj h
      exact hrefused
    · cases h
  · split at h
    · cases h
    · obtain ⟨rfl, rfl⟩ := Progress.commit.inj h
      exact hrefused
  · rename_i user
    obtain ⟨identity, s, hinsert, rfl, rfl⟩ := reviewSession_eq_commit h
    exact .reviewed userId user sessionId phone token identity s hinsert
  · rename_i user
    split at h
    · cases h
    · rename_i db₁ hinsert
      obtain ⟨identity, s, hsession, rfl, rfl⟩ := reviewSession_eq_commit h
      exact .adopted userId user sessionId phone token identity db₁ s hinsert hsession
  · cases h

theorem commits_create {userId sessionId : Uuid} {token : NewRefreshToken}
    (h : createStatement c db r userId sessionId token phase = .commit result db') :
    Commits c db r (.create userId sessionId token) phase result db' := by
  rcases commits_refusal h with ⟨rfl, rfl⟩ | ⟨⟨user, started, rfl⟩, hlocked⟩
  · exact .unchanged _ _ _ rfl (Or.inl rfl)
  · split at hlocked
    · cases hlocked
    · rename_i identity s hinsert
      obtain ⟨rfl, rfl⟩ := Progress.commit.inj hlocked
      exact .session userId sessionId user started token identity s hinsert

/-- What a rotation does under the lock of the account. -/
def rotatedProgress (c : TokenCrypto) (db : AccountDb) (r : Readings) (jti : Uuid)
    (hash : List Char) (next : NewRefreshToken) (recovery : Option RefreshRecovery) :
    AccountProgress :=
  match db.store.rotateInner c r jti hash next recovery with
  | .error _ => .rollback
  | .ok (rotation, s) => .commit (.rotation rotation) (db.withSessions s)

theorem commits_rotate {jti : Uuid} {hash : List Char} {next : NewRefreshToken}
    {recovery : Option RefreshRecovery}
    (h : rotateStatement c db r jti hash next recovery phase = .commit result db') :
    Commits c db r (.rotate jti hash next recovery) phase result db' := by
  have hinvalid : ∀ phase, Commits c db r (.rotate jti hash next recovery) phase
      (.rotation (.outcome .invalid)) db := fun phase ↦
    .unchanged _ _ _ rfl (Or.inr (Or.inr (Or.inr (Or.inr rfl))))
  have hcommit {user : Uuid} {condition : Bool}
      (h : lockStatement db r user condition (.rotation (.outcome .invalid))
        (rotatedProgress c db r jti hash next recovery) phase = .commit result db') :
      Commits c db r (.rotate jti hash next recovery) phase result db' := by
    rcases commits_refusal h with ⟨rfl, rfl⟩ | ⟨⟨user, started, rfl⟩, hlocked⟩
    · exact hinvalid phase
    · unfold rotatedProgress at hlocked
      split at hlocked
      · cases hlocked
      · rename_i rotation s hrotate
        obtain ⟨rfl, rfl⟩ := Progress.commit.inj hlocked
        exact .rotated jti hash next recovery user started rotation s hrotate
  unfold rotateStatement at h
  dsimp only at h
  split at h
  · split at h
    · obtain ⟨rfl, rfl⟩ := Progress.commit.inj h
      exact hinvalid .begun
    · exact hcommit h
  · exact hcommit h
  · exact hcommit h

theorem setBan_cases (db : AccountDb) (targetId adminId : Uuid) (isBanned : Bool)
    (adminRole : AdminRole) (now : ℤ) :
    db.setBan targetId isBanned adminId adminRole now = (.notFound, db) ∨
      db.setBan targetId isBanned adminId adminRole now = (.forbidden, db) ∨
      ∃ row, db.findUndeleted targetId = some row ∧
        (db.setBan targetId isBanned adminId adminRole now).1 = .updated := by
  unfold AccountDb.setBan
  cases hrow : db.findUndeleted targetId with
  | none => exact Or.inl rfl
  | some row =>
      by_cases hforbidden : targetId = adminId ∨ row.role = .superadmin ∨
          (adminRole = .admin ∧ row.role ≠ .user)
      · exact Or.inr (Or.inl (if_pos hforbidden))
      · refine Or.inr (Or.inr ⟨row, rfl, ?_⟩)
        dsimp only
        rw [if_neg hforbidden]

theorem commits_setBan {targetId adminId : Uuid} {isBanned : Bool} {adminRole : AdminRole}
    (h : setBanStatement db r targetId isBanned adminId adminRole phase = .commit result db') :
    Commits c db r (.setBan targetId isBanned adminId adminRole) phase result db' := by
  rcases commits_refusal h with ⟨rfl, rfl⟩ | ⟨⟨user, started, rfl⟩, hlocked⟩
  · exact .unchanged _ _ _ rfl (Or.inr (Or.inr (Or.inl rfl)))
  · rcases setBan_cases db targetId adminId isBanned adminRole r.write with
      hban | hban | ⟨row, hrow, hupdated⟩
    · rw [hban] at hlocked
      obtain ⟨rfl, rfl⟩ := Progress.commit.inj hlocked
      exact .unchanged _ _ _ rfl (Or.inr (Or.inr (Or.inl rfl)))
    · rw [hban] at hlocked
      obtain ⟨rfl, rfl⟩ := Progress.commit.inj hlocked
      exact .unchanged _ _ _ rfl (Or.inr (Or.inr (Or.inr (Or.inl rfl))))
    · have hcommits : Commits c db r (.setBan targetId isBanned adminId adminRole)
          (.locked user started) (.ban .updated)
          (db.setBan targetId isBanned adminId adminRole r.write).2 :=
        .ban targetId adminId user isBanned adminRole started row hrow hupdated
      generalize db.setBan targetId isBanned adminId adminRole r.write = banned at *
      obtain ⟨outcome, db₁⟩ := banned
      obtain ⟨rfl, rfl⟩ := Progress.commit.inj hlocked
      change outcome = .updated at hupdated
      rw [hupdated]
      exact hcommits

theorem commits_openWebSession {challengeId userId : Uuid} {tokenHash : List Char}
    (h : openWebSessionStatement db r challengeId userId tokenHash phase = .commit result db') :
    Commits c db r (.openWebSession challengeId userId tokenHash) phase result db' := by
  unfold openWebSessionStatement at h
  split at h
  · split at h
    · cases h
    · obtain ⟨rfl, rfl⟩ := Progress.commit.inj h
      exact .unchanged _ _ _ rfl (Or.inr (Or.inl rfl))
  · split at h
    · cases h
    · obtain ⟨rfl, rfl⟩ := Progress.commit.inj h
      exact .unchanged _ _ _ rfl (Or.inr (Or.inl rfl))
  · split at h
    · cases h
    · rename_i db₁ hopen
      obtain ⟨rfl, rfl⟩ := Progress.commit.inj h
      exact .webSession challengeId userId tokenHash _ hopen
  · cases h

theorem commits_acceptErasure {userId : Uuid} {consumed : Bool}
    (h : acceptErasureStatement db r userId consumed phase = .commit result db') :
    Commits c db r (.acceptErasure userId consumed) phase result db' := by
  rcases commits_refusal h with ⟨rfl, rfl⟩ | ⟨⟨user, started, rfl⟩, hlocked⟩
  · exact .unchanged _ _ _ rfl (Or.inl rfl)
  · cases consumed with
    | false =>
        obtain ⟨rfl, rfl⟩ := Progress.commit.inj hlocked
        exact .unchanged _ _ _ rfl (Or.inl rfl)
    | true =>
        obtain ⟨rfl, rfl⟩ := Progress.commit.inj hlocked
        exact .accepted userId user started

theorem commits_anonymize {userId : Uuid} {random : List Char}
    (h : anonymizeStatement db r userId random phase = .commit result db') :
    Commits c db r (.anonymize userId random) phase result db' := by
  have hrefused : ∀ phase, Commits c db r (.anonymize userId random) phase .refused db :=
    fun phase ↦ .unchanged _ _ _ rfl (Or.inl rfl)
  unfold anonymizeStatement at h
  split at h
  · rename_i user started
    split at h
    · split at h
      · cases h
      · rename_i db₁ hanonymize
        obtain ⟨rfl, rfl⟩ := Progress.commit.inj h
        exact .anonymized userId user random started _ hanonymize
    · obtain ⟨rfl, rfl⟩ := Progress.commit.inj h
      exact hrefused _
  · rcases commits_refusal h with ⟨rfl, rfl⟩ | ⟨_, hlocked⟩
    · exact hrefused _
    · cases hlocked

theorem commits_cleanTombstones {now : ℤ} {limit : ℕ} {chosen : List (List Char)}
    (h : cleanTombstonesStatement db now limit chosen phase = .commit result db') :
    Commits c db r (.cleanTombstones now limit chosen) phase result db' := by
  unfold cleanTombstonesStatement at h
  split at h
  · cases h
  · rename_i phones
    obtain ⟨rfl, rfl⟩ := Progress.commit.inj h
    exact .cleaned now limit chosen phones
  · cases h

theorem commits_of_statement (h : accountStatement c db q phase r = .commit result db') :
    Commits c db r q phase result db' := by
  cases q with
  | createAccount userId phone => exact commits_createAccount h
  | createReviewSession userId phone sessionId token => exact commits_createReviewSession h
  | create userId sessionId token => exact commits_create h
  | rotate jti hash next recovery => exact commits_rotate h
  | openWebSession challengeId userId tokenHash => exact commits_openWebSession h
  | setBan targetId isBanned adminId adminRole => exact commits_setBan h
  | acceptErasure userId consumed => exact commits_acceptErasure h
  | anonymize userId random => exact commits_anonymize h
  | cleanTombstones now limit chosen => exact commits_cleanTombstones h

end Commits

section Frames

variable {c : TokenCrypto} {db db' : AccountDb} {q : AccountRequest} {phase : AccountPhase}
  {r : Readings} {result : AccountOutcome} {v : Uuid} {a : UserAccount}

theorem insertAccount_eq_some {row : UserAccount} (h : db.insertAccount row = some db') :
    db.hasPhone row.phoneNumberHash = false ∧
      ∃ accounts, db.accounts.insert? row = some accounts ∧ db' = { db with accounts } := by
  unfold AccountDb.insertAccount at h
  split at h
  · cases h
  · rename_i hfree
    obtain ⟨accounts, hinsert, rfl⟩ := Option.map_eq_some_iff.mp h
    exact ⟨by simpa using hfree, accounts, hinsert, rfl⟩

theorem anonymizeUser_eq_some {userId : Uuid} {random : List Char} {started : ℤ}
    (h : db.anonymizeUser userId random started = some db') :
    db.hasPhone (.anon random) = false ∧
      db'.accounts = db.accounts.modify (fun a ↦ a.userId = userId)
        (UserAccount.anonymize random started) (fun _ ↦ rfl) ∧
      db'.families = db.families.delete fun f ↦ f.userId = userId := by
  unfold AccountDb.anonymizeUser at h
  split at h
  · cases h
  · rename_i hfree
    obtain rfl := Option.some.inj h
    exact ⟨by simpa using hfree, rfl, rfl⟩

theorem setBan_accounts {targetId adminId : Uuid} {isBanned : Bool} {adminRole : AdminRole}
    {now : ℤ} (h : (db.setBan targetId isBanned adminId adminRole now).1 = .updated) :
    (db.setBan targetId isBanned adminId adminRole now).2.accounts =
        db.accounts.modify (fun a ↦ a.userId = targetId) (UserAccount.ban isBanned) (fun _ ↦ rfl) ∧
      (db.setBan targetId isBanned adminId adminRole now).2.families =
        (if isBanned then db.store.revokeFamilies now targetId .banned none else db.store).families ∧
      (db.setBan targetId isBanned adminId adminRole now).2.tombstones = db.tombstones := by
  unfold AccountDb.setBan at h ⊢
  cases hrow : db.findUndeleted targetId with
  | none => rw [hrow] at h; cases h
  | some row =>
      rw [hrow] at h
      dsimp only at h ⊢
      split at h
      · cases h
      · rename_i hallowed
        rw [if_neg hallowed]
        cases isBanned <;> exact ⟨rfl, rfl, rfl⟩

/-- A row keeps its deletion date under the updates of the account table. -/
theorem find?_modify_account {f : UserAccount → UserAccount} {u : Uuid}
    (hf : ∀ a, (f a).userId = a.userId)
    (hdeleted : ∀ a : UserAccount, a.deletedAt.isSome = true → (f a).deletedAt.isSome = true)
    (ha : db.accounts.find? v = some a) :
    ∃ a', (db.accounts.modify (fun b ↦ b.userId = u) f hf).find? v = some a' ∧
      (a.deletedAt.isSome = true → a'.deletedAt.isSome = true) ∧ (v ≠ u → a' = a) := by
  have hid : a.userId = v := (Table.find?_eq_some_iff.mp ha).2
  rw [Table.find?_modify hf, ha, Option.map_some]
  by_cases hu : v = u
  · exact ⟨f a, by simp [hid, hu], hdeleted a, fun hne ↦ absurd hu hne⟩
  · exact ⟨a, by simp [hid, hu], fun h ↦ h, fun _ ↦ rfl⟩

theorem find?_insert_account {row : UserAccount} {accounts : Table UserAccount.userId}
    (hinsert : db.accounts.insert? row = some accounts) (ha : db.accounts.find? v = some a) :
    accounts.find? v = some a := by
  rw [Table.find?_insert hinsert, if_neg, ha]
  rintro rfl
  have hfree := (Table.insert?_eq_some_iff.mp hinsert).1
  rw [ha] at hfree
  cases hfree

/-- A commit keeps every account row, and changes none but the one whose lock
its call holds. -/
theorem Commits.account (h : Commits c db r q phase result db')
    (hnamed : ∀ u started, phase = .locked u started → ∀ x ∈ q.account, x = u)
    (ha : db.accounts.find? v = some a) :
    ∃ a', db'.accounts.find? v = some a' ∧
      (a.deletedAt.isSome = true → a'.deletedAt.isSome = true) ∧
      (a' = a ∨ ∃ started, phase = .locked v started) := by
  cases h with
  | unchanged => exact ⟨a, ha, fun h ↦ h, Or.inl rfl⟩
  | signedUp userId phone created _ hinsert =>
      obtain ⟨_, accounts, hrow, rfl⟩ := insertAccount_eq_some hinsert
      exact ⟨a, find?_insert_account hrow ha, fun h ↦ h, Or.inl rfl⟩
  | reviewed => exact ⟨a, ha, fun h ↦ h, Or.inl rfl⟩
  | adopted request user sessionId phone token identity db₁ s hinsert hsession =>
      obtain ⟨_, accounts, hrow, rfl⟩ := insertAccount_eq_some hinsert
      exact ⟨a, find?_insert_account hrow ha, fun h ↦ h, Or.inl rfl⟩
  | session => exact ⟨a, ha, fun h ↦ h, Or.inl rfl⟩
  | rotated => exact ⟨a, ha, fun h ↦ h, Or.inl rfl⟩
  | webSession challengeId userId tokenHash _ hopen =>
      obtain ⟨webSessions, _, rfl⟩ := Option.map_eq_some_iff.mp hopen
      exact ⟨a, ha, fun h ↦ h, Or.inl rfl⟩
  | ban targetId adminId user isBanned adminRole started row hrow hupdated =>
      obtain ⟨haccounts, _⟩ := setBan_accounts hupdated
      rw [haccounts]
      obtain ⟨a', ha', hdeleted, hother⟩ := find?_modify_account (f := UserAccount.ban isBanned)
        (u := targetId) (fun _ ↦ rfl) (fun _ h ↦ h) ha
      refine ⟨a', ha', hdeleted, ?_⟩
      by_cases htarget : v = targetId
      · exact Or.inr ⟨started, by rw [htarget, hnamed user started rfl targetId rfl]⟩
      · exact Or.inl (hother htarget)
  | accepted userId user started =>
      obtain ⟨a', ha', hdeleted, hother⟩ := find?_modify_account (f := UserAccount.delete r.write)
        (u := userId) (fun _ ↦ rfl) (fun _ _ ↦ rfl) ha
      refine ⟨a', ha', hdeleted, ?_⟩
      by_cases htarget : v = userId
      · exact Or.inr ⟨started, by rw [htarget, hnamed user started rfl userId rfl]⟩
      · exact Or.inl (hother htarget)
  | anonymized userId user random started _ hanonymize =>
      obtain ⟨_, haccounts, _⟩ := anonymizeUser_eq_some hanonymize
      rw [haccounts]
      obtain ⟨a', ha', hdeleted, hother⟩ := find?_modify_account
        (f := UserAccount.anonymize random started) (u := user) (fun _ ↦ rfl) (fun _ _ ↦ rfl) ha
      refine ⟨a', ha', hdeleted, ?_⟩
      by_cases htarget : v = user
      · exact Or.inr ⟨started, by rw [htarget]⟩
      · exact Or.inl (hother htarget)
  | cleaned => exact ⟨a, ha, fun h ↦ h, Or.inl rfl⟩

theorem lockActiveAccount_iff : db.store.lockActiveAccount v = true ↔
    ∃ a, db.accounts.find? v = some a ∧ a.deletedAt = none ∧ a.isBanned = false := by
  have hfind : db.store.accounts.find? v = (db.accounts.find? v).map UserAccount.account := by
    change (db.accounts.rows.map UserAccount.account).find? _ = _
    rw [List.find?_map]
    rfl
  unfold Store.lockActiveAccount
  rw [hfind]
  cases hrow : db.accounts.find? v with
  | none => simp
  | some a => simp [UserAccount.account]

end Frames

section Proceeding

variable {c : TokenCrypto} {db : AccountDb} {q : AccountRequest} {phase phase' : AccountPhase}
  {r : Readings} {u : Uuid} {started : ℤ}

theorem proceeds_lockStatement {userId : Uuid} {condition : Bool} {refusal : AccountOutcome}
    {locked : AccountProgress} (hlocked : ∀ phase, locked ≠ .proceed phase)
    (h : lockStatement db r userId condition refusal locked phase = .proceed phase') :
    condition = true ∧ (phase = .begun ∧ phase' = .waiting userId r.token ∨
      ∃ user started, phase = .waiting user started ∧ phase' = .locked user started) := by
  unfold lockStatement at h
  cases phase with
  | begun =>
      dsimp only at h
      split at h
      · rename_i hcondition
        exact ⟨hcondition, Or.inl ⟨rfl, (Progress.proceed.inj h).symm⟩⟩
      · cases h
  | waiting user started =>
      dsimp only at h
      split at h
      · rename_i hcondition
        exact ⟨hcondition, Or.inr ⟨user, started, rfl, (Progress.proceed.inj h).symm⟩⟩
      · cases h
  | locked user started => exact absurd h (hlocked phase')
  | _ => cases h

/-- A call that selects an account row waits for its lock, and a call that
waited for a lock holds it then. -/
inductive Locks (db : AccountDb) (q : AccountRequest) : AccountPhase → AccountPhase → Prop
  | waiting (user : Uuid) (started : ℤ) (hnamed : ∀ x ∈ q.account, x = user) :
      Locks db q .begun (.waiting user started)
  | locked (user : Uuid) (started : ℤ)
      (hactive : ∀ userId sessionId token, q = .create userId sessionId token →
        db.store.lockActiveAccount userId = true) :
      Locks db q (.waiting user started) (.locked user started)
  | adopted (user : Uuid) (hactive : db.store.lockActiveAccount user = true) :
      Locks db q (.chosen user) (.adopted user false)
  | other (phase phase' : AccountPhase) (hwaiting : ∀ user started, phase' ≠ .waiting user started)
      (hlocked : ∀ user started, phase' ≠ .locked user started)
      (hadopted : ∀ user, phase' ≠ .adopted user false) : Locks db q phase phase'

theorem locks_lockStatement {userId : Uuid} {condition : Bool} {refusal : AccountOutcome}
    {locked : AccountProgress} (hlocked : ∀ phase, locked ≠ .proceed phase)
    (hnamed : ∀ x ∈ q.account, x = userId)
    (hactive : condition = true → ∀ userId sessionId token, q = .create userId sessionId token →
      db.store.lockActiveAccount userId = true)
    (h : lockStatement db r userId condition refusal locked phase = .proceed phase') :
    Locks db q phase phase' := by
  obtain ⟨hcondition, ⟨rfl, rfl⟩ | ⟨user, started, rfl, rfl⟩⟩ := proceeds_lockStatement hlocked h
  · exact .waiting userId r.token hnamed
  · exact .locked user started (hactive hcondition)

theorem locks_createReviewSession {userId sessionId : Uuid} {phone : List Char}
    {token : NewRefreshToken}
    (h : createReviewSessionStatement c db r userId phone sessionId token phase = .proceed phase') :
    Locks db (.createReviewSession userId phone sessionId token) phase phase' := by
  have hno {created : Option ℤ} {db₁ : AccountDb} {user : Uuid} :
      reviewSession c db₁ user sessionId token created ≠ .proceed phase' := by
    unfold reviewSession
    split <;> exact nofun
  unfold createReviewSessionStatement at h
  split at h
  · obtain rfl := Progress.proceed.inj h
    exact .other _ _ nofun nofun nofun
  · split at h
    · cases h
    · obtain rfl := Progress.proceed.inj h
      exact .other _ _ nofun nofun nofun
  · obtain rfl := Progress.proceed.inj h
    exact .other _ _ nofun nofun nofun
  · split at h
    · obtain rfl := Progress.proceed.inj h
      exact .other _ _ nofun nofun nofun
    · split at h
      · cases h
      · obtain rfl := Progress.proceed.inj h
        exact .other _ _ nofun nofun nofun
  · split at h
    · cases h
    · obtain rfl := Progress.proceed.inj h
      exact .other _ _ nofun nofun nofun
  · obtain rfl := Progress.proceed.inj h
    exact .other _ _ nofun nofun nofun
  · split at h
    · cases h
    · obtain rfl := Progress.proceed.inj h
      exact .other _ _ nofun nofun nofun
  · rename_i user
    split at h
    · rename_i hadoptable
      obtain rfl := Progress.proceed.inj h
      refine .adopted user (lockActiveAccount_iff.mpr ?_)
      obtain ⟨a, ha, hrow⟩ := Option.any_eq_true .. |>.mp hadoptable
      simp only [UserAccount.isAdoptable, Bool.and_eq_true, Bool.not_eq_true',
        Option.isNone_iff_eq_none] at hrow
      exact ⟨a, ha, hrow.2, hrow.1.2⟩
    · cases h
  · exact absurd h hno
  · split at h
    · cases h
    · exact absurd h hno
  · cases h

theorem locks_of_statement (h : accountStatement c db q phase r = .proceed phase') :
    Locks db q phase phase' := by
  have hother {q : AccountRequest} (hq : q.account = none) (hcreate : ∀ userId sessionId token,
      q ≠ .create userId sessionId token) {userId : Uuid} {condition : Bool}
      {refusal : AccountOutcome} {locked : AccountProgress}
      (hlocked : ∀ phase, locked ≠ .proceed phase)
      (h : lockStatement db r userId condition refusal locked phase = .proceed phase') :
      Locks db q phase phase' :=
    locks_lockStatement hlocked (by simp [hq])
      (fun _ userId sessionId token heq ↦ absurd heq (hcreate userId sessionId token)) h
  cases q with
  | createAccount userId phone =>
      change createAccountStatement db r userId phone phase = _ at h
      unfold createAccountStatement at h
      split at h
      · split at h
        · cases h
        · obtain rfl := Progress.proceed.inj h
          exact .other _ _ (fun _ _ h ↦ by cases h) (fun _ _ h ↦ by cases h) fun _ h ↦ by cases h
      · split at h
        · cases h
        · obtain rfl := Progress.proceed.inj h
          exact .other _ _ (fun _ _ h ↦ by cases h) (fun _ _ h ↦ by cases h) fun _ h ↦ by cases h
      · split at h <;> cases h
      · cases h
  | createReviewSession userId phone sessionId token => exact locks_createReviewSession h
  | create userId sessionId token =>
      refine locks_lockStatement (fun phase ↦ ?_) (by simp [AccountRequest.account]) ?_ h
      · split <;> exact fun h ↦ by cases h
      · rintro hactive _ _ _ ⟨rfl, rfl, rfl⟩
        exact hactive
  | rotate jti hash next recovery =>
      have hrotated : ∀ phase,
          rotatedProgress c db r jti hash next recovery ≠ .proceed phase := by
        intro phase
        unfold rotatedProgress
        split <;> exact fun h ↦ by cases h
      change rotateStatement c db r jti hash next recovery phase = _ at h
      unfold rotateStatement at h
      dsimp only at h
      split at h
      · split at h
        · cases h
        · exact hother rfl (fun _ _ _ h ↦ by cases h) hrotated h
      · exact hother rfl (fun _ _ _ h ↦ by cases h) hrotated h
      · exact hother rfl (fun _ _ _ h ↦ by cases h) hrotated h
  | openWebSession challengeId userId tokenHash =>
      change openWebSessionStatement db r challengeId userId tokenHash phase = _ at h
      unfold openWebSessionStatement at h
      split at h
      · split at h
        · obtain rfl := Progress.proceed.inj h
          exact .other _ _ (fun _ _ h ↦ by cases h) (fun _ _ h ↦ by cases h) fun _ h ↦ by cases h
        · cases h
      · split at h
        · obtain rfl := Progress.proceed.inj h
          exact .other _ _ (fun _ _ h ↦ by cases h) (fun _ _ h ↦ by cases h) fun _ h ↦ by cases h
        · cases h
      · split at h <;> cases h
      · cases h
  | setBan targetId isBanned adminId adminRole =>
      refine locks_lockStatement ?_ ?_ (fun _ _ _ _ h ↦ by cases h) h
      · exact fun _ h ↦ by cases h
      · simp [AccountRequest.account]
  | acceptErasure userId consumed =>
      refine locks_lockStatement ?_ ?_ (fun _ _ _ _ h ↦ by cases h) h
      · intro phase
        split <;> exact fun h ↦ by cases h
      · simp [AccountRequest.account]
  | anonymize userId random =>
      change anonymizeStatement db r userId random phase = _ at h
      unfold anonymizeStatement at h
      split at h
      · split at h
        · split at h <;> cases h
        · cases h
      · refine locks_lockStatement ?_ ?_ (fun _ _ _ _ h ↦ by cases h) h
        · exact fun _ h ↦ by cases h
        · simp [AccountRequest.account]
  | cleanTombstones now limit chosen =>
      change cleanTombstonesStatement db now limit chosen phase = _ at h
      unfold cleanTombstonesStatement at h
      split at h
      · obtain rfl := Progress.proceed.inj h
        exact .other _ _ (fun _ _ h ↦ by cases h) (fun _ _ h ↦ by cases h) fun _ h ↦ by cases h
      · cases h
      · cases h

end Proceeding

end Histae.Identity
