import Histae.Identity.Bans

/-!
# The tombstone of a banned phone

The unique key keeps two account rows from carrying one phone, committed or
not. So the anonymization that writes a tombstone finds no row of the phone in
flight. What it can find is a sign-up that has looked for a tombstone and not
inserted yet, and a clean-up that has selected an older tombstone of the phone
and not deleted it yet; without these the phone stays out until the tombstone
expires.
-/

namespace Histae.Identity

open Relational Systems

/-- The unique key on `phone_number_hash`. -/
def AccountDb.UniquePhones (db : AccountDb) : Prop :=
  ∀ a ∈ db.accounts, ∀ b ∈ db.accounts, a.phoneNumberHash = b.phoneNumberHash → a = b

instance (db : AccountDb) : Decidable db.UniquePhones :=
  inferInstanceAs (Decidable (∀ a ∈ db.accounts, ∀ b ∈ db.accounts,
    a.phoneNumberHash = b.phoneNumberHash → a = b))

section Phones

variable {c : TokenCrypto} {db db' : AccountDb} {call : AccountCall} {r : Readings}
  {result : AccountOutcome} {phone : PhoneHash} {p : List Char}

theorem hasPhone_eq_false_iff :
    db.hasPhone phone = false ↔ ∀ a ∈ db.accounts, a.phoneNumberHash ≠ phone := by
  unfold AccountDb.hasPhone
  rw [List.any_eq_false]
  simp [Table.mem_rows]

/-- A call past its last look at the tombstones, with the row of a phone
inserted. -/
def returnsPhone (p : List Char) (call : AccountCall) : Bool :=
  match call.request, call.phase with
  | .createAccount _ phone, .inserted _ => phone = p
  | .createReviewSession _ phone _ _, .rechecked true => phone = p
  | .createReviewSession _ phone _ _, .adopted _ true => phone = p
  | _, _ => false

theorem insertedPhone_of_returns (h : returnsPhone p call = true) :
    insertedPhone call = some p := by
  unfold returnsPhone at h
  unfold insertedPhone
  split at h <;> first | cases h | skip
  all_goals
    rename_i hrequest hphase
    rw [hrequest, hphase]
    simp [of_decide_eq_true h]

/-- What a commit does to the phones of the accounts. -/
inductive PhoneChange (db : AccountDb) (call : AccountCall) (db' : AccountDb) : Prop
  | kept (h : ∀ a' ∈ db'.accounts, ∃ a ∈ db.accounts, a.userId = a'.userId ∧
      a.phoneNumberHash = a'.phoneNumberHash)
  | inserted (p : List Char) (row : UserAccount) (hrow : row.phoneNumberHash = .keyed p)
      (hcall : returnsPhone p call = true) (hfree : db.hasPhone (.keyed p) = false)
      (h : ∀ a' ∈ db'.accounts, a' = row ∨ a' ∈ db.accounts)
  | anonymized (user : Uuid) (random : List Char) (hfree : db.hasPhone (.anon random) = false)
      (h : ∀ a' ∈ db'.accounts, a'.userId = user ∧ a'.phoneNumberHash = .anon random ∨
        a' ∈ db.accounts ∧ a'.userId ≠ user)

theorem PhoneChange.of_eq (h : db'.accounts = db.accounts) : PhoneChange db call db' := by
  refine .kept fun a' ha' ↦ ⟨a', ?_, rfl, rfl⟩
  rwa [h] at ha'

theorem PhoneChange.of_modify {q : UserAccount → Bool} {f : UserAccount → UserAccount}
    (hf : ∀ a, (f a).userId = a.userId) (hphone : ∀ a, (f a).phoneNumberHash = a.phoneNumberHash)
    (h : db'.accounts = db.accounts.modify q f hf) : PhoneChange db call db' := by
  refine .kept fun a' ha' ↦ ?_
  rw [h, Table.mem_modify hf] at ha'
  obtain ⟨a, ha, rfl⟩ := ha'
  refine ⟨a, ha, ?_⟩
  by_cases hq : q a = true <;> simp [hq, hf, hphone]

theorem PhoneChange.of_insert {userId : Uuid} {review : Bool} {db₁ : AccountDb}
    (hcall : returnsPhone p call = true)
    (h : db.insertAccount (newAccount userId p review) = some db₁)
    (haccounts : db'.accounts = db₁.accounts) : PhoneChange db call db' := by
  obtain ⟨hfree, accounts, hinsert, rfl⟩ := insertAccount_eq_some h
  refine .inserted p (newAccount userId p review) rfl hcall hfree fun a' ha' ↦ ?_
  rw [haccounts] at ha'
  exact (Table.mem_insert hinsert).mp ha'

theorem Commits.phones
    (h : Commits c db r call.request call.phase result db') : PhoneChange db call db' := by
  generalize hrequest : call.request = q at h
  generalize hphase : call.phase = phase at h
  cases h with
  | unchanged => exact .of_eq rfl
  | signedUp userId phone created _ hinsert =>
      refine .of_insert ?_ hinsert rfl
      simp [returnsPhone, hrequest, hphase]
  | reviewed => exact .of_eq rfl
  | adopted request user sessionId phone token identity db₁ s hinsert hsession =>
      refine .of_insert ?_ hinsert rfl
      simp [returnsPhone, hrequest, hphase]
  | session => exact .of_eq rfl
  | rotated => exact .of_eq rfl
  | webSession challengeId userId tokenHash _ hopen =>
      obtain ⟨webSessions, _, rfl⟩ := Option.map_eq_some_iff.mp hopen
      exact .of_eq rfl
  | ban targetId adminId user isBanned adminRole started row hrow hupdated =>
      exact .of_modify (f := UserAccount.ban isBanned) (fun _ ↦ rfl) (fun _ ↦ rfl)
        (setBan_accounts hupdated).1
  | accepted userId user started =>
      exact .of_modify (f := UserAccount.delete r.write) (fun _ ↦ rfl) (fun _ ↦ rfl) rfl
  | anonymized userId user random started _ hanonymize =>
      obtain ⟨hfree, haccounts, _⟩ := anonymizeUser_eq_some hanonymize
      refine .anonymized user random hfree fun a' ha' ↦ ?_
      rw [haccounts] at ha'
      obtain ⟨a, ha, rfl⟩ := (Table.mem_modify (f := UserAccount.anonymize random started)
        (fun _ ↦ rfl)).mp ha'
      by_cases huser : a.userId = user
      · exact Or.inl (by simp [huser, UserAccount.anonymize])
      · exact Or.inr (by simp [huser, ha])
  | cleaned => exact .of_eq rfl

theorem PhoneChange.unique (h : PhoneChange db call db') (hunique : db.UniquePhones) :
    db'.UniquePhones := by
  cases h with
  | kept hkept =>
      intro a' ha' b' hb' hphone
      obtain ⟨a, ha, haid, haphone⟩ := hkept a' ha'
      obtain ⟨b, hb, hbid, hbphone⟩ := hkept b' hb'
      have hab : a = b := hunique a ha b hb (by rw [haphone, hbphone, hphone])
      exact Table.eq_of_key_eq ha' hb' (by rw [← haid, ← hbid, hab])
  | inserted p row hrow hcall hfree hrows =>
      have hother := hasPhone_eq_false_iff.mp hfree
      intro a' ha' b' hb' hphone
      rcases hrows a' ha' with rfl | ha <;> rcases hrows b' hb' with rfl | hb
      · rfl
      · exact absurd (hphone.symm.trans hrow) (hother b' hb)
      · exact absurd (hphone.trans hrow) (hother a' ha)
      · exact hunique a' ha b' hb hphone
  | anonymized user random hfree hrows =>
      have hother := hasPhone_eq_false_iff.mp hfree
      intro a' ha' b' hb' hphone
      rcases hrows a' ha' with ⟨haid, haphone⟩ | ⟨ha, _⟩ <;>
        rcases hrows b' hb' with ⟨hbid, hbphone⟩ | ⟨hb, _⟩
      · exact Table.eq_of_key_eq ha' hb' (haid.trans hbid.symm)
      · exact absurd (hphone.symm.trans haphone) (hother b' hb)
      · exact absurd (hphone.trans hbphone) (hother a' ha)
      · exact hunique a' ha b' hb hphone

/-- A phone is taken only by the call that has inserted it. -/
theorem PhoneChange.free (h : PhoneChange db call db') (hfree : db.hasPhone (.keyed p) = false)
    (hcall : returnsPhone p call = false) : db'.hasPhone (.keyed p) = false := by
  have hother := hasPhone_eq_false_iff.mp hfree
  rw [hasPhone_eq_false_iff]
  intro a' ha' hphone
  cases h with
  | kept hkept =>
      obtain ⟨a, ha, _, heq⟩ := hkept a' ha'
      exact hother a ha (heq.trans hphone)
  | inserted p' row hrow hinserted _ hrows =>
      rcases hrows a' ha' with rfl | ha
      · rw [hrow] at hphone
        obtain rfl := PhoneHash.keyed.inj hphone
        rw [hcall] at hinserted
        cases hinserted
      · exact hother a' ha hphone
  | anonymized user random _ hrows =>
      rcases hrows a' ha' with ⟨_, hanon⟩ | ⟨ha, _⟩
      · rw [hanon] at hphone
        cases hphone
      · exact hother a' ha hphone

end Phones

section Proceeding

variable {c : TokenCrypto} {db : AccountDb} {call : AccountCall} {r : Readings}
  {phase : AccountPhase} {p : List Char} {calls : List AccountCall}

/-- How a call gets to hold a phone, and past its last look at the
tombstones. -/
structure PhoneStep (db : AccountDb) (calls : List AccountCall) (call : AccountCall)
    (phase : AccountPhase) (r : Readings) (p : List Char) : Prop where
  inserted : insertedPhone (call.withPhase phase) = some p → insertedPhone call = some p ∨
    db.hasPhone (.keyed p) = false ∧ calls.any (keepsPhone db p) = false
  returns : returnsPhone p (call.withPhase phase) = true → returnsPhone p call = true ∨
    db.isTombstoned p r.token = false ∨
    ∃ userId, call.request = .createAccount userId p ∧ call.phase = .cleared ∧
      (db.insertAccount (newAccount userId p false)).isSome = true

theorem phoneStep_createAccount {userId : Uuid} {phone : List Char}
    (hrequest : call.request = .createAccount userId phone)
    (hwaits : accountWaits calls db call.request call.phase = false)
    (h : createAccountStatement db r userId phone call.phase = .proceed phase) :
    PhoneStep db calls call phase r p := by
  unfold createAccountStatement at h
  split at h
  · split at h
    · cases h
    · obtain rfl := Progress.proceed.inj h
      refine ⟨fun hinserted ↦ ?_, fun hreturns ↦ ?_⟩
      · simp [insertedPhone, Systems.Call.withPhase, hrequest] at hinserted
      · simp [returnsPhone, Systems.Call.withPhase, hrequest] at hreturns
  · rename_i hphase
    split at h
    · cases h
    · rename_i db' hinsert
      obtain rfl := Progress.proceed.inj h
      rw [hrequest, hphase] at hwaits
      have hfree := (insertAccount_eq_some hinsert).1
      refine ⟨fun hinserted ↦ ?_, fun hreturns ↦ ?_⟩
      · obtain rfl : phone = p := by
          simpa [insertedPhone, Systems.Call.withPhase, hrequest] using hinserted
        exact Or.inr ⟨hfree, hwaits⟩
      · obtain rfl : phone = p := by
          simpa [returnsPhone, Systems.Call.withPhase, hrequest] using hreturns
        exact Or.inr (Or.inr ⟨userId, hrequest, hphase, by rw [hinsert]; rfl⟩)
  · split at h <;> cases h
  · cases h

theorem phoneStep_createReviewSession {userId sessionId : Uuid} {phone : List Char}
    {token : NewRefreshToken}
    (hrequest : call.request = .createReviewSession userId phone sessionId token)
    (hwaits : accountWaits calls db call.request call.phase = false)
    (h : createReviewSessionStatement c db r userId phone sessionId token call.phase =
      .proceed phase) : PhoneStep db calls call phase r p := by
  have hother (hinserted : insertedPhone (call.withPhase phase) = none)
      (hreturns : returnsPhone p (call.withPhase phase) = false) :
      PhoneStep db calls call phase r p := by
    refine ⟨fun h ↦ ?_, fun h ↦ ?_⟩
    · rw [hinserted] at h
      cases h
    · rw [hreturns] at h
      cases h
  have hsession {created : Option ℤ} {db₁ : AccountDb} {user : Uuid} :
      reviewSession c db₁ user sessionId token created ≠ .proceed phase := by
    unfold reviewSession
    split <;> exact nofun
  unfold createReviewSessionStatement at h
  split at h
  · obtain rfl := Progress.proceed.inj h
    exact hother (by simp [insertedPhone, Systems.Call.withPhase, hrequest])
      (by simp [returnsPhone, Systems.Call.withPhase, hrequest])
  · split at h
    · cases h
    · obtain rfl := Progress.proceed.inj h
      exact hother (by simp [insertedPhone, Systems.Call.withPhase, hrequest])
        (by simp [returnsPhone, Systems.Call.withPhase, hrequest])
  · obtain rfl := Progress.proceed.inj h
    exact hother (by simp [insertedPhone, Systems.Call.withPhase, hrequest])
      (by simp [returnsPhone, Systems.Call.withPhase, hrequest])
  · rename_i registers hphase
    split at h
    · obtain rfl := Progress.proceed.inj h
      exact hother (by simp [insertedPhone, Systems.Call.withPhase, hrequest])
        (by simp [returnsPhone, Systems.Call.withPhase, hrequest])
    · rename_i hregisters
      split at h
      · cases h
      · obtain rfl := Progress.proceed.inj h
        simp only [Bool.or_eq_true, Bool.not_eq_true', not_or, Bool.not_eq_false,
          Bool.not_eq_true] at hregisters
        obtain ⟨rfl, hfree⟩ := hregisters
        rw [hrequest, hphase] at hwaits
        refine ⟨fun hinserted ↦ ?_, fun hreturns ↦ ?_⟩
        · obtain rfl : phone = p := by
            simpa [insertedPhone, Systems.Call.withPhase, hrequest] using hinserted
          exact Or.inr ⟨hfree, hwaits⟩
        · simp [returnsPhone, Systems.Call.withPhase, hrequest] at hreturns
  · rename_i created hphase
    split at h
    · cases h
    · rename_i hclear
      obtain rfl := Progress.proceed.inj h
      cases created with
      | false =>
          exact hother (by simp [insertedPhone, Systems.Call.withPhase, hrequest])
            (by simp [returnsPhone, Systems.Call.withPhase, hrequest])
      | true =>
          refine ⟨fun hinserted ↦ Or.inl ?_, fun hreturns ↦ Or.inr (Or.inl ?_)⟩
          · simpa [insertedPhone, Systems.Call.withPhase, hrequest, hphase] using hinserted
          · obtain rfl : phone = p := by
              simpa [returnsPhone, Systems.Call.withPhase, hrequest] using hreturns
            simpa using hclear
  · rename_i hphase
    obtain rfl := Progress.proceed.inj h
    refine ⟨fun hinserted ↦ Or.inl ?_, fun hreturns ↦ Or.inl ?_⟩
    · simpa [insertedPhone, Systems.Call.withPhase, hrequest, hphase] using hinserted
    · simpa [returnsPhone, Systems.Call.withPhase, hrequest, hphase] using hreturns
  · split at h
    · cases h
    · obtain rfl := Progress.proceed.inj h
      exact hother (by simp [insertedPhone, Systems.Call.withPhase, hrequest])
        (by simp [returnsPhone, Systems.Call.withPhase, hrequest])
  · split at h
    · obtain rfl := Progress.proceed.inj h
      exact hother (by simp [insertedPhone, Systems.Call.withPhase, hrequest])
        (by simp [returnsPhone, Systems.Call.withPhase, hrequest])
    · cases h
  · exact absurd h hsession
  · split at h
    · cases h
    · exact absurd h hsession
  · cases h

theorem phoneStep_of_statement
    (hwaits : accountWaits calls db call.request call.phase = false)
    (h : accountStatement c db call.request call.phase r = .proceed phase) :
    PhoneStep db calls call phase r p := by
  cases hrequest : call.request with
  | createAccount userId phone =>
      rw [hrequest] at h
      exact phoneStep_createAccount hrequest hwaits h
  | createReviewSession userId phone sessionId token =>
      rw [hrequest] at h
      exact phoneStep_createReviewSession hrequest hwaits h
  | _ =>
      refine ⟨fun hinserted ↦ ?_, fun hreturns ↦ ?_⟩
      · simp [insertedPhone, Systems.Call.withPhase, hrequest] at hinserted
      · simp [returnsPhone, Systems.Call.withPhase, hrequest] at hreturns

end Proceeding

section Keys

variable {c : TokenCrypto} {s s' : AccountTraffic} {a : AccountStep} {p : List Char} {e : ℤ}

/-- What the unique key guarantees, the rows in flight included. -/
structure PhoneKeys (s : AccountTraffic) : Prop where
  unique : s.db.UniquePhones
  free : ∀ d ∈ s.calls, ∀ p, insertedPhone d = some p → s.db.hasPhone (.keyed p) = false
  exclusive : ∀ d ∈ s.calls, ∀ e ∈ s.calls, ∀ p, insertedPhone d = some p →
    insertedPhone e = some p → d = e

theorem phoneKeys_idle {db : AccountDb} (h : db.UniquePhones) : PhoneKeys (.idle db) where
  unique := h
  free d hd := absurd hd (Table.notMem_empty d)
  exclusive d hd := absurd hd (Table.notMem_empty d)

theorem notInserted_of_any {calls : List AccountCall} {db : AccountDb}
    (h : calls.any (keepsPhone db p) = false) : ∀ d ∈ calls, insertedPhone d ≠ some p := by
  intro d hd hinserted
  have hkept := List.any_eq_false.mp h d hd
  simp [keepsPhone, hinserted] at hkept

theorem PhoneKeys.next (h : PhoneKeys s) (henabled : (accountTraffic c).Enabled s a) :
    PhoneKeys ((accountTraffic c).next s a) := by
  have heffect := Protocol.effect_of_enabled henabled
  change PhoneKeys ((accountProtocol c).system.next s a)
  generalize (accountProtocol c).system.next s a = s' at heffect
  cases heffect with
  | began id q calls hinsert =>
      have hmem : ∀ d ∈ calls, ∀ p, insertedPhone d = some p → d ∈ s.calls := by
        intro d hd p hinserted
        rcases (Table.mem_insert hinsert).mp hd with rfl | hd
        · have hnone : insertedPhone ⟨id, q, .begun⟩ = none := by cases q <;> rfl
          exact absurd (hnone.symm.trans hinserted) nofun
        · exact hd
      exact ⟨h.unique, fun d hd p hp ↦ h.free d (hmem d hd p hp) p hp, fun d hd e he p hdp hep ↦
        h.exclusive d (hmem d hd p hdp) e (hmem e he p hep) p hdp hep⟩
  | left =>
      have hmem : ∀ d ∈ s.leave a.call, d ∈ s.calls := fun d hd ↦ (Traffic.mem_leave.mp hd).1
      exact ⟨h.unique, fun d hd ↦ h.free d (hmem d hd), fun d hd e he ↦
        h.exclusive d (hmem d hd) e (hmem e he)⟩
  | proceeded call clock phase hcall hwaits hstatement =>
      have hstep (p : List Char) := (phoneStep_of_statement (p := p) hwaits hstatement).inserted
      have hmem : ∀ d, d ∈ s.proceed call.id phase ↔
          d = call.withPhase phase ∨ d ∈ s.calls ∧ d.id ≠ call.id := fun d ↦
        Traffic.mem_proceed hcall
      have hother : ∀ p, insertedPhone (call.withPhase phase) = some p →
          ∀ d ∈ s.calls, d.id ≠ call.id → insertedPhone d ≠ some p := by
        intro p hp d hd hid hdp
        rcases hstep p hp with hbefore | ⟨_, hkept⟩
        · exact hid (congrArg Systems.Call.id (h.exclusive d hd call hcall p hdp hbefore))
        · exact notInserted_of_any hkept d hd hdp
      refine ⟨h.unique, ?_, ?_⟩
      · intro d hd p hp
        rcases (hmem d).mp hd with rfl | ⟨hd, _⟩
        · rcases hstep p hp with hbefore | ⟨hfree, _⟩
          · exact h.free call hcall p hbefore
          · exact hfree
        · exact h.free d hd p hp
      · intro d hd e he p hdp hep
        rcases (hmem d).mp hd with rfl | ⟨hd, hdid⟩ <;> rcases (hmem e).mp he with rfl | ⟨he, heid⟩
        · rfl
        · exact absurd hep (hother p hdp e he heid)
        · exact absurd hdp (hother p hep d hd hdid)
        · exact h.exclusive d hd e he p hdp hep
  | answered call clock result db hcall hwaits hstatement =>
      have hphones := (commits_of_statement hstatement).phones
      have hmem : ∀ d ∈ s.leave call.id, d ∈ s.calls ∧ d.id ≠ call.id := fun d hd ↦
        Traffic.mem_leave.mp hd
      refine ⟨hphones.unique h.unique, ?_, ?_⟩
      · intro d hd p hp
        obtain ⟨hd, hid⟩ := hmem d hd
        refine hphones.free (h.free d hd p hp) (Bool.eq_false_iff.mpr fun hreturns ↦ hid ?_)
        rw [h.exclusive d hd call hcall p hp (insertedPhone_of_returns hreturns)]
      · exact fun d hd e he ↦ h.exclusive d (hmem d hd).1 e (hmem e he).1

theorem phoneKeys_exec {db : AccountDb} {as : List AccountStep} (hunique : db.UniquePhones)
    (hvalid : (accountTraffic c).Valid (.idle db) as) :
    PhoneKeys ((accountTraffic c).exec (.idle db) as) :=
  hvalid.invariant (I := PhoneKeys) (phoneKeys_idle hunique) fun _ _ h henabled ↦ h.next henabled

end Keys

section Barred

variable {c : TokenCrypto} {s s' : AccountTraffic} {a : AccountStep} {as : List AccountStep}
  {p : List Char} {e : ℤ}

/-- The tombstone of the phone comes too late for the call: it has looked for
one and will insert, or has selected one and will delete it. -/
def overtakesTombstone (p : List Char) (call : AccountCall) : Bool :=
  match call.request, call.phase with
  | .createAccount _ phone, .cleared => phone = p
  | .cleanTombstones _ _ _, .selected phones => p ∈ phones
  | _, _ => false

/-- The instant that a request carries is before `e`. -/
def AccountRequest.IsBefore (e : ℤ) : AccountRequest → Prop
  | .cleanTombstones now _ _ => now < e
  | _ => True

/-- The instants of a step are before `e`. -/
def IsBefore (e : ℤ) : AccountStep → Prop
  | .begin _ request => request.IsBefore e
  | .advance _ r => r.token < e
  | _ => True

/-- The phone is kept out by a tombstone that stands until `e`. -/
structure Barred (p : List Char) (e : ℤ) (s : AccountTraffic) : Prop where
  tombstone : ∃ t, s.db.tombstones.find? p = some t ∧ e ≤ t.expiresAt
  absent : s.db.hasPhone (.keyed p) = false
  clear : ∀ d ∈ s.calls, returnsPhone p d = false
  quiet : ∀ d ∈ s.calls, overtakesTombstone p d = false
  timely : ∀ d ∈ s.calls, d.request.IsBefore e

theorem Barred.isTombstoned (h : Barred p e s) {now : ℤ} (hnow : now < e) :
    s.db.isTombstoned p now = true := by
  obtain ⟨t, ht, he⟩ := h.tombstone
  have hlive : now < t.expiresAt := by omega
  simp [AccountDb.isTombstoned, ht, hlive]

/-- A commit of another call leaves the tombstone of an absent phone. -/
theorem Commits.tombstone {db db' : AccountDb} {q : AccountRequest} {phase : AccountPhase}
    {r : Readings} {result : AccountOutcome} (h : Commits c db r q phase result db')
    (habsent : db.hasPhone (.keyed p) = false) {t : AccountTombstone}
    (ht : db.tombstones.find? p = some t)
    (hcleaned : ∀ now limit chosen phones, q = .cleanTombstones now limit chosen →
      phase = .selected phones → p ∉ phones) :
    db'.tombstones.find? p = some t := by
  cases h with
  | unchanged => exact ht
  | signedUp userId phone created _ hinsert =>
      obtain ⟨_, accounts, _, rfl⟩ := insertAccount_eq_some hinsert
      exact ht
  | reviewed => exact ht
  | adopted request user sessionId phone token identity db₁ s hinsert hsession =>
      obtain ⟨_, accounts, _, rfl⟩ := insertAccount_eq_some hinsert
      exact ht
  | session => exact ht
  | rotated => exact ht
  | webSession challengeId userId tokenHash _ hopen =>
      obtain ⟨webSessions, _, rfl⟩ := Option.map_eq_some_iff.mp hopen
      exact ht
  | ban targetId adminId user isBanned adminRole started row hrow hupdated =>
      rw [(setBan_accounts hupdated).2.2]
      exact ht
  | accepted => exact ht
  | anonymized userId user random started _ hanonymize =>
      unfold AccountDb.anonymizeUser at hanonymize
      split at hanonymize
      · cases hanonymize
      · obtain rfl := Option.some.inj hanonymize
        dsimp only
        split
        · exact ht
        · rename_i row hrow
          have hupsert := Table.find?_upsert (t := db.tombstones) (r := row) (k := p)
            (f := AccountTombstone.extend row.expiresAt) fun _ ↦ rfl
          refine hupsert.trans ?_
          rw [if_neg, ht]
          rintro rfl
          unfold AccountDb.tombstoneOf at hrow
          split at hrow
          · rename_i _ _ phone _ _ hfound
            obtain rfl := Option.some.inj hrow
            exact hasPhone_eq_false_iff.mp habsent _ (Table.find?_eq_some_iff.mp hfound).1 rfl
          · cases hrow
  | cleaned now limit chosen phones =>
      change (db.tombstones.delete _).find? p = some t
      have hphone : t.phoneNumberHash = p := (Table.find?_eq_some_iff.mp ht).2
      rw [Table.find?_delete, ht, Option.filter_some, if_pos]
      simp [hphone, hcleaned now limit chosen phones rfl rfl]

/-- A call that meets the tombstone does not overtake it. -/
theorem Barred.proceeds (h : Barred p e s) {call : AccountCall} {r : Readings} {phase : AccountPhase}
    (hcall : call ∈ s.calls) (hbefore : r.token < e)
    (hstatement : accountStatement c s.db call.request call.phase r = .proceed phase) :
    overtakesTombstone p (call.withPhase phase) = false := by
  rw [Bool.eq_false_iff]
  intro hovertakes
  have htimely := h.timely call hcall
  have hquiet := h.quiet call hcall
  obtain ⟨id, request, before⟩ := call
  cases request with
  | createAccount userId phone =>
      simp only [accountStatement] at hstatement
      unfold createAccountStatement at hstatement
      split at hstatement
      · split at hstatement
        · cases hstatement
        · rename_i hclear
          obtain rfl := Progress.proceed.inj hstatement
          obtain rfl : phone = p := by
            simpa [overtakesTombstone, Systems.Call.withPhase] using hovertakes
          exact hclear (h.isTombstoned hbefore)
      · split at hstatement
        · cases hstatement
        · obtain rfl := Progress.proceed.inj hstatement
          simp [overtakesTombstone, Systems.Call.withPhase] at hovertakes
      · split at hstatement <;> cases hstatement
      · cases hstatement
  | cleanTombstones now limit chosen =>
      simp only [accountStatement] at hstatement
      unfold cleanTombstonesStatement at hstatement
      split at hstatement
      · obtain rfl := Progress.proceed.inj hstatement
        have hselected : p ∈ (chosen.filter fun phone ↦
            (s.db.tombstones.find? phone).any fun t ↦ decide (t.expiresAt ≤ now)).take limit := by
          simpa [overtakesTombstone, Systems.Call.withPhase] using hovertakes
        obtain ⟨t, ht, hstands⟩ := h.tombstone
        have hexpired := (List.mem_filter.mp (List.mem_of_mem_take hselected)).2
        rw [ht, Option.any_some, decide_eq_true_eq] at hexpired
        have hnow : now < e := htimely
        omega
      · cases hstatement
      · cases hstatement
  | _ => simp [overtakesTombstone, Systems.Call.withPhase] at hovertakes

theorem Barred.next (h : Barred p e s) (henabled : (accountTraffic c).Enabled s a)
    (hbefore : IsBefore e a) : Barred p e ((accountTraffic c).next s a) := by
  have heffect := Protocol.effect_of_enabled henabled
  change Barred p e ((accountProtocol c).system.next s a)
  generalize (accountProtocol c).system.next s a = s' at heffect
  cases heffect with
  | began id q calls hinsert =>
      refine ⟨h.tombstone, h.absent, ?_, ?_, ?_⟩ <;> intro d hd <;>
        rcases (Table.mem_insert hinsert).mp hd with rfl | hd
      · cases q <;> rfl
      · exact h.clear d hd
      · cases q <;> rfl
      · exact h.quiet d hd
      · exact hbefore
      · exact h.timely d hd
  | left =>
      have hmem : ∀ d ∈ s.leave a.call, d ∈ s.calls := fun d hd ↦ (Traffic.mem_leave.mp hd).1
      exact ⟨h.tombstone, h.absent, fun d hd ↦ h.clear d (hmem d hd),
        fun d hd ↦ h.quiet d (hmem d hd), fun d hd ↦ h.timely d (hmem d hd)⟩
  | proceeded call clock phase hcall hwaits hstatement =>
      have hstep := (phoneStep_of_statement (p := p) hwaits hstatement).returns
      have htombstoned : s.db.isTombstoned p clock.token = true := h.isTombstoned hbefore
      refine ⟨h.tombstone, h.absent, ?_, ?_, ?_⟩ <;> intro d hd <;>
        rcases (Traffic.mem_proceed hcall).mp hd with rfl | ⟨hd, _⟩
      · by_contra hreturns
        rcases hstep (by simpa using hreturns) with hreturned | hclear |
          ⟨userId, hrequest, hphase, _⟩
        · rw [h.clear call hcall] at hreturned
          cases hreturned
        · rw [htombstoned] at hclear
          cases hclear
        · -- it has looked for the tombstone before the anonymization
          have hquiet := h.quiet call hcall
          unfold overtakesTombstone at hquiet
          rw [hrequest, hphase] at hquiet
          simp at hquiet
      · exact h.clear d hd
      · exact h.proceeds hcall hbefore hstatement
      · exact h.quiet d hd
      · exact h.timely call hcall
      · exact h.timely d hd
  | answered call clock result db hcall hwaits hstatement =>
      have hcommits := commits_of_statement hstatement
      obtain ⟨t, ht, he⟩ := h.tombstone
      have hcleaned : ∀ now limit chosen phones,
          call.request = .cleanTombstones now limit chosen → call.phase = .selected phones →
          p ∉ phones := by
        intro now limit chosen phones hrequest hphase hp
        have hquiet := h.quiet call hcall
        unfold overtakesTombstone at hquiet
        rw [hrequest, hphase] at hquiet
        exact absurd hp (of_decide_eq_false hquiet)
      have hmem : ∀ d ∈ s.leave call.id, d ∈ s.calls := fun d hd ↦ (Traffic.mem_leave.mp hd).1
      exact ⟨⟨t, hcommits.tombstone h.absent ht hcleaned, he⟩,
        hcommits.phones.free h.absent (h.clear call hcall), fun d hd ↦ h.clear d (hmem d hd),
        fun d hd ↦ h.quiet d (hmem d hd), fun d hd ↦ h.timely d (hmem d hd)⟩

theorem Barred.exec (h : Barred p e s) (hvalid : (accountTraffic c).Valid s as)
    (hbefore : ∀ a ∈ as, IsBefore e a) : Barred p e ((accountTraffic c).exec s as) := by
  induction as generalizing s with
  | nil => exact h
  | cons a as ih =>
      have hnext := h.next hvalid.1 (hbefore a List.mem_cons_self)
      exact ih hnext hvalid.2 fun b hb ↦ hbefore b (List.mem_cons_of_mem a hb)

/-- The anonymization of a banned account finds nobody at work on its phone. -/
theorem barred_of_anonymizeUser (call : AccountCall) (answers : List AccountAnswer)
    {user : Uuid} {random : List Char} {started : ℤ} {db' : AccountDb} {row : UserAccount}
    (hkeys : PhoneKeys s) (hrow : s.db.accounts.find? user = some row)
    (hphone : row.phoneNumberHash = .keyed p) (hbanned : row.isBanned = true)
    (h : s.db.anonymizeUser user random started = some db') :
    s.db.tombstoneOf user started = some ⟨p, Privacy.yearsBefore (-tombstoneYears) started⟩ ∧
    ∃ t, db'.tombstones.find? p = some t ∧
      Privacy.yearsBefore (-tombstoneYears) started ≤ t.expiresAt ∧
      ((∀ d ∈ s.calls, overtakesTombstone p d = false) →
        (∀ d ∈ s.calls, d.request.IsBefore t.expiresAt) →
        Barred p t.expiresAt ⟨db', s.leave call.id, answers⟩) := by
  have htombstone : s.db.tombstoneOf user started =
      some ⟨p, Privacy.yearsBefore (-tombstoneYears) started⟩ := by
    obtain ⟨_, _, phone, banned, _, _⟩ := row
    obtain rfl : phone = .keyed p := hphone
    obtain rfl : banned = true := hbanned
    unfold AccountDb.tombstoneOf
    rw [hrow]
  have hmem : row ∈ s.db.accounts := (Table.find?_eq_some_iff.mp hrow).1
  have hid : row.userId = user := (Table.find?_eq_some_iff.mp hrow).2
  have haccounts := (anonymizeUser_eq_some h).2.1
  have habsent : db'.hasPhone (.keyed p) = false := by
    rw [hasPhone_eq_false_iff, haccounts]
    intro a' ha' hcarries
    obtain ⟨a, ha, rfl⟩ := (Table.mem_modify (f := UserAccount.anonymize random started)
      (fun _ ↦ rfl)).mp ha'
    by_cases huser : a.userId = user
    · simp [huser, UserAccount.anonymize] at hcarries
    · have hcarried : a.phoneNumberHash = .keyed p := by simpa [huser] using hcarries
      have heq : a = row := hkeys.unique a ha row hmem (hcarried.trans hphone.symm)
      rw [heq] at huser
      exact huser hid
  have hclear : ∀ d ∈ s.leave call.id, returnsPhone p d = false := by
    intro d hd
    rw [Bool.eq_false_iff]
    intro hreturns
    have hfree := hkeys.free d (Traffic.mem_leave.mp hd).1 p (insertedPhone_of_returns hreturns)
    exact hasPhone_eq_false_iff.mp hfree row hmem hphone
  obtain ⟨t, ht, hle⟩ : ∃ t, db'.tombstones.find? p = some t ∧
      Privacy.yearsBefore (-tombstoneYears) started ≤ t.expiresAt := by
    have hupsert := Table.find?_upsert (t := s.db.tombstones) (k := p)
      (r := ⟨p, Privacy.yearsBefore (-tombstoneYears) started⟩)
      (f := AccountTombstone.extend (Privacy.yearsBefore (-tombstoneYears) started)) fun _ ↦ rfl
    rw [if_pos rfl] at hupsert
    unfold AccountDb.anonymizeUser at h
    split at h
    · cases h
    · obtain rfl := Option.some.inj h
      rw [htombstone]
      refine ⟨_, hupsert, ?_⟩
      cases s.db.tombstones.find? p with
      | none => exact le_rfl
      | some old => exact le_max_right _ _
  refine ⟨htombstone, t, ht, hle, fun hquiet htimely ↦ ⟨⟨t, ht, le_rfl⟩, habsent, hclear, ?_, ?_⟩⟩
  · exact fun d hd ↦ hquiet d (Traffic.mem_leave.mp hd).1
  · exact fun d hd ↦ htimely d (Traffic.mem_leave.mp hd).1

end Barred

section Runs

variable {c : TokenCrypto} {db : AccountDb} {as bs : List AccountStep}

/-- A session is for an account in use, also once its commit shows. -/
theorem Commits.issued_after {s : AccountTraffic} {call : AccountCall} {r : Readings}
    {result : AccountOutcome} {db' : AccountDb} {identity : MobileSessionIdentity}
    (h : Commits c s.db r call.request call.phase result db') (hguarded : Guarded s)
    (hcall : call ∈ s.calls) (hissued : result.issued = some identity) :
    ∃ row, db'.accounts.find? identity.userId = some row ∧ row.isBanned = false ∧
      row.deletedAt = none := by
  have hin := (h.issued hguarded hcall hissued).1
  generalize hrequest : call.request = q at h
  generalize hphase : call.phase = phase at h
  have hkept {db₁ : AccountDb} (haccounts : db₁.accounts = s.db.accounts)
      (hactive : s.db.store.lockActiveAccount identity.userId = true) :
      ∃ row, db₁.accounts.find? identity.userId = some row ∧ row.isBanned = false ∧
        row.deletedAt = none := by
    obtain ⟨row, hrow, hundeleted, hunbanned⟩ := lockActiveAccount_iff.mp hactive
    exact ⟨row, by rw [haccounts]; exact hrow, hunbanned, hundeleted⟩
  cases h with
  | unchanged _ _ _ hnone => rw [hnone] at hissued; cases hissued
  | signedUp => cases hissued
  | reviewed request user sessionId phone token identity' st hinsert =>
      obtain rfl := Option.some.inj hissued
      obtain ⟨rfl, _⟩ := find?_family_of_insertSession hinsert
      exact hkept rfl (hguarded.adopting call hcall user hphase)
  | adopted request user sessionId phone token identity' db₁ st hrow hinsert =>
      obtain rfl := Option.some.inj hissued
      obtain ⟨rfl, _⟩ := find?_family_of_insertSession hinsert
      obtain ⟨_, accounts, haccounts, rfl⟩ := insertAccount_eq_some hrow
      refine ⟨newAccount user phone true, ?_, rfl, rfl⟩
      exact (Table.find?_insert haccounts).trans (if_pos rfl)
  | session userId sessionId user started token identity' st hinsert =>
      obtain rfl := Option.some.inj hissued
      obtain ⟨rfl, _⟩ := find?_family_of_insertSession hinsert
      exact hkept rfl (hguarded.creating call hcall userId sessionId token user started hrequest
        hphase)
  | rotated jti hash next recovery user started rotation st hrotate =>
      exact hkept rfl (rotateInner_issued hrotate hissued).1
  | webSession => cases hissued
  | ban => cases hissued
  | accepted => cases hissued
  | anonymized => cases hissued
  | cleaned => cases hissued

/-- One account at most carries a phone, and a session is opened for an account
in use. After the anonymization of a banned account no account carries its
phone before the tombstone expires, when no call that was open at its commit
overtakes the tombstone. -/
theorem banned_phone_stays_out (c : TokenCrypto) (db : AccountDb) (as : List AccountStep)
    (hunique : db.UniquePhones) (hvalid : (accountTraffic c).Valid (.idle db) as) :
    ((accountTraffic c).exec (.idle db) as).db.UniquePhones ∧
    (∀ a, (accountTraffic c).Enabled ((accountTraffic c).exec (.idle db) as) a →
      ∃ new, ((accountTraffic c).next ((accountTraffic c).exec (.idle db) as) a).answers =
          new ++ ((accountTraffic c).exec (.idle db) as).answers ∧
        ∀ answer ∈ new, ∀ identity ∈ answer.result.issued, ∃ row,
          ((accountTraffic c).next ((accountTraffic c).exec (.idle db) as)
            a).db.accounts.find? identity.userId = some row ∧
          row.isBanned = false ∧ row.deletedAt = none) ∧
    ∀ id r user random tombstone row p,
      (accountTraffic c).Enabled ((accountTraffic c).exec (.idle db) as) (.advance id r) →
      ((accountTraffic c).next ((accountTraffic c).exec (.idle db) as) (.advance id r)).answers =
        ⟨.anonymize user random, .anonymized tombstone⟩ ::
          ((accountTraffic c).exec (.idle db) as).answers →
      ((accountTraffic c).exec (.idle db) as).db.accounts.find? user = some row →
      row.phoneNumberHash = .keyed p → row.isBanned = true →
      ∃ started t, tombstone = some ⟨p, Privacy.yearsBefore (-tombstoneYears) started⟩ ∧
        ((accountTraffic c).next ((accountTraffic c).exec (.idle db) as)
          (.advance id r)).db.tombstones.find? p = some t ∧
        Privacy.yearsBefore (-tombstoneYears) started ≤ t.expiresAt ∧
        ((∀ d ∈ ((accountTraffic c).exec (.idle db) as).calls, overtakesTombstone p d = false) →
        (∀ d ∈ ((accountTraffic c).exec (.idle db) as).calls, d.request.IsBefore t.expiresAt) →
        ∀ bs, (accountTraffic c).Valid ((accountTraffic c).next
            ((accountTraffic c).exec (.idle db) as) (.advance id r)) bs →
          (∀ b ∈ bs, IsBefore t.expiresAt b) →
          ∀ a ∈ ((accountTraffic c).exec ((accountTraffic c).next
            ((accountTraffic c).exec (.idle db) as) (.advance id r)) bs).db.accounts,
            a.phoneNumberHash ≠ .keyed p) := by
  have hguarded := guarded_exec hvalid
  have hkeys := phoneKeys_exec hunique hvalid
  generalize (accountTraffic c).exec (.idle db) as = s at hguarded hkeys
  refine ⟨hkeys.unique, fun a henabled ↦ ?_, ?_⟩
  · have heffect := Protocol.effect_of_enabled henabled
    change Protocol.Effect (accountProtocol c) s a ((accountTraffic c).next s a) at heffect
    generalize (accountTraffic c).next s a = s' at heffect ⊢
    cases heffect with
    | began => exact ⟨[], rfl, nofun⟩
    | left => exact ⟨[], rfl, nofun⟩
    | proceeded => exact ⟨[], rfl, nofun⟩
    | answered call clock result db' hcall hwaits hstatement =>
        refine ⟨[⟨call.request, result⟩], rfl, fun answer hanswer identity hissued ↦ ?_⟩
        obtain rfl := List.mem_singleton.mp hanswer
        exact (commits_of_statement hstatement).issued_after hguarded hcall hissued
  · intro id r user random tombstone row p henabled hanswers hrow hphone hbanned
    have heffect := Protocol.effect_of_enabled henabled
    change Protocol.Effect (accountProtocol c) s (.advance id r)
      ((accountTraffic c).next s (.advance id r)) at heffect
    generalize (accountTraffic c).next s (.advance id r) = s' at heffect hanswers ⊢
    generalize hstep : CallStep.advance id r = step at heffect
    cases heffect with
    | began => cases hstep
    | left => exact absurd hanswers (List.cons_ne_self _ _).symm
    | proceeded => exact absurd hanswers (List.cons_ne_self _ _).symm
    | answered call clock result db' hcall hwaits hstatement =>
        obtain ⟨hanswer, _⟩ := List.cons.inj hanswers
        obtain ⟨hrequest, hresult⟩ := Answer.mk.inj hanswer
        have hcommits := commits_of_statement hstatement
        have hnamed := hguarded.named call hcall
        rw [hrequest, hresult] at hcommits
        generalize hphase : call.phase = phase at hcommits
        generalize hanonymized : AccountOutcome.anonymized tombstone = outcome at hcommits
        cases hcommits with
        | unchanged _ _ _ _ hrefusal => simp [← hanonymized] at hrefusal
        | anonymized _ user' _ started _ hanonymize =>
            obtain rfl := AccountOutcome.anonymized.inj hanonymized
            obtain rfl : user = user' := by
              refine hnamed user' started (Or.inr hphase) user ?_
              rw [hrequest]
              rfl
            obtain ⟨htombstone, t, ht, hle, hbarred⟩ := barred_of_anonymizeUser call
              (⟨call.request, result⟩ :: s.answers) hkeys hrow hphone hbanned hanonymize
            refine ⟨started, t, htombstone, ht, hle, fun hquiet htimely bs hvalidAfter hbefore ↦ ?_⟩
            exact hasPhone_eq_false_iff.mp
              ((hbarred hquiet htimely).exec hvalidAfter hbefore).absent

end Runs

section Banned

/-- A banned member whose erasure was accepted, and the tombstone that an
earlier account with the phone left. -/
def bannedDb (tombstones : Table AccountTombstone.phoneNumberHash) : AccountDb where
  accounts := ⟨[⟨1, .user, .keyed ['p'], true, some 0, false⟩], by simp⟩
  tombstones := tombstones
  otpRequests := []
  erasures := [1]
  families := ∅
  tokens := ∅
  challenges := ∅
  webSessions := ∅

def anonymizes (times : List ℤ) : List AccountStep :=
  .begin 1 (.anonymize 1 ['r']) :: advances 1 times

/-- The theorem above at an erasure and a sign-up that comes too early. -/
theorem banned_phone_stays_out_refused :
    ((accountTraffic transparentCrypto).exec (.idle (bannedDb ∅))
      (anonymizes [1, 2, 3] ++ .begin 2 (.createAccount 2 ['p']) :: advances 2 [4])).answers.map
        Answer.result = [.refused, .anonymized (some ⟨['p'], 94694400000001⟩)] ∧
    ∀ a ∈ ((accountTraffic transparentCrypto).exec ((accountTraffic transparentCrypto).next
      ((accountTraffic transparentCrypto).exec (.idle (bannedDb ∅)) (anonymizes [1, 2]))
      (.advance 1 (readAt 3))) (.begin 2 (.createAccount 2 ['p']) :: advances 2 [4])).db.accounts,
      a.phoneNumberHash ≠ .keyed ['p'] := by
  have hvalid : (accountTraffic transparentCrypto).Valid (.idle (bannedDb ∅))
      (anonymizes [1, 2]) := by decide +kernel
  obtain ⟨_, _, hstays⟩ := banned_phone_stays_out transparentCrypto (bannedDb ∅)
    (anonymizes [1, 2]) (by decide +kernel) hvalid
  obtain ⟨started, t, htombstone, _, hle, hout⟩ := hstays 1 (readAt 3) 1 ['r']
    (some ⟨['p'], 94694400000001⟩) ⟨1, .user, .keyed ['p'], true, some 0, false⟩ ['p']
    (by decide +kernel) (by decide +kernel) (by decide +kernel) rfl rfl
  have hcalls : ∀ d ∈ ((accountTraffic transparentCrypto).exec (.idle (bannedDb ∅))
      (anonymizes [1, 2])).calls.rows, d.request = .anonymize 1 ['r'] := by decide +kernel
  have hexpiry : (94694400000001 : ℤ) ≤ t.expiresAt := by
    rwa [← (AccountTombstone.mk.inj (Option.some.inj htombstone)).2] at hle
  refine ⟨by decide +kernel, hout ?_ ?_ _ (by decide +kernel) ?_⟩
  · intro d hd
    unfold overtakesTombstone
    rw [hcalls d hd]
  · intro d hd
    rw [hcalls d hd]
    trivial
  · intro b hb
    rcases List.mem_cons.mp hb with rfl | hb
    · trivial
    · obtain rfl := List.mem_singleton.mp hb
      change (4 : ℤ) < t.expiresAt
      omega

/-- A sign-up that looked for a tombstone before the anonymization inserts
after it. -/
def signUpAcrossErasure : List AccountStep :=
  .begin 2 (.createAccount 2 ['p']) :: advances 2 [0] ++ anonymizes [1, 2, 3] ++ advances 2 [4, 5]

/-- A clean-up that selected the expired tombstone deletes the renewed one. -/
def cleanUpAcrossErasure : List AccountStep :=
  .begin 3 (.cleanTombstones 0 100 [['p']]) :: advances 3 [0] ++ anonymizes [1, 2, 3] ++
    advances 3 [4] ++ .begin 2 (.createAccount 2 ['p']) :: advances 2 [5, 6, 7]

theorem banned_phone_comes_back :
    (accountTraffic transparentCrypto).Valid (.idle (bannedDb ∅)) signUpAcrossErasure ∧
      ((accountTraffic transparentCrypto).exec (.idle (bannedDb ∅))
        signUpAcrossErasure).answers.map Answer.result =
          [.signedUp 2 5, .anonymized (some ⟨['p'], 94694400000001⟩)] ∧
      ((accountTraffic transparentCrypto).exec (.idle (bannedDb ∅))
        signUpAcrossErasure).db.isTombstoned ['p'] 5 = true ∧
      ((accountTraffic transparentCrypto).exec (.idle (bannedDb ∅))
        signUpAcrossErasure).db.hasPhone (.keyed ['p']) = true ∧
      (accountTraffic transparentCrypto).Valid (.idle (bannedDb ⟨[⟨['p'], 0⟩], by simp⟩))
        cleanUpAcrossErasure ∧
      ((accountTraffic transparentCrypto).exec (.idle (bannedDb ⟨[⟨['p'], 0⟩], by simp⟩))
        cleanUpAcrossErasure).answers.map Answer.result =
          [.signedUp 2 7, .cleaned, .anonymized (some ⟨['p'], 94694400000001⟩)] ∧
      ((accountTraffic transparentCrypto).exec (.idle (bannedDb ⟨[⟨['p'], 0⟩], by simp⟩))
        cleanUpAcrossErasure).db.hasPhone (.keyed ['p']) = true := by
  refine ⟨?_, ?_, ?_, ?_, ?_, ?_, ?_⟩ <;> decide +kernel

end Banned

end Histae.Identity
