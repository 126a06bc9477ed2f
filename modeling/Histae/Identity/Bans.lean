import Histae.Identity.AccountEffects

/-!
# A ban ends the sessions

Whoever holds the lock of an account row is alone with it, so what a login has
checked still holds where it inserts, and a ban sees every session that was
opened before. The sessions that a ban has revoked stay revoked, or their
account is deleted for good.
-/

namespace Histae.Identity

open Relational Systems

section Locks

variable {c : TokenCrypto} {s s' : AccountTraffic} {a : AccountStep} {call : AccountCall}

/-- What the locks of the calls in flight guarantee. -/
structure Guarded (s : AccountTraffic) : Prop where
  named : ∀ d ∈ s.calls, ∀ u started, d.phase = .waiting u started ∨ d.phase = .locked u started →
    ∀ x ∈ d.request.account, x = u
  exclusive : ∀ d ∈ s.calls, ∀ e ∈ s.calls, ∀ u, lockedAccount d = some u →
    lockedAccount e = some u → d = e
  creating : ∀ d ∈ s.calls, ∀ userId sessionId token user started,
    d.request = .create userId sessionId token → d.phase = .locked user started →
    s.db.store.lockActiveAccount userId = true
  adopting : ∀ d ∈ s.calls, ∀ user, d.phase = .adopted user false →
    s.db.store.lockActiveAccount user = true

theorem guarded_idle (db : AccountDb) : Guarded (.idle db) := by
  refine ⟨?_, ?_, ?_, ?_⟩ <;> intro d hd <;> exact absurd hd (Table.notMem_empty d)

theorem accountWaits_waiting (calls : List AccountCall) (db : AccountDb) (q : AccountRequest)
    (u : Uuid) (started : ℤ) :
    accountWaits calls db q (.waiting u started) = calls.any (holdsAccount u) := by
  cases q <;> rfl

theorem accountWaits_chosen (calls : List AccountCall) (db : AccountDb) (q : AccountRequest)
    (u : Uuid) : accountWaits calls db q (.chosen u) = calls.any (holdsAccount u) := by
  cases q <;> rfl

theorem not_holds_of_any {u : Uuid} (h : s.calls.rows.any (holdsAccount u) = false) :
    ∀ d ∈ s.calls, lockedAccount d ≠ some u := by
  intro d hd hlocked
  have hheld := List.any_eq_false.mp h d hd
  simp [holdsAccount, hlocked] at hheld

/-- A call whose phase changes; the tables and the other calls stay. -/
theorem Guarded.proceed (h : Guarded s) (hcall : call ∈ s.calls) {phase : AccountPhase}
    (hlocks : Locks s.db call.request call.phase phase)
    (hwaits : accountWaits s.calls.rows s.db call.request call.phase = false) :
    Guarded { s with calls := s.proceed call.id phase } := by
  have hmem : ∀ d, d ∈ s.proceed call.id phase ↔
      d = call.withPhase phase ∨ d ∈ s.calls ∧ d.id ≠ call.id := fun d ↦
    Traffic.mem_proceed hcall
  have hfree : ∀ u, lockedAccount (call.withPhase phase) = some u →
      ∀ d ∈ s.calls, lockedAccount d ≠ some u := by
    intro u hlocked
    generalize hbefore : call.phase = before at hlocks hwaits
    cases hlocks with
    | waiting user started hnamed => cases hlocked
    | locked user started hactive =>
        obtain rfl := Option.some.inj hlocked
        rw [accountWaits_waiting] at hwaits
        exact not_holds_of_any hwaits
    | adopted user hactive =>
        obtain rfl := Option.some.inj hlocked
        rw [accountWaits_chosen] at hwaits
        exact not_holds_of_any hwaits
    | other _ _ hwaiting hlock hadopted =>
        unfold lockedAccount Systems.Call.withPhase at hlocked
        split at hlocked
        · rename_i user started hphase
          exact absurd hphase (hlock user started)
        · rename_i user hphase
          exact absurd hphase (hadopted user)
        · cases hlocked
  refine ⟨?_, ?_, ?_, ?_⟩
  · intro d hd u started hphase x hx
    rcases (hmem d).mp hd with rfl | ⟨hd, _⟩
    · have hphase : phase = .waiting u started ∨ phase = .locked u started := hphase
      generalize hbefore : call.phase = before at hlocks
      cases hlocks with
      | waiting user started' hnamed =>
          rcases hphase with heq | heq
          · obtain ⟨rfl, rfl⟩ := AccountPhase.waiting.inj heq
            exact hnamed x hx
          · cases heq
      | locked user started' hactive =>
          rcases hphase with heq | heq
          · cases heq
          · obtain ⟨rfl, rfl⟩ := AccountPhase.locked.inj heq
            exact h.named call hcall _ _ (Or.inl hbefore) x hx
      | adopted user hactive => rcases hphase with heq | heq <;> cases heq
      | other _ _ hwaiting hlock hadopted =>
          rcases hphase with heq | heq
          · exact absurd heq (hwaiting u started)
          · exact absurd heq (hlock u started)
    · exact h.named d hd u started hphase x hx
  · intro d hd e he u hdu heu
    rcases (hmem d).mp hd with rfl | ⟨hd, hdid⟩ <;> rcases (hmem e).mp he with rfl | ⟨he, heid⟩
    · rfl
    · exact absurd heu (hfree u hdu e he)
    · exact absurd hdu (hfree u heu d hd)
    · exact h.exclusive d hd e he u hdu heu
  · intro d hd userId sessionId token user started hrequest hphase
    rcases (hmem d).mp hd with rfl | ⟨hd, _⟩
    · have hphase : phase = .locked user started := hphase
      have hrequest : call.request = .create userId sessionId token := hrequest
      generalize hbefore : call.phase = before at hlocks
      cases hlocks with
      | waiting user' started' hnamed => cases hphase
      | locked user' started' hactive => exact hactive _ _ _ hrequest
      | adopted user' hactive => cases hphase
      | other _ _ hwaiting hlock hadopted => exact absurd hphase (hlock user started)
    · exact h.creating d hd userId sessionId token user started hrequest hphase
  · intro d hd user hphase
    rcases (hmem d).mp hd with rfl | ⟨hd, _⟩
    · have hphase : phase = .adopted user false := hphase
      generalize hbefore : call.phase = before at hlocks
      cases hlocks with
      | waiting user' started' hnamed => cases hphase
      | locked user' started' hactive => cases hphase
      | adopted user' hactive =>
          obtain ⟨rfl, _⟩ := AccountPhase.adopted.inj hphase
          exact hactive
      | other _ _ hwaiting hlock hadopted => exact absurd hphase (hadopted user)
    · exact h.adopting d hd user hphase

/-- Fewer calls on other tables, as far as the calls ask. -/
theorem Guarded.shrink (h : Guarded s) {db : AccountDb}
    {calls : Table (Systems.Call.id : AccountCall → ℕ)} {answers : List AccountAnswer}
    (hcalls : ∀ d ∈ calls, d ∈ s.calls)
    (haccounts : ∀ d ∈ calls, ∀ u, lockedAccount d = some u →
      s.db.store.lockActiveAccount u = true → db.store.lockActiveAccount u = true) :
    Guarded ⟨db, calls, answers⟩ where
  named d hd := h.named d (hcalls d hd)
  exclusive d hd e he := h.exclusive d (hcalls d hd) e (hcalls e he)
  creating d hd userId sessionId token user started hrequest hphase := by
    have hactive := h.creating d (hcalls d hd) userId sessionId token user started hrequest hphase
    have huser : userId = user := by
      refine h.named d (hcalls d hd) user started (Or.inr hphase) userId ?_
      rw [hrequest]
      rfl
    have hlocked : lockedAccount d = some userId := by
      unfold lockedAccount
      rw [hphase, huser]
    exact haccounts d hd userId hlocked hactive
  adopting d hd user hphase := by
    have hlocked : lockedAccount d = some user := by
      unfold lockedAccount
      rw [hphase]
    exact haccounts d hd user hlocked (h.adopting d (hcalls d hd) user hphase)

theorem Guarded.next (h : Guarded s) (henabled : (accountTraffic c).Enabled s a) :
    Guarded ((accountTraffic c).next s a) := by
  have heffect := Protocol.effect_of_enabled henabled
  change Guarded ((accountProtocol c).system.next s a)
  generalize (accountProtocol c).system.next s a = s' at heffect
  cases heffect with
  | began id q calls hinsert =>
      have hmem : ∀ d ∈ calls, d = ⟨id, q, .begun⟩ ∨ d ∈ s.calls := fun d hd ↦
        (Table.mem_insert hinsert).mp hd
      refine ⟨?_, ?_, ?_, ?_⟩
      · intro d hd u started hphase x hx
        rcases hmem d hd with rfl | hd
        · rcases hphase with hphase | hphase <;> cases hphase
        · exact h.named d hd u started hphase x hx
      · intro d hd e he u hdu heu
        rcases hmem d hd with rfl | hd
        · cases hdu
        rcases hmem e he with rfl | he
        · cases heu
        exact h.exclusive d hd e he u hdu heu
      · intro d hd userId sessionId token user started hrequest hphase
        rcases hmem d hd with rfl | hd
        · cases hphase
        · exact h.creating d hd userId sessionId token user started hrequest hphase
      · intro d hd user hphase
        rcases hmem d hd with rfl | hd
        · cases hphase
        · exact h.adopting d hd user hphase
  | left =>
      exact h.shrink (fun d hd ↦ (Traffic.mem_leave.mp hd).1) fun _ _ _ _ hactive ↦ hactive
  | proceeded call clock phase hcall hwaits hstatement =>
      exact h.proceed hcall (locks_of_statement hstatement) hwaits
  | answered call clock result db hcall hwaits hstatement =>
      have hcommits := commits_of_statement hstatement
      refine h.shrink (fun d hd ↦ (Traffic.mem_leave.mp hd).1) fun d hd u hlocked hactive ↦ ?_
      obtain ⟨hd, hid⟩ := Traffic.mem_leave.mp hd
      obtain ⟨row, hrow, hundeleted, hunbanned⟩ := lockActiveAccount_iff.mp hactive
      obtain ⟨row', hrow', _, hsame⟩ := hcommits.account
        (fun u started hphase ↦ h.named call hcall u started (Or.inr hphase)) hrow
      rcases hsame with rfl | ⟨started, hphase⟩
      · exact lockActiveAccount_iff.mpr ⟨row', hrow', hundeleted, hunbanned⟩
      · have hcallLocked : lockedAccount call = some u := by
          unfold lockedAccount
          rw [hphase]
        exact absurd (congrArg Systems.Call.id (h.exclusive d hd call hcall u hlocked hcallLocked))
          hid

theorem guarded_exec {db : AccountDb} {as : List AccountStep}
    (hvalid : (accountTraffic c).Valid (.idle db) as) :
    Guarded ((accountTraffic c).exec (.idle db) as) :=
  hvalid.invariant (I := Guarded) (guarded_idle db) fun _ _ h henabled ↦ h.next henabled

end Locks

section Issuing

variable {c : TokenCrypto} {s : AccountTraffic} {call : AccountCall} {r : Readings}
  {result : AccountOutcome} {db' : AccountDb} {identity : MobileSessionIdentity}

/-- A rotation hands out a session of an account in use, and the session is
active. -/
theorem rotateInner_issued {st st' : Store} {jti : Uuid} {hash : List Char}
    {next : NewRefreshToken} {recovery : Option RefreshRecovery} {rotation : RefreshRotation}
    (h : st.rotateInner c r jti hash next recovery = .ok (rotation, st'))
    (hissued : (AccountOutcome.rotation rotation).issued = some identity) :
    st.lockActiveAccount identity.userId = true ∧
      st.activeFamily r.family identity.userId identity.sessionId = true := by
  have hlocked : ∀ t, st.tokens.rows.find? (fun q ↦ q.jti = jti) = some t →
      st.lockActiveAccount t.userId = true := by
    intro t hfind
    cases hlock : st.lockToken r.token jti hash none (recovery.map RefreshRecovery.requestHash) with
    | none =>
        simp only [Store.rotateInner, hlock] at h
        obtain ⟨rfl, _⟩ := Prod.mk.inj (Except.ok.inj h)
        cases hissued
    | some token =>
        obtain ⟨hfound, _, _, _, _, hactive⟩ := Store.lockToken_eq_some hlock
        rw [hfound] at hfind
        obtain rfl := Option.some.inj hfind
        exact hactive
  have hcases := Store.rotateInner_rotation c st r jti hash next recovery
  rw [h] at hcases
  cases hcases with
  | invalid => cases hissued
  | recovered hfind _ _ hactive _ _ _ =>
      obtain rfl := Option.some.inj hissued
      exact ⟨hlocked _ hfind, hactive⟩
  | replayed => cases hissued
  | rotated hfind _ _ _ hactive _ =>
      obtain rfl := Option.some.inj hissued
      exact ⟨hlocked _ hfind, hactive⟩

theorem find?_family_of_insertSession {st st' : Store} {userId sessionId : Uuid}
    {token : NewRefreshToken}
    (h : st.insertSession c userId sessionId token = .ok (identity, st')) :
    identity = ⟨userId, sessionId⟩ ∧ st.families.find? sessionId = none := by
  obtain ⟨families, hinsert, _, rfl⟩ := Store.insertSession_eq_ok h
  exact ⟨rfl, (Table.insert?_eq_some_iff.mp hinsert).1⟩

/-- A session is issued for an account in use, or together with its account;
and it is a new session or an active one. -/
theorem Commits.issued (h : Commits c s.db r call.request call.phase result db')
    (hguarded : Guarded s) (hcall : call ∈ s.calls) (hissued : result.issued = some identity) :
    (s.db.store.lockActiveAccount identity.userId = true ∨
      s.db.accounts.find? identity.userId = none) ∧
    (s.db.families.find? identity.sessionId = none ∨
      s.db.store.activeFamily r.family identity.userId identity.sessionId = true) := by
  generalize hrequest : call.request = q at h
  generalize hphase : call.phase = phase at h
  cases h with
  | unchanged _ _ _ hnone => rw [hnone] at hissued; cases hissued
  | signedUp => cases hissued
  | reviewed request user sessionId phone token identity' st hinsert =>
      obtain rfl := Option.some.inj hissued
      obtain ⟨rfl, hfree⟩ := find?_family_of_insertSession hinsert
      exact ⟨Or.inl (hguarded.adopting call hcall user hphase), Or.inl hfree⟩
  | adopted request user sessionId phone token identity' db₁ st hrow hinsert =>
      obtain rfl := Option.some.inj hissued
      obtain ⟨rfl, hfree⟩ := find?_family_of_insertSession hinsert
      obtain ⟨_, accounts, haccounts, rfl⟩ := insertAccount_eq_some hrow
      exact ⟨Or.inr (Table.insert?_eq_some_iff.mp haccounts).1, Or.inl hfree⟩
  | session userId sessionId user started token identity' st hinsert =>
      obtain rfl := Option.some.inj hissued
      obtain ⟨rfl, hfree⟩ := find?_family_of_insertSession hinsert
      exact ⟨Or.inl (hguarded.creating call hcall userId sessionId token user started hrequest
        hphase), Or.inl hfree⟩
  | rotated jti hash next recovery user started rotation st hrotate =>
      obtain ⟨hactive, hfamily⟩ := rotateInner_issued hrotate hissued
      exact ⟨Or.inl hactive, Or.inr hfamily⟩
  | webSession => cases hissued
  | ban => cases hissued
  | accepted => cases hissued
  | anonymized => cases hissued
  | cleaned => cases hissued

end Issuing

section Dead

variable {c : TokenCrypto} {db db' : AccountDb} {q : AccountRequest} {phase : AccountPhase}
  {r : Readings} {result : AccountOutcome} {u sid : Uuid}

/-- The session is revoked, or its account is deleted. -/
def Dead (db : AccountDb) (u sid : Uuid) : Prop :=
  ∃ a, db.accounts.find? u = some a ∧ (a.deletedAt.isSome = true ∨
    ∃ f ∈ db.families, f.id = sid ∧ f.userId = u ∧ f.revocation.isSome = true)

theorem find?_modify_account_self {a : UserAccount} {f : UserAccount → UserAccount}
    (hf : ∀ a, (f a).userId = a.userId) (ha : db.accounts.find? u = some a) :
    (db.accounts.modify (fun b ↦ b.userId = u) f hf).find? u = some (f a) := by
  have hid : a.userId = u := (Table.find?_eq_some_iff.mp ha).2
  rw [Table.find?_modify hf, ha, Option.map_some, if_pos (decide_eq_true hid)]

/-- Revoked sessions stay as they are unless their account is deleted. -/
theorem Commits.revoked (h : Commits c db r q phase result db')
    {f : Family} (hf : f ∈ db.families) (hrevoked : f.revocation.isSome = true)
    (hrow : (db.accounts.find? f.userId).isSome = true) :
    (∃ f' ∈ db'.families, f'.id = f.id ∧ f'.userId = f.userId ∧ f'.revocation.isSome = true) ∨
      ∃ a, db'.accounts.find? f.userId = some a ∧ a.deletedAt.isSome = true := by
  obtain ⟨a, ha⟩ := Option.isSome_iff_exists.mp hrow
  have hsame : ∃ f' ∈ db.families, f'.id = f.id ∧ f'.userId = f.userId ∧
      f'.revocation.isSome = true := ⟨f, hf, rfl, rfl, hrevoked⟩
  have hrevokeFamilies (now : ℤ) (userId : Uuid) (reason : RevocationReason)
      (target : Option Uuid) : ∃ f' ∈ (db.store.revokeFamilies now userId reason target).families,
      f'.id = f.id ∧ f'.userId = f.userId ∧ f'.revocation.isSome = true := by
    refine ⟨_, Store.mem_families_revokeFamilies.mpr ⟨f, hf, rfl⟩, ?_⟩
    split
    · exact ⟨rfl, rfl, rfl⟩
    · exact ⟨rfl, rfl, hrevoked⟩
  cases h with
  | unchanged => exact Or.inl hsame
  | signedUp userId phone created _ hinsert =>
      obtain ⟨_, accounts, _, rfl⟩ := insertAccount_eq_some hinsert
      exact Or.inl hsame
  | reviewed request user sessionId phone token identity st hinsert =>
      exact Or.inl ⟨f, Store.mem_families_insertSession hinsert hf, rfl, rfl, hrevoked⟩
  | adopted request user sessionId phone token identity db₁ st haccount hinsert =>
      obtain ⟨_, accounts, _, rfl⟩ := insertAccount_eq_some haccount
      exact Or.inl ⟨f, Store.mem_families_insertSession hinsert hf, rfl, rfl, hrevoked⟩
  | session userId sessionId user started token identity st hinsert =>
      exact Or.inl ⟨f, Store.mem_families_insertSession hinsert hf, rfl, rfl, hrevoked⟩
  | rotated jti hash next recovery user started rotation st hrotate =>
      have hcases := Store.rotateInner_rotation c db.store r jti hash next recovery
      rw [hrotate] at hcases
      cases hcases with
      | invalid => exact Or.inl hsame
      | recovered => exact Or.inl hsame
      | replayed => exact Or.inl (hrevokeFamilies ..)
      | @rotated t inserted _ _ _ _ _ hinsert =>
          obtain ⟨_, hfamilies, _⟩ := Store.insertToken_eq_ok hinsert
          have hkept : f ∈ inserted.families := by
            rw [hfamilies]
            exact hf
          refine Or.inl ⟨_, (Table.mem_modify (f := fun q : Family ↦
            { q with lastRefreshedAt := r.write, expiresAt := next.expiresAt }) fun _ ↦ rfl).mpr
            ⟨f, hkept, rfl⟩, ?_⟩
          split <;> exact ⟨rfl, rfl, hrevoked⟩
  | webSession challengeId userId tokenHash _ hopen =>
      obtain ⟨webSessions, _, rfl⟩ := Option.map_eq_some_iff.mp hopen
      exact Or.inl hsame
  | ban targetId adminId user isBanned adminRole started row _ hupdated =>
      obtain ⟨_, hfamilies, _⟩ := setBan_accounts hupdated
      rw [hfamilies]
      cases isBanned with
      | true => exact Or.inl (hrevokeFamilies ..)
      | false => exact Or.inl hsame
  | accepted userId user started =>
      by_cases huser : f.userId = userId
      · subst huser
        exact Or.inr ⟨a.delete r.write,
          find?_modify_account_self (f := UserAccount.delete r.write) (fun _ ↦ rfl) ha, rfl⟩
      · exact Or.inl ⟨f, Table.mem_delete.mpr ⟨hf, by simpa using huser⟩, rfl, rfl, hrevoked⟩
  | anonymized userId user random started _ hanonymize =>
      obtain ⟨_, haccounts, hfamilies⟩ := anonymizeUser_eq_some hanonymize
      rw [haccounts, hfamilies]
      by_cases huser : f.userId = user
      · subst huser
        exact Or.inr ⟨a.anonymize random started,
          find?_modify_account_self (f := UserAccount.anonymize random started) (fun _ ↦ rfl) ha, rfl⟩
      · exact Or.inl ⟨f, Table.mem_delete.mpr ⟨hf, by simpa using huser⟩, rfl, rfl, hrevoked⟩
  | cleaned => exact Or.inl hsame

theorem Dead.commit (h : Dead db u sid) (hcommits : Commits c db r q phase result db')
    (hnamed : ∀ w started, phase = .locked w started → ∀ x ∈ q.account, x = w) :
    Dead db' u sid := by
  obtain ⟨a, ha, hdead⟩ := h
  obtain ⟨a', ha', hdeleted, _⟩ := hcommits.account hnamed ha
  rcases hdead with hdead | ⟨f, hf, rfl, rfl, hrevoked⟩
  · exact ⟨a', ha', Or.inl (hdeleted hdead)⟩
  · have hrow : (db.accounts.find? f.userId).isSome = true := by
      rw [ha]
      rfl
    rcases hcommits.revoked hf hrevoked hrow with ⟨f', hf', hid, huser, hrevoked'⟩ |
      ⟨b, hb, hgone⟩
    · exact ⟨a', ha', Or.inr ⟨f', hf', hid, huser, hrevoked'⟩⟩
    · exact ⟨b, hb, Or.inl hgone⟩

theorem Dead.not_active (h : Dead db u sid) (now : ℤ) :
    db.findUndeleted u = none ∨ db.store.activeFamily now u sid = false := by
  obtain ⟨a, ha, hdead | ⟨f, hf, rfl, rfl, hrevoked⟩⟩ := h
  · refine Or.inl ?_
    unfold AccountDb.findUndeleted
    rw [ha, Option.filter_some, if_neg]
    simpa using Option.isSome_iff_ne_none.mp hdead
  · refine Or.inr (Bool.eq_false_iff.mpr fun hactive ↦ ?_)
    obtain ⟨g, hg, hgid, _, hnone, _⟩ := Store.activeFamily_iff.mp hactive
    obtain rfl := Table.eq_of_key_eq hf hg hgid.symm
    rw [hnone] at hrevoked
    cases hrevoked

theorem Dead.authenticate (h : Dead db u sid) (now : ℤ) :
    db.authenticate u sid now ≠ .authenticated := by
  unfold AccountDb.authenticate
  rcases h.not_active now with hnone | hinactive
  · rw [hnone]
    exact nofun
  · rw [hinactive]
    simp

end Dead

section Runs

variable {c : TokenCrypto} {s : AccountTraffic} {a : AccountStep} {u sid : Uuid}

theorem Dead.next (h : Dead s.db u sid) (hguarded : Guarded s)
    (henabled : (accountTraffic c).Enabled s a) :
    Dead ((accountTraffic c).next s a).db u sid ∧
      ∃ new, ((accountTraffic c).next s a).answers = new ++ s.answers ∧
        ∀ answer ∈ new, answer.result.issued ≠ some ⟨u, sid⟩ := by
  have heffect := Protocol.effect_of_enabled henabled
  change Dead ((accountProtocol c).system.next s a).db u sid ∧
    ∃ new, ((accountProtocol c).system.next s a).answers = new ++ s.answers ∧ _
  generalize (accountProtocol c).system.next s a = s' at heffect
  cases heffect with
  | began => exact ⟨h, [], rfl, nofun⟩
  | left => exact ⟨h, [], rfl, nofun⟩
  | proceeded => exact ⟨h, [], rfl, nofun⟩
  | answered call clock result db hcall hwaits hstatement =>
      have hcommits := commits_of_statement hstatement
      refine ⟨h.commit hcommits fun w started hphase ↦
        hguarded.named call hcall w started (Or.inr hphase), [⟨call.request, result⟩], rfl, ?_⟩
      intro answer hanswer hissued
      obtain rfl := List.mem_singleton.mp hanswer
      obtain ⟨haccount, hfamily⟩ := hcommits.issued hguarded hcall hissued
      obtain ⟨row, hrow, hdead⟩ := h
      rcases haccount with hactive | hnone
      · obtain ⟨row', hrow', hundeleted, _⟩ := lockActiveAccount_iff.mp hactive
        have heq : row = row' := Option.some.inj (hrow.symm.trans hrow')
        rw [heq, hundeleted] at hdead
        rcases hdead with hdead | ⟨f, hf, rfl, rfl, hrevoked⟩
        · cases hdead
        · rcases hfamily with hfree | hactive
          · exact Table.find?_eq_none_iff.mp hfree f hf rfl
          · obtain ⟨g, hg, hgid, _, hnone, _⟩ := Store.activeFamily_iff.mp hactive
            obtain rfl := Table.eq_of_key_eq hf hg hgid.symm
            rw [hnone] at hrevoked
            cases hrevoked
      · rw [hrow] at hnone
        cases hnone

/-- A session that is dead is never accepted again. -/
theorem Dead.exec {as : List AccountStep} (h : Dead s.db u sid) (hguarded : Guarded s)
    (hvalid : (accountTraffic c).Valid s as) :
    Dead ((accountTraffic c).exec s as).db u sid ∧
      ∃ new, ((accountTraffic c).exec s as).answers = new ++ s.answers ∧
        ∀ answer ∈ new, answer.result.issued ≠ some ⟨u, sid⟩ := by
  induction as generalizing s with
  | nil => exact ⟨h, [], rfl, nofun⟩
  | cons a as ih =>
      obtain ⟨henabled, hrest⟩ := hvalid
      obtain ⟨hdead, new, hnew, hunissued⟩ := h.next hguarded henabled
      obtain ⟨hlast, later, hlater, hunissued'⟩ := ih hdead (hguarded.next henabled) hrest
      refine ⟨hlast, later ++ new, ?_, ?_⟩
      · rw [System.exec_cons, hlater, hnew, List.append_assoc]
      · intro answer hanswer
        rcases List.mem_append.mp hanswer with hanswer | hanswer
        · exact hunissued' answer hanswer
        · exact hunissued answer hanswer

def Banned (db : AccountDb) (u : Uuid) : Prop :=
  ∃ a, db.accounts.find? u = some a ∧ a.isBanned = true

/-- Nothing is accepted or issued for the account. -/
structure Shut (c : TokenCrypto) (s : AccountTraffic) (u : Uuid) : Prop where
  mobile : ∀ sid now, s.db.authenticate u sid now ≠ .authenticated
  web : ∀ tokenHash now, s.db.identity tokenHash now ≠ some u
  issued : ∀ a, (accountTraffic c).Enabled s a →
    ∃ new, ((accountTraffic c).next s a).answers = new ++ s.answers ∧
      ∀ answer ∈ new, ∀ identity ∈ answer.result.issued, identity.userId ≠ u

theorem Banned.shut (h : Banned s.db u) (hguarded : Guarded s) : Shut c s u where
  mobile sid now := by
    obtain ⟨row, hrow, hbanned⟩ := h
    unfold AccountDb.authenticate
    split
    · exact nofun
    · rename_i a hfound
      obtain ⟨hundeleted, _⟩ := Option.filter_eq_some_iff.mp hfound
      have heq : row = a :=
        Option.some.inj (hrow.symm.trans (Option.filter_eq_some_iff.mp hundeleted).1)
      rw [← heq, hbanned]
      exact nofun
  web tokenHash now := by
    obtain ⟨row, hrow, hbanned⟩ := h
    intro hidentity
    obtain ⟨session, hfound, rfl⟩ := Option.map_eq_some_iff.mp hidentity
    obtain ⟨_, hlive⟩ := Option.filter_eq_some_iff.mp hfound
    simp [hrow, hbanned] at hlive
  issued a henabled := by
    have heffect := Protocol.effect_of_enabled henabled
    change ∃ new, ((accountProtocol c).system.next s a).answers = new ++ s.answers ∧ _
    generalize (accountProtocol c).system.next s a = s' at heffect
    cases heffect with
    | began => exact ⟨[], rfl, nofun⟩
    | left => exact ⟨[], rfl, nofun⟩
    | proceeded => exact ⟨[], rfl, nofun⟩
    | answered call clock result db hcall hwaits hstatement =>
        refine ⟨[⟨call.request, result⟩], rfl, ?_⟩
        rintro answer hanswer identity hissued rfl
        obtain rfl := List.mem_singleton.mp hanswer
        obtain ⟨row, hrow, hbanned⟩ := h
        rcases ((commits_of_statement hstatement).issued hguarded hcall hissued).1 with
          hactive | hnone
        · obtain ⟨row', hrow', _, hunbanned⟩ := lockActiveAccount_iff.mp hactive
          obtain rfl := Option.some.inj (hrow.symm.trans hrow')
          rw [hbanned] at hunbanned
          cases hunbanned
        · rw [hrow] at hnone
          cases hnone

/-- The session is refused from here on, whatever comes. -/
def Refused (c : TokenCrypto) (s : AccountTraffic) (u sid : Uuid) : Prop :=
  ∀ bs, (accountTraffic c).Valid s bs →
    (∀ now, ((accountTraffic c).exec s bs).db.authenticate u sid now ≠ .authenticated) ∧
    ∃ new, ((accountTraffic c).exec s bs).answers = new ++ s.answers ∧
      ∀ answer ∈ new, answer.result.issued ≠ some ⟨u, sid⟩

theorem dead_of_setBan {db : AccountDb} {adminId : Uuid} {adminRole : AdminRole} {now : ℤ}
    {row : UserAccount} {f : Family} (hrow : db.findUndeleted u = some row)
    (h : (db.setBan u true adminId adminRole now).1 = .updated) (hf : f ∈ db.families)
    (huser : f.userId = u) : Dead (db.setBan u true adminId adminRole now).2 u f.id := by
  obtain ⟨haccounts, hfamilies, _⟩ := setBan_accounts h
  have hfound := (Option.filter_eq_some_iff.mp hrow).1
  refine ⟨row.ban true, ?_, Or.inr ?_⟩
  · rw [haccounts]
    exact find?_modify_account_self (f := UserAccount.ban true) (fun _ ↦ rfl) hfound
  · rw [hfamilies]
    refine ⟨_, Store.mem_families_revokeFamilies.mpr ⟨f, hf, rfl⟩, ?_⟩
    by_cases hrevoked : f.revocation.isSome = true
    · have hkept : Store.revokes u none f = false := by
        have hnone : f.revocation.isNone = false := by
          rw [← Option.not_isSome, hrevoked]
          rfl
        simp only [Store.revokes, hnone, Bool.and_false, Bool.false_and]
      rw [hkept]
      exact ⟨rfl, huser, hrevoked⟩
    · have hrevokes : Store.revokes u none f = true := by
        simp [Store.revokes, huser, Option.not_isSome_iff_eq_none.mp hrevoked]
      rw [hrevokes]
      exact ⟨rfl, huser, rfl⟩

/-- While an account is banned nothing is accepted or issued for it, and when
a ban commits, nobody else is at work on the account and every session that
was opened is refused for good, a later unban included. -/
theorem ban_ends_sessions (c : TokenCrypto) (db : AccountDb) (as : List AccountStep) (u : Uuid)
    (hvalid : (accountTraffic c).Valid (.idle db) as) :
    (Banned ((accountTraffic c).exec (.idle db) as).db u →
      Shut c ((accountTraffic c).exec (.idle db) as) u) ∧
    ∀ id r adminId adminRole,
      (accountTraffic c).Enabled ((accountTraffic c).exec (.idle db) as) (.advance id r) →
      ((accountTraffic c).next ((accountTraffic c).exec (.idle db) as) (.advance id r)).answers =
        ⟨.setBan u true adminId adminRole, .ban .updated⟩ ::
          ((accountTraffic c).exec (.idle db) as).answers →
      (∀ d ∈ ((accountTraffic c).exec (.idle db) as).calls, d.id ≠ id →
        lockedAccount d ≠ some u) ∧
      ∀ f ∈ ((accountTraffic c).exec (.idle db) as).db.families, f.userId = u →
        Refused c ((accountTraffic c).next ((accountTraffic c).exec (.idle db) as)
          (.advance id r)) u f.id := by
  have hguarded := guarded_exec hvalid
  generalize (accountTraffic c).exec (.idle db) as = s at hguarded
  refine ⟨fun hbanned ↦ hbanned.shut hguarded, fun id r adminId adminRole henabled hanswers ↦ ?_⟩
  have hafter : Guarded ((accountTraffic c).next s (.advance id r)) := hguarded.next henabled
  have heffect := Protocol.effect_of_enabled henabled
  change Protocol.Effect (accountProtocol c) s (.advance id r)
    ((accountTraffic c).next s (.advance id r)) at heffect
  generalize (accountTraffic c).next s (.advance id r) = s' at heffect hanswers hafter ⊢
  generalize hstep : CallStep.advance id r = step at heffect
  cases heffect with
  | began => cases hstep
  | left => exact absurd hanswers (List.cons_ne_self _ _).symm
  | proceeded => exact absurd hanswers (List.cons_ne_self _ _).symm
  | answered call clock result db' hcall hwaits hstatement =>
      obtain ⟨hanswer, _⟩ := List.cons.inj hanswers
      obtain ⟨hrequest, hresult⟩ := Answer.mk.inj hanswer
      obtain ⟨hid, _⟩ := CallStep.advance.inj hstep
      have hcommits := commits_of_statement hstatement
      have hnamed := hguarded.named call hcall
      rw [hrequest, hresult] at hcommits
      generalize hphase : call.phase = phase at hcommits
      cases hcommits with
      | unchanged _ _ _ _ hrefusal => simp at hrefusal
      | ban _ _ user _ _ started row hrow hupdated =>
          have huser : u = user := by
            refine hnamed user started (Or.inr hphase) u ?_
            rw [hrequest]
            rfl
          have hlocked : lockedAccount call = some u := by
            unfold lockedAccount
            rw [hphase, huser]
          refine ⟨fun d hd hother hlock ↦ ?_, fun f hf hfuser ↦ ?_⟩
          · rw [hguarded.exclusive d hd call hcall u hlock hlocked] at hother
            exact hother hid.symm
          · have hdead := dead_of_setBan hrow hupdated hf hfuser
            intro bs hvalidAfter
            obtain ⟨hlast, hissued⟩ := Dead.exec hdead hafter hvalidAfter
            exact ⟨hlast.authenticate, hissued⟩

end Runs

section Members

/-- A member with a challenge for the web. -/
def memberDb : AccountDb where
  accounts := ⟨[⟨1, .user, .keyed ['p'], false, none, false⟩], by simp⟩
  tombstones := ∅
  otpRequests := []
  erasures := []
  families := ∅
  tokens := ∅
  challenges := ⟨[⟨50, some 1, ['p'], 0, false, minutes 10⟩], by simp⟩
  webSessions := ∅

def advances (id : ℕ) (times : List ℤ) : List AccountStep :=
  times.map fun t ↦ .advance id (readAt t)

/-- A login, and a ban up to its lock. -/
def loginThenBan : List AccountStep :=
  .begin 1 (.create 1 10 (newToken 1 (days 30))) :: advances 1 [1, 2, 3] ++
    .begin 2 (.setBan 1 true 9 .admin) :: advances 2 [4, 5]

/-- The theorem above at a login, a ban and an unban. -/
theorem ban_ends_sessions_loginThenBan :
    ((accountTraffic transparentCrypto).next
      ((accountTraffic transparentCrypto).exec (.idle memberDb) loginThenBan)
      (.advance 2 (readAt 6))).answers.map Answer.result =
        [.ban .updated, .session ⟨1, 10⟩] ∧
      Refused transparentCrypto ((accountTraffic transparentCrypto).next
        ((accountTraffic transparentCrypto).exec (.idle memberDb) loginThenBan)
        (.advance 2 (readAt 6))) 1 10 := by
  have hvalid : (accountTraffic transparentCrypto).Valid (.idle memberDb) loginThenBan := by
    decide +kernel
  have hfamily : ((accountTraffic transparentCrypto).exec (.idle memberDb)
      loginThenBan).db.families.rows.any (fun f ↦ f.id = 10 ∧ f.userId = 1) = true := by
    decide +kernel
  obtain ⟨f, hf, heq⟩ := List.any_eq_true.mp hfamily
  obtain ⟨hid, huser⟩ := of_decide_eq_true heq
  have hrefused := ((ban_ends_sessions transparentCrypto memberDb loginThenBan 1 hvalid).2 2
    (readAt 6) 9 .admin (by decide +kernel) (by decide +kernel)).2 f hf huser
  rw [hid] at hrefused
  exact ⟨by decide +kernel, hrefused⟩

/-- A web session is opened, a login begins, and the member is banned. -/
def sleepingSessions : List AccountStep :=
  .begin 1 (.openWebSession 50 1 ['w']) :: advances 1 [1, 2, 3] ++
    .begin 2 (.create 1 10 (newToken 1 (days 30))) ::
    .begin 3 (.setBan 1 true 9 .admin) :: advances 3 [4, 5, 6]

def unbanAndLogin : List AccountStep :=
  .begin 4 (.setBan 1 false 9 .admin) :: advances 4 [7, 8, 9] ++ advances 2 [10, 11, 12]

/-- An unban lets the web session back in, and the login that began before the
ban opens its session after it. -/
theorem sleeping_sessions_awake :
    (accountTraffic transparentCrypto).Valid (.idle memberDb) (sleepingSessions ++ unbanAndLogin) ∧
      ((accountTraffic transparentCrypto).exec (.idle memberDb) sleepingSessions).answers.map
        Answer.result = [.ban .updated, .webSession true] ∧
      ((accountTraffic transparentCrypto).exec (.idle memberDb)
        sleepingSessions).calls.rows.map Systems.Call.request =
          [.create 1 10 (newToken 1 (days 30))] ∧
      ((accountTraffic transparentCrypto).exec (.idle memberDb)
        (sleepingSessions ++ unbanAndLogin)).db.identity ['w'] 13 = some 1 ∧
      ((accountTraffic transparentCrypto).exec (.idle memberDb)
        (sleepingSessions ++ unbanAndLogin)).db.authenticate 1 10 13 = .authenticated := by
  refine ⟨?_, ?_, ?_, ?_, ?_⟩ <;> decide +kernel

end Members

end Histae.Identity
