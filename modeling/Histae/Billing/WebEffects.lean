import Histae.Billing.WebChallenges

/-!
# What the steps of web billing do

Every step of a call takes its row from one phase to the next, and this module
says once what else it does. The invariants follow: the records of the
challenges, the attempts that a challenge has left, the sessions it has opened
and the codes that the store of the one-time codes holds.
-/

namespace Histae.Billing

open Relational Systems Mobile

variable {h : CodeHash} {w w' : WebBilling} {a : WebStep}

section Effects

/-- Everything a step can do. -/
inductive WebEffect (h : CodeHash) (w : WebBilling) : WebStep → WebBilling → Prop
  | skip (a : WebStep) : WebEffect h w a w
  | request (a : RequestStep) : WebEffect h w (.request a) (w.requestNext h a)
  | accounts (accounts : WebAccounts) : WebEffect h w (.changeAccounts accounts) { w with accounts }
  | sent (challengeId : Uuid) (r : ChallengeRequest) (code : List Char) (deliveryId : Uuid)
      (times : SendTimes) (sends : List (Uuid × ChallengeRequest)) :
      WebEffect h w (.sendCode challengeId code deliveryId times)
        { w.generate h (some challengeId) r.phone r.language challengeId code deliveryId times with
          sends }
  | sentMobile (phone : List Char) (language : Mobile.Language) (key : Uuid) (code : List Char)
      (deliveryId : Uuid) (times : SendTimes) :
      WebEffect h w (.sendMobileCode phone language key code deliveryId times)
        (w.generate h none phone language key code deliveryId times)
  | reported (call : OtpCall) : WebEffect h w (.report call) { w with otp := w.otp.next call }
  | purged (kept : Uuid → Bool) : WebEffect h w (.purgeCodes kept)
      { w with otp := { w.otp with rows := w.otp.rows.delete fun r ↦ !kept r.id } }
  | loggedIn (phone code : List Char) (blocked : Bool) (now : ℤ) :
      WebEffect h w (.login phone code blocked now) (w.consumeCode h none phone code blocked now).2
  | began (call : VerifyCall) (calls : Table VerifyCall.callId)
      (hinsert : w.calls.insert? { call with phase := .started } = some calls) :
      WebEffect h w (.verify call.callId call.challengeId call.phone call.code) { w with calls }
  | closed (a : WebStep) (call : VerifyCall) (hcall : call ∈ w.calls)
      (hphase : ∀ userId, call.phase ≠ .attempted userId) :
      WebEffect h w a { w with calls := w.move call.callId .answered }
  | wasted (call : VerifyCall) (now : ℤ) (challenges : ChallengeTable) (hcall : call ∈ w.calls)
      (hphase : call.phase = .started)
      (hbegin : beginVerify w.challenges call.challengeId (h.hmac call.phone) now =
        some (challenges, none)) :
      WebEffect h w (.beginVerify call.callId now)
        { w with challenges, calls := w.move call.callId .answered }
  | attempted (call : VerifyCall) (now : ℤ) (challenges : ChallengeTable) (userId : Uuid)
      (hcall : call ∈ w.calls) (hphase : call.phase = .started)
      (hbegin : beginVerify w.challenges call.challengeId (h.hmac call.phone) now =
        some (challenges, some userId)) :
      WebEffect h w (.beginVerify call.callId now)
        { w with challenges, calls := w.move call.callId (.attempted userId) }
  | examined (call : VerifyCall) (blocked : Bool) (now : ℤ) (userId : Uuid) (phase : VerifyPhase)
      (hcall : call ∈ w.calls) (hphase : call.phase = .attempted userId)
      (hnext : phase = .accepted userId ∨ phase = .answered) :
      WebEffect h w (.examine call.callId blocked now)
        { (w.consumeCode h (some call.challengeId) call.phone call.code blocked now).2 with
          examined := call.challengeId :: w.examined
          calls := w.move call.callId phase }
  | checked (call : VerifyCall) (now : ℤ) (userId : Uuid) (account : WebAccount)
      (hcall : call ∈ w.calls) (hphase : call.phase = .accepted userId)
      (haccount : activeAccount w.accounts userId = some account) :
      WebEffect h w (.checkAccount call.callId now)
        { w with calls := w.move call.callId (.checked userId account) }
  | opened (call : VerifyCall) (tokenHash : String) (now : ℤ) (userId : Uuid) (account : WebAccount)
      (sessions : Table WebBillingSession.tokenHash) (hcall : call ∈ w.calls)
      (hphase : call.phase = .checked userId account)
      (hconsumable : isConsumable w.challenges call.challengeId userId now = true) :
      WebEffect h w (.openSession call.callId tokenHash now)
        { w with
          sessions
          challenges := w.challenges.modify (fun c ↦ c.id = call.challengeId)
            WebBillingChallenge.consume WebBillingChallenge.id_consume
          calls := w.move call.callId .answered
          opened := ⟨call.challengeId, userId, call.phone, account⟩ :: w.opened }

theorem next_effect (h : CodeHash) (w : WebBilling) (a : WebStep) : WebEffect h w a (w.next h a) := by
  cases a with
  | request a => exact .request a
  | changeAccounts accounts => exact .accounts accounts
  | sendCode challengeId code deliveryId times =>
      unfold WebBilling.next
      dsimp only
      split
      · exact .skip _
      · exact .sent _ _ _ _ _ _
  | sendMobileCode phone language key code deliveryId times => exact .sentMobile ..
  | report call => exact .reported call
  | purgeCodes kept => exact .purged kept
  | login phone code blocked now => exact .loggedIn ..
  | verify callId challengeId phone code =>
      unfold WebBilling.next
      dsimp only
      cases hinsert : w.calls.insert? ⟨callId, challengeId, phone, code, .started⟩ with
      | none => exact .skip _
      | some calls => exact .began ⟨callId, challengeId, phone, code, .started⟩ calls hinsert
  | beginVerify callId now =>
      unfold WebBilling.next
      dsimp only
      split
      · rename_i hfound
        obtain ⟨hcall, rfl⟩ := Table.find?_eq_some_iff.mp hfound
        split
        · exact .closed _ _ hcall (by simp)
        · rename_i hbegin
          exact .wasted _ now _ hcall rfl hbegin
        · rename_i hbegin
          exact .attempted _ now _ _ hcall rfl hbegin
      · exact .skip _
  | examine callId blocked now =>
      unfold WebBilling.next
      dsimp only
      split
      · rename_i hfound
        obtain ⟨hcall, rfl⟩ := Table.find?_eq_some_iff.mp hfound
        refine .examined _ blocked now _ _ hcall rfl ?_
        split
        · exact Or.inl rfl
        · exact Or.inr rfl
      · exact .skip _
  | checkAccount callId now =>
      unfold WebBilling.next
      dsimp only
      split
      · rename_i hfound
        obtain ⟨hcall, rfl⟩ := Table.find?_eq_some_iff.mp hfound
        split
        · exact .closed _ _ hcall (by simp)
        · rename_i haccount
          exact .checked _ now _ _ hcall rfl (Option.filter_eq_some_iff.mp haccount).1
      · exact .skip _
  | openSession callId tokenHash now =>
      unfold WebBilling.next
      dsimp only
      split
      · rename_i hfound
        obtain ⟨hcall, rfl⟩ := Table.find?_eq_some_iff.mp hfound
        split
        · rename_i hconsumable
          split
          · exact .closed _ _ hcall (by simp)
          · exact .opened _ tokenHash now _ _ _ hcall rfl hconsumable
        · exact .closed _ _ hcall (by simp)
      · exact .skip _

end Effects

section Records

variable {challenges challenges' : ChallengeTable} {created : List Creation} {issued : List Uuid}
  {answers : List (ChallengeRequest × Except WebBillingError ChallengeView)}

/-- The row is that of the creation, except for its attempts and its consumption. -/
structure Records (h : CodeHash) (r : Creation) (c : WebBillingChallenge) : Prop where
  id : r.id = c.id
  key : c.idempotencyKey = r.request.key
  requestedUserId : c.requestedUserId = r.request.userId
  phoneHash : c.phoneHash = h.hmac r.request.phone
  language : c.language = r.request.language
  expiresAt : c.expiresAt = r.expiresAt
  userId : c.userId = r.account.map WebAccount.userId

structure ChallengeRecords (h : CodeHash) (challenges : ChallengeTable) (created : List Creation)
    (issued : List Uuid)
    (answers : List (ChallengeRequest × Except WebBillingError ChallengeView)) : Prop where
  keys : ∀ c ∈ challenges, ∀ d ∈ challenges, c.idempotencyKey = d.idempotencyKey → c = d
  recorded : ∀ c ∈ challenges, ∃ r ∈ created, Records h r c
  drawn : ∀ r ∈ created, r.id ∈ issued
  distinct : (created.map Creation.id).Nodup
  matched : ∀ r ∈ created, ∀ a ∈ r.account, a.userId = r.request.userId ∧
    a.phoneNumberHash = h.hmac r.request.phone ∧ a.active = true
  answers : ∀ p ∈ answers, ∀ view, p.2 = .ok view →
    ∃ r ∈ created, r.id = view.challengeId ∧ r.request = p.1 ∧ r.expiresAt = view.expiresAt

/-- The row is the old one, perhaps with another attempt or consumed. -/
structure Stays (c c' : WebBillingChallenge) : Prop where
  id : c'.id = c.id
  key : c'.idempotencyKey = c.idempotencyKey
  requestedUserId : c'.requestedUserId = c.requestedUserId
  phoneHash : c'.phoneHash = c.phoneHash
  language : c'.language = c.language
  expiresAt : c'.expiresAt = c.expiresAt
  userId : c'.userId = c.userId
  attempts : c.attempts ≤ c'.attempts
  consumed : c.consumed = true → c'.consumed = true

theorem Stays.refl (c : WebBillingChallenge) : Stays c c :=
  ⟨rfl, rfl, rfl, rfl, rfl, rfl, rfl, le_rfl, fun h ↦ h⟩

theorem Records.stay {r : Creation} {c c' : WebBillingChallenge} (hr : Records h r c)
    (hstays : Stays c c') : Records h r c' :=
  ⟨hr.id.trans hstays.id.symm, hstays.key.trans hr.key,
    hstays.requestedUserId.trans hr.requestedUserId, hstays.phoneHash.trans hr.phoneHash,
    hstays.language.trans hr.language, hstays.expiresAt.trans hr.expiresAt,
    hstays.userId.trans hr.userId⟩

/-- Every row stays or goes. -/
def Remain (challenges challenges' : ChallengeTable) : Prop :=
  ∀ c' ∈ challenges', ∃ c ∈ challenges, Stays c c'

theorem Remain.refl (challenges : ChallengeTable) : Remain challenges challenges :=
  fun c hc ↦ ⟨c, hc, Stays.refl c⟩

theorem remain_delete (challenges : ChallengeTable) (p : WebBillingChallenge → Bool) :
    Remain challenges (challenges.delete p) :=
  fun c hc ↦ ⟨c, (Table.mem_delete.mp hc).1, Stays.refl c⟩

theorem remain_modify {p : WebBillingChallenge → Bool} {f : WebBillingChallenge → WebBillingChallenge}
    (hf : ∀ c, (f c).id = c.id) (hstays : ∀ c, Stays c (f c)) :
    Remain challenges (challenges.modify p f hf) := by
  intro c' hc'
  obtain ⟨c, hc, rfl⟩ := (Table.mem_modify hf).mp hc'
  refine ⟨c, hc, ?_⟩
  split
  · exact hstays c
  · exact Stays.refl c

theorem stays_attempt (c : WebBillingChallenge) : Stays c c.attempt :=
  ⟨rfl, rfl, rfl, rfl, rfl, rfl, rfl, Nat.le_succ _, fun h ↦ h⟩

theorem stays_consume (c : WebBillingChallenge) : Stays c c.consume :=
  ⟨rfl, rfl, rfl, rfl, rfl, rfl, rfl, le_rfl, fun _ ↦ rfl⟩

theorem beginVerify_eq_some {id : Uuid} {phoneHash : String} {now : ℤ} {user : Option Uuid}
    (hbegin : beginVerify challenges id phoneHash now = some (challenges', user)) :
    ∃ c ∈ challenges, c.id = id ∧ c.phoneHash = phoneHash ∧ c.consumed = false ∧ c.attempts < 5 ∧
      c.userId = user ∧ challenges' = challenges.modify (fun c ↦ c.id = id)
        WebBillingChallenge.attempt WebBillingChallenge.id_attempt := by
  obtain ⟨c, hfiltered, heq⟩ := Option.map_eq_some_iff.mp hbegin
  obtain ⟨hfound, hpasses⟩ := Option.filter_eq_some_iff.mp hfiltered
  obtain ⟨hc, hid⟩ := Table.find?_eq_some_iff.mp hfound
  obtain ⟨rfl, rfl⟩ := Prod.mk.inj heq
  simp only [Bool.and_eq_true, Bool.not_eq_true', decide_eq_true_eq] at hpasses
  exact ⟨c, hc, hid, hpasses.1.1.1, hpasses.1.1.2, hpasses.1.2, rfl, rfl⟩

theorem remain_beginVerify {id : Uuid} {phoneHash : String} {now : ℤ} {user : Option Uuid}
    (hbegin : beginVerify challenges id phoneHash now = some (challenges', user)) :
    Remain challenges challenges' := by
  obtain ⟨_, _, _, _, _, _, _, rfl⟩ := beginVerify_eq_some hbegin
  exact remain_modify _ stays_attempt

theorem isConsumable_iff {id userId : Uuid} {now : ℤ} :
    isConsumable challenges id userId now = true ↔
      ∃ c ∈ challenges, c.id = id ∧ c.userId = some userId ∧ c.consumed = false ∧ now < c.expiresAt := by
  unfold isConsumable
  rw [Option.any_eq_true]
  constructor
  · rintro ⟨c, hfound, hpasses⟩
    obtain ⟨hc, hid⟩ := Table.find?_eq_some_iff.mp hfound
    simp only [Bool.and_eq_true, Bool.not_eq_true', decide_eq_true_eq] at hpasses
    exact ⟨c, hc, hid, hpasses.1.1, hpasses.1.2, hpasses.2⟩
  · rintro ⟨c, hc, hid, huser, hconsumed, hnow⟩
    exact ⟨c, Table.find?_eq_some_iff.mpr ⟨hc, hid⟩, by simp [huser, hconsumed, hnow]⟩

theorem ChallengeRecords.remain (hw : ChallengeRecords h challenges created issued answers)
    (hremain : Remain challenges challenges') (new : List Uuid) :
    ChallengeRecords h challenges' created (new ++ issued) answers where
  keys c' hc' d' hd' hkey := by
    obtain ⟨c, hc, hstays⟩ := hremain c' hc'
    obtain ⟨d, hd, hstays'⟩ := hremain d' hd'
    obtain rfl := hw.keys c hc d hd (hstays.key.symm.trans (hkey.trans hstays'.key))
    exact Table.eq_of_key_eq hc' hd' (hstays.id.trans hstays'.id.symm)
  recorded c' hc' := by
    obtain ⟨c, hc, hstays⟩ := hremain c' hc'
    obtain ⟨r, hr, hrecords⟩ := hw.recorded c hc
    exact ⟨r, hr, hrecords.stay hstays⟩
  drawn r hr := List.mem_append_right _ (hw.drawn r hr)
  distinct := hw.distinct
  matched := hw.matched
  answers := hw.answers

/-- What a creation that is not a replay does. -/
theorem createChallenge_eq_some {accounts : WebAccounts} {r : ChallengeRequest} {id : Uuid} {now : ℤ}
    (hcreate : createChallenge h accounts challenges r id now = some challenges') :
    challenges.insert? (newChallenge h accounts r id now) = some challenges' ∧
      ∀ c ∈ challenges, c.idempotencyKey ≠ r.key := by
  unfold createChallenge at hcreate
  split at hcreate
  · cases hcreate
  · rename_i habsent
    refine ⟨hcreate, fun c hc hkey ↦ habsent ?_⟩
    exact List.any_eq_true.mpr ⟨c, hc, decide_eq_true hkey⟩

theorem matchedAccount_eq_some {accounts : WebAccounts} {r : ChallengeRequest} {account : WebAccount}
    (hmatched : matchedAccount h accounts r = some account) :
    account ∈ accounts ∧ account.userId = r.userId ∧ account.phoneNumberHash = h.hmac r.phone ∧
      account.active = true := by
  obtain ⟨hfound, hpasses⟩ := Option.filter_eq_some_iff.mp hmatched
  obtain ⟨haccount, hid⟩ := Table.find?_eq_some_iff.mp hfound
  simp only [Bool.and_eq_true, decide_eq_true_eq] at hpasses
  exact ⟨haccount, hid, hpasses.1, hpasses.2⟩

theorem ChallengeRecords.create (hw : ChallengeRecords h challenges created issued answers)
    {accounts : WebAccounts} {r : ChallengeRequest} {id : Uuid} {now : ℤ} (hid : id ∉ issued)
    (hcreate : createChallenge h accounts challenges r id now = some challenges') :
    ChallengeRecords h challenges' (⟨id, r, now + minutes 10, matchedAccount h accounts r⟩ :: created)
      (id :: issued) ((r, .ok (challengeView id (now + minutes 10))) :: answers) := by
  obtain ⟨hinsert, hkey⟩ := createChallenge_eq_some hcreate
  constructor
  · intro c hc d hd hsame
    rcases (Table.mem_insert hinsert).mp hc with rfl | hc
    · rcases (Table.mem_insert hinsert).mp hd with rfl | hd
      · rfl
      · exact absurd hsame.symm (hkey d hd)
    · rcases (Table.mem_insert hinsert).mp hd with rfl | hd
      · exact absurd hsame (hkey c hc)
      · exact hw.keys c hc d hd hsame
  · intro c hc
    rcases (Table.mem_insert hinsert).mp hc with rfl | hc
    · exact ⟨_, List.mem_cons_self, rfl, rfl, rfl, rfl, rfl, rfl, rfl⟩
    · obtain ⟨q, hq, hrecords⟩ := hw.recorded c hc
      exact ⟨q, List.mem_cons_of_mem _ hq, hrecords⟩
  · refine List.forall_mem_cons.mpr ⟨List.mem_cons_self, fun q hq ↦ ?_⟩
    exact List.mem_cons_of_mem _ (hw.drawn q hq)
  · rw [List.map_cons, List.nodup_cons]
    refine ⟨fun hmem ↦ ?_, hw.distinct⟩
    obtain ⟨q, hq, hsame⟩ := List.mem_map.mp hmem
    have hdrawn := hw.drawn q hq
    rw [hsame] at hdrawn
    exact hid hdrawn
  · refine List.forall_mem_cons.mpr ⟨fun a ha ↦ ?_, hw.matched⟩
    exact (matchedAccount_eq_some ha).2
  · refine List.forall_mem_cons.mpr ⟨fun view hview ↦ ?_, fun p hp view hview ↦ ?_⟩
    · obtain rfl := Except.ok.inj hview
      exact ⟨_, List.mem_cons_self, rfl, rfl, rfl⟩
    · obtain ⟨q, hq, hrest⟩ := hw.answers p hp view hview
      exact ⟨q, List.mem_cons_of_mem _ hq, hrest⟩

theorem existingChallenge_eq_some {r : ChallengeRequest} {c : WebBillingChallenge}
    (hexisting : existingChallenge h challenges r = some c) :
    c ∈ challenges ∧ c.idempotencyKey = r.key ∧ c.requestedUserId = r.userId ∧
      c.phoneHash = h.hmac r.phone ∧ c.language = r.language := by
  have hpasses := List.find?_some hexisting
  simp only [Bool.and_eq_true, decide_eq_true_eq] at hpasses
  exact ⟨List.mem_of_find?_eq_some hexisting, hpasses.1.1.1, hpasses.1.1.2, hpasses.1.2, hpasses.2⟩

theorem ChallengeRecords.lookUp (hw : ChallengeRecords h challenges created issued answers)
    (hh : h.Lawful) (r : ChallengeRequest) :
    ChallengeRecords h challenges created issued
      ((r, match existingChallenge h challenges r with
        | none => .error .idempotencyConflict
        | some c => .ok (challengeView c.id c.expiresAt)) :: answers) := by
  refine ⟨hw.keys, hw.recorded, hw.drawn, hw.distinct, hw.matched,
    List.forall_mem_cons.mpr ⟨fun view hview ↦ ?_, hw.answers⟩⟩
  cases hexisting : existingChallenge h challenges r with
  | none =>
      rw [hexisting] at hview
      cases hview
  | some c =>
      rw [hexisting] at hview
      obtain rfl := Except.ok.inj hview
      obtain ⟨hc, hkey, huser, hphone, hlanguage⟩ := existingChallenge_eq_some hexisting
      obtain ⟨q, hq, hrecords⟩ := hw.recorded c hc
      refine ⟨q, hq, hrecords.id, ?_, hrecords.expiresAt.symm⟩
      have hphone' := hh.hmac (hrecords.phoneHash.symm.trans hphone)
      exact (ChallengeRequest.mk.injEq ..).mpr ⟨hrecords.key.symm.trans hkey,
        hrecords.requestedUserId.symm.trans huser, hphone', hrecords.language.symm.trans hlanguage⟩

/-- A stored key with other data is answered with a conflict. -/
theorem ChallengeRecords.conflict (hw : ChallengeRecords h challenges created issued answers)
    {c : WebBillingChallenge} (hc : c ∈ challenges) {q : Creation} (hq : Records h q c)
    {r : ChallengeRequest} (hkey : r.key = q.request.key) (hother : r ≠ q.request) (hh : h.Lawful)
    (accounts : WebAccounts) (id : Uuid) (now : ℤ) :
    createChallenge h accounts challenges r id now = none ∧ existingChallenge h challenges r = none := by
  constructor
  · refine if_pos (List.any_eq_true.mpr ⟨c, hc, decide_eq_true ?_⟩)
    exact hq.key.trans hkey.symm
  · cases hexisting : existingChallenge h challenges r with
    | none => rfl
    | some d =>
        obtain ⟨hd, hkey', huser, hphone, hlanguage⟩ := existingChallenge_eq_some hexisting
        obtain rfl := hw.keys c hc d hd (hq.key.trans (hkey.symm.trans hkey'.symm))
        refine absurd ?_ hother
        exact (ChallengeRequest.mk.injEq ..).mpr ⟨hkey, huser.symm.trans hq.requestedUserId,
          hh.hmac (hphone.symm.trans hq.phoneHash), hlanguage.symm.trans hq.language⟩

end Records

section Attempts

variable {challenges challenges' : ChallengeTable} {calls : Table VerifyCall.callId}
  {issued examined : List Uuid} {created : List Creation} {call : VerifyCall} {id : Uuid}

def VerifyPhase.isAttempted : VerifyPhase → Bool
  | .attempted _ => true
  | _ => false

/-- The call has taken an attempt and has not yet examined the code. -/
def VerifyCall.attempts (id : Uuid) (c : VerifyCall) : Bool :=
  decide (c.challengeId = id) && c.phase.isAttempted

/-- The attempts that calls have taken. -/
def taken (calls : Table VerifyCall.callId) (examined : List Uuid) (id : Uuid) : ℕ :=
  examined.count id + calls.count (VerifyCall.attempts id)

structure AttemptBudget (challenges : ChallengeTable) (calls : Table VerifyCall.callId)
    (issued examined : List Uuid) : Prop where
  stored : ∀ c ∈ challenges, taken calls examined c.id ≤ c.attempts
  bound : ∀ id, taken calls examined id ≤ 5
  unused : ∀ id, id ∉ issued → taken calls examined id = 0

theorem attempts_of_isAttempted (h : call.phase.isAttempted = true) (id : Uuid) :
    call.attempts id = decide (call.challengeId = id) := by
  rw [VerifyCall.attempts, h, Bool.and_true]

theorem attempts_of_not_isAttempted (h : call.phase.isAttempted = false) (id : Uuid) :
    call.attempts id = false := by
  rw [VerifyCall.attempts, h, Bool.and_false]

/-- A call moves to another phase. -/
theorem count_move (hcall : call ∈ w.calls) (phase : VerifyPhase) (id : Uuid) :
    (w.move call.callId phase).count (VerifyCall.attempts id) + (if call.attempts id then 1 else 0) =
      w.calls.count (VerifyCall.attempts id) + if (call.withPhase phase).attempts id then 1 else 0 :=
  Table.count_modify_key (VerifyCall.callId_withPhase phase) hcall

theorem taken_move (hcall : call ∈ w.calls) {phase : VerifyPhase} (hbefore : call.phase.isAttempted = false)
    (hafter : phase.isAttempted = false) (id : Uuid) :
    taken (w.move call.callId phase) w.examined id = taken w.calls w.examined id := by
  have hcount := count_move hcall phase id
  have hmoved : (call.withPhase phase).phase.isAttempted = false := hafter
  rw [attempts_of_not_isAttempted hbefore, attempts_of_not_isAttempted hmoved] at hcount
  exact congrArg (w.examined.count id + ·) hcount

/-- An attempt is taken, when one is left. -/
theorem taken_attempted (hcall : call ∈ w.calls) (hbefore : call.phase.isAttempted = false)
    (userId : Uuid) (id : Uuid) :
    taken (w.move call.callId (.attempted userId)) w.examined id =
      taken w.calls w.examined id + if call.challengeId = id then 1 else 0 := by
  have hcount := count_move hcall (.attempted userId) id
  have hmoved : (call.withPhase (.attempted userId)).phase.isAttempted = true := rfl
  rw [attempts_of_not_isAttempted hbefore, attempts_of_isAttempted hmoved] at hcount
  simp only [Bool.false_eq_true, if_false, Nat.add_zero, decide_eq_true_eq] at hcount
  unfold taken
  rw [hcount]
  exact (Nat.add_assoc _ _ _).symm

/-- The code of an attempt is examined. -/
theorem taken_examined (hcall : call ∈ w.calls) {userId : Uuid} (hbefore : call.phase = .attempted userId)
    {phase : VerifyPhase} (hafter : phase.isAttempted = false) (id : Uuid) :
    taken (w.move call.callId phase) (call.challengeId :: w.examined) id =
      taken w.calls w.examined id := by
  have hcount := count_move hcall phase id
  have hheld : call.phase.isAttempted = true := by rw [hbefore]; rfl
  have hmoved : (call.withPhase phase).phase.isAttempted = false := hafter
  rw [attempts_of_isAttempted hheld, attempts_of_not_isAttempted hmoved] at hcount
  simp only [Bool.false_eq_true, if_false, Nat.add_zero, decide_eq_true_eq] at hcount
  have hexamined : (call.challengeId :: w.examined).count id =
      w.examined.count id + if call.challengeId = id then 1 else 0 := by
    rw [List.count_cons]
    simp only [beq_iff_eq]
  unfold taken
  rw [hexamined, ← hcount]
  omega

theorem AttemptBudget.same (hw : AttemptBudget challenges calls issued examined)
    {calls' : Table VerifyCall.callId} {examined' : List Uuid}
    (htaken : ∀ id, taken calls' examined' id = taken calls examined id)
    (hremain : Remain challenges challenges') (new : List Uuid) :
    AttemptBudget challenges' calls' (new ++ issued) examined' where
  stored c' hc' := by
    obtain ⟨c, hc, hstays⟩ := hremain c' hc'
    rw [htaken, hstays.id]
    exact (hw.stored c hc).trans hstays.attempts
  bound id := (htaken id).trans_le (hw.bound id)
  unused id hid := by
    rw [htaken]
    exact hw.unused id fun hmem ↦ hid (List.mem_append_right _ hmem)

theorem AttemptBudget.create (hw : AttemptBudget challenges calls issued examined)
    {c : WebBillingChallenge} (hid : c.id ∉ issued) (hinsert : challenges.insert? c = some challenges') :
    AttemptBudget challenges' calls (c.id :: issued) examined where
  stored d hd := by
    rcases (Table.mem_insert hinsert).mp hd with rfl | hd
    · rw [hw.unused d.id hid]
      exact Nat.zero_le _
    · exact hw.stored d hd
  bound := hw.bound
  unused id hnew := hw.unused id fun hmem ↦ hnew (List.mem_cons_of_mem _ hmem)

theorem AttemptBudget.attempt (hw : AttemptBudget w.challenges w.calls w.issued w.examined)
    (hdrawn : ∀ c ∈ w.challenges, c.id ∈ w.issued) (hcall : call ∈ w.calls)
    (hphase : call.phase = .started) {now : ℤ} {userId : Uuid}
    (hbegin : beginVerify w.challenges call.challengeId (h.hmac call.phone) now =
      some (challenges', some userId)) :
    AttemptBudget challenges' (w.move call.callId (.attempted userId)) w.issued w.examined := by
  obtain ⟨c, hc, hid, _, _, hleft, _, rfl⟩ := beginVerify_eq_some hbegin
  have hbefore : call.phase.isAttempted = false := by rw [hphase]; rfl
  have htaken := taken_attempted hcall hbefore userId
  have hstored := hw.stored c hc
  constructor
  · intro d hd
    obtain ⟨e, he, rfl⟩ := (Table.mem_modify _).mp hd
    rw [htaken]
    have hold := hw.stored e he
    split
    · rename_i hsame
      have hsame' : e.id = call.challengeId := of_decide_eq_true hsame
      rw [WebBillingChallenge.id_attempt, if_pos hsame'.symm]
      exact Nat.succ_le_succ hold
    · rename_i hother
      have hother' : ¬ call.challengeId = e.id := fun heq ↦ hother (decide_eq_true heq.symm)
      rw [if_neg hother']
      exact hold
  · intro id
    rw [htaken]
    split
    · rename_i heq
      rw [← heq, ← hid]
      omega
    · exact hw.bound id
  · intro id hnew
    rw [htaken, if_neg ?_]
    · exact hw.unused id hnew
    · rintro rfl
      exact hnew (hid ▸ hdrawn c hc)

end Attempts

section Sessions

variable {challenges challenges' : ChallengeTable} {calls : Table VerifyCall.callId}
  {created : List Creation} {opened : List SessionOpening} {call : VerifyCall}

/-- The challenge was created for the user and the phone, which matched. -/
def Named (created : List Creation) (challengeId userId : Uuid) (phone : List Char) : Prop :=
  ∃ r ∈ created, r.id = challengeId ∧ r.request.userId = userId ∧ r.request.phone = phone ∧
    r.account.isSome = true

structure OpenedSessions (challenges : ChallengeTable) (calls : Table VerifyCall.callId)
    (created : List Creation) (opened : List SessionOpening) : Prop where
  holds : ∀ c ∈ calls, ∀ userId ∈ c.phase.user?, Named created c.challengeId userId c.phone
  checked : ∀ c ∈ calls, ∀ userId account, c.phase = .checked userId account →
    account.userId = userId ∧ account.active = true
  unconsumed : ∀ c ∈ challenges, c.consumed = false → ∀ o ∈ opened, o.challengeId ≠ c.id
  once : (opened.map SessionOpening.challengeId).Nodup
  named : ∀ o ∈ opened, Named created o.challengeId o.userId o.phone
  seen : ∀ o ∈ opened, o.account.userId = o.userId ∧ o.account.active = true

theorem OpenedSessions.remain (hw : OpenedSessions challenges calls created opened)
    (hremain : Remain challenges challenges') : OpenedSessions challenges' calls created opened where
  holds := hw.holds
  checked := hw.checked
  unconsumed c' hc' hconsumed o ho hsame := by
    obtain ⟨c, hc, hstays⟩ := hremain c' hc'
    refine hw.unconsumed c hc ?_ o ho (hsame.trans hstays.id)
    cases hold : c.consumed with
    | false => rfl
    | true => exact (hstays.consumed hold).symm.trans hconsumed
  once := hw.once
  named := hw.named
  seen := hw.seen

theorem OpenedSessions.create (hw : OpenedSessions challenges calls created opened)
    {c : WebBillingChallenge} {r : Creation} (hfresh : ∀ q ∈ created, q.id ≠ c.id)
    (hinsert : challenges.insert? c = some challenges') :
    OpenedSessions challenges' calls (r :: created) opened := by
  have hnamed : ∀ {id userId phone}, Named created id userId phone → Named (r :: created) id userId phone :=
    fun ⟨q, hq, hrest⟩ ↦ ⟨q, List.mem_cons_of_mem _ hq, hrest⟩
  refine ⟨fun d hd userId huser ↦ hnamed (hw.holds d hd userId huser), hw.checked, ?_, hw.once,
    fun o ho ↦ hnamed (hw.named o ho), hw.seen⟩
  intro d hd hconsumed o ho
  rcases (Table.mem_insert hinsert).mp hd with rfl | hd
  · obtain ⟨q, hq, hid, _⟩ := hw.named o ho
    exact fun hsame ↦ hfresh q hq (hid.trans hsame)
  · exact hw.unconsumed d hd hconsumed o ho

theorem mem_moveCall (hcall : call ∈ w.calls) {phase : VerifyPhase} {c : VerifyCall} :
    c ∈ w.move call.callId phase ↔ c = call.withPhase phase ∨ c ∈ w.calls ∧ c.callId ≠ call.callId :=
  Table.mem_modify_key (VerifyCall.callId_withPhase phase) hcall

/-- A call moves to a phase that holds no more than it should. -/
theorem OpenedSessions.move (hw : OpenedSessions challenges w.calls created opened)
    (hcall : call ∈ w.calls) {phase : VerifyPhase}
    (huser : ∀ userId ∈ phase.user?, Named created call.challengeId userId call.phone)
    (hchecked : ∀ userId account, phase = .checked userId account →
      account.userId = userId ∧ account.active = true) :
    OpenedSessions challenges (w.move call.callId phase) created opened := by
  refine ⟨fun c hc userId hc' ↦ ?_, fun c hc userId account hphase ↦ ?_, hw.unconsumed, hw.once,
    hw.named, hw.seen⟩
  · rcases (mem_moveCall hcall).mp hc with rfl | ⟨hc, _⟩
    · exact huser userId hc'
    · exact hw.holds c hc userId hc'
  · rcases (mem_moveCall hcall).mp hc with rfl | ⟨hc, _⟩
    · exact hchecked userId account hphase
    · exact hw.checked c hc userId account hphase

theorem OpenedSessions.close (hw : OpenedSessions challenges w.calls created opened)
    (hcall : call ∈ w.calls) : OpenedSessions challenges (w.move call.callId .answered) created opened :=
  hw.move hcall (fun _ huser ↦ (nomatch huser)) fun _ _ hphase ↦ (nomatch hphase)

/-- The session is opened as the challenge is consumed. -/
theorem OpenedSessions.open_ (hw : OpenedSessions w.challenges w.calls created opened)
    (hcall : call ∈ w.calls) {userId : Uuid} {account : WebAccount} {now : ℤ}
    (hphase : call.phase = .checked userId account)
    (hconsumable : isConsumable w.challenges call.challengeId userId now = true) :
    OpenedSessions
      (w.challenges.modify (fun c ↦ c.id = call.challengeId) WebBillingChallenge.consume
        WebBillingChallenge.id_consume)
      w.calls created (⟨call.challengeId, userId, call.phone, account⟩ :: opened) := by
  obtain ⟨c, hc, hid, _, hconsumed, _⟩ := isConsumable_iff.mp hconsumable
  have hfirst : ∀ o ∈ opened, o.challengeId ≠ call.challengeId :=
    fun o ho hsame ↦ hw.unconsumed c hc hconsumed o ho (hsame.trans hid.symm)
  refine ⟨hw.holds, hw.checked, ?_, ?_, List.forall_mem_cons.mpr ⟨?_, hw.named⟩,
    List.forall_mem_cons.mpr ⟨hw.checked call hcall userId account hphase, hw.seen⟩⟩
  · intro d hd hopen
    obtain ⟨e, he, rfl⟩ := (Table.mem_modify _).mp hd
    split at hopen
    · cases hopen
    · rename_i hother
      rw [if_neg hother]
      refine List.forall_mem_cons.mpr ⟨fun hsame ↦ hother (decide_eq_true hsame.symm), ?_⟩
      exact hw.unconsumed e he hopen
  · rw [List.map_cons, List.nodup_cons]
    refine ⟨fun hmem ↦ ?_, hw.once⟩
    obtain ⟨o, ho, hsame⟩ := List.mem_map.mp hmem
    exact hfirst o ho hsame
  · exact hw.holds call hcall userId (by rw [hphase]; rfl)

end Sessions

section CodeRecords

variable {otp : OtpStore} {codes : List GeneratedCode} {issued : List Uuid}
  {accepted : List Acceptance}

/-- The hashes tell the contexts apart. -/
theorem codeHash_inj (hh : h.Lawful) {context context' : Option Uuid} {code code' : List Char}
    (hcode : isCode code = true) (hcode' : isCode code' = true)
    (hsame : codeHash h context code = codeHash h context' code') : context = context' := by
  have hsix : code.length = 6 := by
    simp only [isCode, Bool.and_eq_true, decide_eq_true_eq] at hcode
    exact hcode.1
  have hsix' : code'.length = 6 := by
    simp only [isCode, Bool.and_eq_true, decide_eq_true_eq] at hcode'
    exact hcode'.1
  have hinput := hh.hmac hsame
  cases context with
  | none =>
      cases context' with
      | none => rfl
      | some id =>
          have hlength := congrArg List.length hinput
          simp only [hsix, List.length_append, List.length_cons, hsix'] at hlength
          omega
  | some id =>
      cases context' with
      | none =>
          have hlength := congrArg List.length hinput
          simp only [hsix', List.length_append, List.length_cons, hsix] at hlength
          omega
      | some id' =>
          have htails := List.append_inj' hinput (by rw [List.length_cons, List.length_cons, hsix, hsix'])
          exact congrArg some (hh.hyphenated (List.append_cancel_left htails.1))

/-- Every row of a delivery has the hash of the code that was generated for it. -/
structure CodeRecords (h : CodeHash) (otp : OtpStore) (codes : List GeneratedCode)
    (issued : List Uuid) (accepted : List Acceptance) : Prop where
  rows : ∀ r ∈ otp.rows, ∃ d ∈ codes, d.deliveryId = r.id ∧
    r.otpHash = codeHash h d.context d.code ∧ isCode d.code = true
  drawn : ∀ d ∈ codes, d.deliveryId ∈ issued
  distinct : (codes.map GeneratedCode.deliveryId).Nodup
  accepted : ∀ a ∈ accepted, ∃ d ∈ codes, d.deliveryId = a.deliveryId ∧ d.context = a.context

theorem CodeRecords.draw (hw : CodeRecords h otp codes issued accepted) (new : List Uuid) :
    CodeRecords h otp codes (new ++ issued) accepted :=
  ⟨hw.rows, fun d hd ↦ List.mem_append_right _ (hw.drawn d hd), hw.distinct, hw.accepted⟩

/-- A transaction that inserts no row. -/
theorem CodeRecords.next (hw : CodeRecords h otp codes issued accepted) {call : OtpCall}
    (hcall : call.Admissible) (hbegin : ∀ input now later, call ≠ .begin input now later) :
    CodeRecords h (otp.next call) codes issued accepted := by
  refine ⟨fun r' hr' ↦ ?_, hw.drawn, hw.distinct, hw.accepted⟩
  rcases next_origin hcall hr' with ⟨input, now, later, hinput, _⟩ | ⟨r, hr, hevolves⟩
  · exact absurd hinput (hbegin input now later)
  · obtain ⟨d, hd, hid, hhash, hcode⟩ := hw.rows r hr
    exact ⟨d, hd, hid.trans hevolves.id.symm, hevolves.otpHash.trans hhash, hcode⟩

theorem CodeRecords.generate (hw : CodeRecords h w.otp w.codes w.issued w.accepted)
    {context : Option Uuid} {phone code : List Char} {language : Mobile.Language} {key deliveryId : Uuid}
    {times : SendTimes} (hcode : isCode code = true) (hfresh : deliveryId ∉ w.issued) :
    CodeRecords h (w.generate h context phone language key code deliveryId times).otp
      (⟨deliveryId, context, code⟩ :: w.codes) (deliveryId :: w.issued) w.accepted := by
  refine ⟨fun r' hr' ↦ ?_, ?_, ?_, fun a ha ↦ ?_⟩
  · have hadmissible : OtpCall.Admissible (.begin
        { language := language, id := deliveryId, phoneHash := h.hmac phone,
          otpHash := codeHash h context code, idempotencyKey := key, ttl := times.ttl,
          settlement := times.settlement } times.now times.later) := trivial
    rcases next_origin hadmissible hr' with
      ⟨input, now, later, hinput, rfl⟩ | ⟨r, hr, hevolves⟩
    · obtain ⟨rfl, rfl, rfl⟩ := OtpCall.begin.inj hinput
      exact ⟨_, List.mem_cons_self, rfl, rfl, hcode⟩
    · obtain ⟨d, hd, hid, hhash, hcode'⟩ := hw.rows r hr
      exact ⟨d, List.mem_cons_of_mem _ hd, hid.trans hevolves.id.symm, hevolves.otpHash.trans hhash,
        hcode'⟩
  · refine List.forall_mem_cons.mpr ⟨List.mem_cons_self, fun d hd ↦ ?_⟩
    exact List.mem_cons_of_mem _ (hw.drawn d hd)
  · rw [List.map_cons, List.nodup_cons]
    refine ⟨fun hmem ↦ ?_, hw.distinct⟩
    obtain ⟨d, hd, hsame⟩ := List.mem_map.mp hmem
    have hdrawn := hw.drawn d hd
    rw [hsame] at hdrawn
    exact hfresh hdrawn
  · obtain ⟨d, hd, hrest⟩ := hw.accepted a ha
    exact ⟨d, List.mem_cons_of_mem _ hd, hrest⟩

theorem otpHash_of_consumed {s : OtpStore} {phoneHash otpHash : String} {blocked : Bool} {now : ℤ}
    {r : OtpRow} (hconsumed : consumed s (.consume phoneHash otpHash blocked now) = some r) :
    r ∈ s.rows ∧ r.otpHash = otpHash := by
  refine ⟨(consumed_eq_some hconsumed).1, ?_⟩
  simp only [consumed] at hconsumed
  split at hconsumed
  · have hredeemable := List.find?_some hconsumed
    simp only [OtpRow.redeemable, Bool.and_eq_true, decide_eq_true_eq] at hredeemable
    exact hredeemable.1.1.1.2
  · cases hconsumed

/-- A delivery is consumed only in the context its code was generated for. -/
theorem CodeRecords.consume (hw : CodeRecords h w.otp w.codes w.issued w.accepted) (hh : h.Lawful)
    (context : Option Uuid) (phone code : List Char) (blocked : Bool) (now : ℤ) :
    CodeRecords h (w.consumeCode h context phone code blocked now).2.otp w.codes w.issued
      (w.consumeCode h context phone code blocked now).2.accepted := by
  unfold WebBilling.consumeCode
  split
  · rename_i hcode
    have hadmissible : (WebBilling.consumption h context phone code blocked now).Admissible := trivial
    have hnext := hw.next hadmissible (by
      intro input now' later hcall
      cases hcall)
    refine ⟨hnext.rows, hnext.drawn, hnext.distinct, fun a ha ↦ ?_⟩
    rcases List.mem_append.mp ha with hnew | hold
    · obtain ⟨r, hr, rfl⟩ := Option.map_eq_some_iff.mp (Option.mem_toList.mp hnew)
      obtain ⟨hmem, hhash⟩ := otpHash_of_consumed hr
      obtain ⟨d, hd, hid, hhash', hcode'⟩ := hw.rows r hmem
      exact ⟨d, hd, hid, codeHash_inj hh hcode' hcode (hhash'.symm.trans hhash)⟩
    · exact hw.accepted a hold
  · exact hw

end CodeRecords

end Histae.Billing
