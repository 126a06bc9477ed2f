import Histae.Matches.Credits

/-!
# Recording a continuation choice

The transaction of `src/matches/pg/continuation.rs`. A call reads the clock
several times: under the match lock, after the wallet locks, for its notices,
in the guard of the confirming update and in the inactivity trigger. An error
rolls the transaction back, so only successful results carry tables.
-/

namespace Histae.Matches

open Relational

/-- The clock readings of one call, in the order in which they are taken. -/
structure RecordClock where
  locked : ℤ
  now : ℤ
  notice : ℤ
  guard : ℤ
  trigger : ℤ
  deriving DecidableEq

structure RecordClock.Ordered (t : RecordClock) : Prop where
  locked_le_now : t.locked ≤ t.now
  now_le_notice : t.now ≤ t.notice
  notice_le_guard : t.notice ≤ t.guard
  guard_le_trigger : t.guard ≤ t.trigger

/-- The other participant of the match, when `actorId` takes part in it. -/
def Db.otherParticipant (db : Db) (matchId actorId : Uuid) : Option Uuid :=
  ((db.matchInit.find? matchId).filter fun m ↦ m.isParticipant actorId).map fun m ↦
    if m.user1Id = actorId then m.user2Id else m.user1Id

def Notification.expire (clock : ℤ) (n : Notification) : Notification :=
  { n with expiresAt := clock }

theorem Notification.deduplicationKey_expire (clock : ℤ) (n : Notification) :
    (n.expire clock).deduplicationKey = n.deduplicationKey := rfl

def expireChoiceNotification (db : Db) (matchId actorId : Uuid) (clock : ℤ) : Db :=
  { db with
    notifications := db.notifications.modify
      (fun n ↦ db.otherParticipant matchId actorId = some n.userId &&
        n.intent = .continuationRequested matchId actorId && decide (clock < n.expiresAt))
      (Notification.expire clock) (Notification.deduplicationKey_expire clock) }

def MatchState.choose (continued : Bool) (s : MatchState) : MatchState := { s with continued }

theorem MatchState.key_choose (continued : Bool) (s : MatchState) :
    (s.choose continued).key = s.key := rfl

/-- `UPDATE match_state SET continued = ... WHERE match_id = $1 AND user_id = $2`. -/
def setContinued (db : Db) (matchId userId : Uuid) (continued : Bool) : Db :=
  { db with
    matchState := db.matchState.modify (fun s ↦ s.key = (matchId, userId))
      (MatchState.choose continued) (MatchState.key_choose continued) }

def clearChoice (db : Db) (matchId userId : Uuid) (clock : ℤ) : Db :=
  let db := { db with
    reservations := db.reservations.delete fun r ↦ r.key = (matchId, userId) }
  setContinued (expireChoiceNotification db matchId userId clock) matchId userId false

def notifyWaiting (db : Db) (matchId actorId first second : Uuid) (clock : ℤ)
    (sourceId : Uuid) : Db :=
  let recipient := if actorId = first then second else first
  let needed := (db.matchState.find? (matchId, actorId)).any MatchState.continued &&
    (db.matchState.find? (matchId, recipient)).any fun s ↦ !s.continued
  if needed then
    enqueueNotification (expireChoiceNotification db matchId actorId clock) clock recipient
      (.id sourceId) (.continuationRequested matchId actorId)
  else db

structure Charge where
  participant : Uuid
  source : Source
  week : ℤ
  deriving DecidableEq

/-- Both entitlements are validated before either is debited; the error names
the participant whose choice no longer holds. -/
def validateCharges (db : Db) (now : ℤ) : List Reservation → Except Uuid (List Charge)
  | [] => .ok []
  | r :: rest =>
      if r.source = .advertising ∧ r.weekStart ≠ startOfUtcWeek now then .error r.userId
      else
        let quota := quotaOn db r.userId now
        if quota.weeklyLimit.isNone then
          (validateCharges db now rest).map (⟨r.userId, .premium, r.weekStart⟩ :: ·)
        else if r.source = .premium ∨ freeWeeklyContinuationLimit ≤ quota.used then
          .error r.userId
        else (validateCharges db now rest).map (⟨r.userId, r.source, r.weekStart⟩ :: ·)

def debitAll (now : ℤ) : List Charge → Db → Except MatchStoreError Db
  | [], db => .ok db
  | c :: rest, db => (debit db c.participant c.source c.week now).bind (debitAll now rest)

/-- The reservations of a match, ordered by user. -/
def Db.reservationsOf (db : Db) (matchId : Uuid) : List Reservation :=
  (db.reservations.select fun r ↦ r.matchId = matchId).insertionSort fun r s ↦
    r.userId ≤ s.userId

def confirmMatch (db : Db) (matchId : Uuid) (guard trigger : ℤ) : Db :=
  updateMatch db trigger (fun m ↦ m.id = matchId && decide (guard < m.expiresAt))
    (fun m ↦ { m with status := .confirmed, purgeAfter := none }) fun _ ↦ rfl

def confirm (db : Db) (record : MatchRecord) (matchId : Uuid) (t : RecordClock)
    (charges : List Charge) : Except MatchStoreError (ContinuationResult × Db) :=
  match debitAll t.now charges db with
  | .error error => .error error
  | .ok db =>
      if (db.matchInit.find? matchId).any fun m ↦ decide (t.guard < m.expiresAt) then
        let db := confirmMatch db matchId t.guard t.trigger
        let db := enqueueNotification db t.trigger record.user1Id (.id matchId)
          (.conversationContinued matchId)
        let db := enqueueNotification db t.trigger record.user2Id (.id matchId)
          (.conversationContinued matchId)
        .ok (.confirmed, deleteReservations db matchId)
      else .error .continuationExpired

def recordReservation (db : Db) (record : MatchRecord) (matchId userId : Uuid)
    (t : RecordClock) (sourceId : Uuid) : Except MatchStoreError (ContinuationResult × Db) :=
  match reserve db matchId userId t.now with
  | .error error => .error error
  | .ok (false, db) => .ok (.quotaReached, db)
  | .ok (true, db) =>
      let db := setContinued db matchId userId true
      let reservations := db.reservationsOf matchId
      if reservations.length ≠ 2 then
        .ok (.pending, notifyWaiting db matchId userId record.user1Id record.user2Id t.notice
          sourceId)
      else
        match validateCharges db t.now reservations with
        | .error participant =>
            .ok (.pending, notifyWaiting (clearChoice db matchId participant t.notice) matchId
              userId record.user1Id record.user2Id t.notice sourceId)
        | .ok charges => confirm db record matchId t charges

def recordChoice (db : Db) (record : MatchRecord) (matchId userId : Uuid)
    (acknowledgedCost : ℤ) (t : RecordClock) (sourceId : Uuid) :
    Except MatchStoreError (ContinuationResult × Db) :=
  let plan := db.effectivePlanOn userId
  let existing := db.reservations.find? (matchId, userId)
  if (existing.any fun r ↦ r.source = .premium) && plan.weeklyCredits.isSome then
    .ok (.planChanged, clearChoice db matchId userId t.notice)
  else if plan.weeklyCredits.isSome ∧ acknowledgedCost ≠ 1 then .ok (.planChanged, db)
  else
    match existing with
    | none => recordReservation db record matchId userId t sourceId
    | some r =>
        if r.source = .advertising ∧ r.weekStart ≠ startOfUtcWeek t.now then
          recordReservation (clearChoice db matchId userId t.notice) record matchId userId t
            sourceId
        else .ok (.alreadyRecorded, db)

def record (db : Db) (matchId userId : Uuid) (legal : Option LegalConfig)
    (acknowledgedCost : ℤ) (t : RecordClock) (sourceId : Uuid) :
    Except MatchStoreError (ContinuationResult × Db) :=
  match lockAvailableMatch db matchId userId t.locked with
  | (.unavailable .notFound, db) => .ok (.notFound, db)
  | (.unavailable .expired, db) => .ok (.expired, db)
  | (.unavailable .invalidState, db) => .ok (.invalidState, db)
  | (.available record, db) =>
      if record.status = .confirmed then .ok (.alreadyConfirmed, db)
      else if record.status = .active then .ok (.notAvailableYet, db)
      else if db.blocked record.user1Id record.user2Id then .ok (.notFound, db)
      else
        match lockEligibleAccounts db [record.user1Id, record.user2Id] legal with
        | .error error => .error (.database error)
        | .ok () =>
            if record.expiresAt ≤ t.now then .ok (.expired, expireWindow db matchId t.now)
            else recordChoice db record matchId userId acknowledgedCost t sourceId

section Inversion

variable {db db' db₁ db₂ : Db} {matchId userId sourceId : Uuid} {legal : Option LegalConfig}
  {cost : ℤ} {t : RecordClock} {m : MatchRecord} {result : ContinuationResult}

/-- The call holds the lock of a match that awaits a decision, and both
participants passed the account check. -/
structure Deciding (db : Db) (matchId userId : Uuid) (t : RecordClock) (m : MatchRecord)
    (db₁ : Db) : Prop where
  lock : lockAvailableMatch db matchId userId t.locked = (.available m, db₁)
  awaiting : m.status = .awaitingContinuation

/-- The call stores the reservation `r`, after dropping a stale advertising
reservation of its own. -/
structure Reserves (db₁ : Db) (matchId userId : Uuid) (cost : ℤ) (t : RecordClock)
    (r : Reservation) (db₂ : Db) : Prop where
  cost : (db₁.effectivePlanOn userId).weeklyCredits.isSome → cost = 1
  row : r = ⟨matchId, userId, r.source, startOfUtcWeek t.now⟩
  stored : ∃ db₀ reservations,
    (db₀ = db₁ ∨ db₀ = clearChoice db₁ matchId userId t.notice) ∧
    reservationSource (quotaOn db₀ userId t.now) = some r.source ∧
    db₀.reservations.insert? r = some reservations ∧
    db₂ = setContinued { db₀ with reservations } matchId userId true

/-- The tables after both debits, the status update and the notices. -/
def confirmedDb (db₃ : Db) (m : MatchRecord) (matchId : Uuid) (t : RecordClock) : Db :=
  deleteReservations
    (enqueueNotification
      (enqueueNotification (confirmMatch db₃ matchId t.guard t.trigger) t.trigger m.user1Id
        (.id matchId) (.conversationContinued matchId))
      t.trigger m.user2Id (.id matchId) (.conversationContinued matchId)) matchId

/-- The participants' reservations are complete, valid and paid. -/
structure Confirms (db₂ : Db) (matchId : Uuid) (t : RecordClock) (charges : List Charge)
    (db₃ : Db) : Prop where
  both : (db₂.reservationsOf matchId).length = 2
  valid : validateCharges db₂ t.now (db₂.reservationsOf matchId) = .ok charges
  paid : debitAll t.now charges db₂ = .ok db₃
  inTime : ∃ m, db₃.matchInit.find? matchId = some m ∧ t.guard < m.expiresAt

/-- What one committed call of `record` can answer and write. -/
inductive RecordOutcome (db : Db) (matchId userId : Uuid) (cost : ℤ) (t : RecordClock) :
    ContinuationResult → Db → Prop
  | unavailable (reason : MatchAvailabilityFailure) (db₁ : Db) (result : ContinuationResult)
      (h : lockAvailableMatch db matchId userId t.locked = (.unavailable reason, db₁))
      (hresult : result ≠ .confirmed) : RecordOutcome db matchId userId cost t result db₁
  | kept (m : MatchRecord) (db₁ : Db) (result : ContinuationResult)
      (h : lockAvailableMatch db matchId userId t.locked = (.available m, db₁))
      (hresult : result ≠ .confirmed) : RecordOutcome db matchId userId cost t result db₁
  | late (m : MatchRecord) (db₁ : Db) (h : Deciding db matchId userId t m db₁)
      (hlate : m.expiresAt ≤ t.now) :
      RecordOutcome db matchId userId cost t .expired (expireWindow db₁ matchId t.now)
  | cleared (m : MatchRecord) (db₁ : Db) (result : ContinuationResult)
      (h : Deciding db matchId userId t m db₁) (hresult : result ≠ .confirmed) :
      RecordOutcome db matchId userId cost t result (clearChoice db₁ matchId userId t.notice)
  | waiting (m : MatchRecord) (db₁ : Db) (r : Reservation) (db₂ : Db) (sourceId : Uuid)
      (h : Deciding db matchId userId t m db₁) (hopen : t.now < m.expiresAt)
      (hreserves : Reserves db₁ matchId userId cost t r db₂) :
      RecordOutcome db matchId userId cost t .pending
        (notifyWaiting db₂ matchId userId m.user1Id m.user2Id t.notice sourceId)
  | released (m : MatchRecord) (db₁ : Db) (r : Reservation) (db₂ : Db) (participant sourceId : Uuid)
      (h : Deciding db matchId userId t m db₁) (hopen : t.now < m.expiresAt)
      (hreserves : Reserves db₁ matchId userId cost t r db₂) :
      RecordOutcome db matchId userId cost t .pending
        (notifyWaiting (clearChoice db₂ matchId participant t.notice) matchId userId m.user1Id
          m.user2Id t.notice sourceId)
  | confirmed (m : MatchRecord) (db₁ : Db) (r : Reservation) (db₂ : Db) (charges : List Charge)
      (db₃ : Db) (h : Deciding db matchId userId t m db₁) (hopen : t.now < m.expiresAt)
      (hreserves : Reserves db₁ matchId userId cost t r db₂)
      (hconfirms : Confirms db₂ matchId t charges db₃) :
      RecordOutcome db matchId userId cost t .confirmed (confirmedDb db₃ m matchId t)

theorem confirm_eq_ok {charges : List Charge}
    (h : confirm db₂ m matchId t charges = .ok (result, db')) :
    result = .confirmed ∧ ∃ db₃, debitAll t.now charges db₂ = .ok db₃ ∧
      (∃ m, db₃.matchInit.find? matchId = some m ∧ t.guard < m.expiresAt) ∧
      db' = confirmedDb db₃ m matchId t := by
  unfold confirm at h
  split at h
  · exact absurd h (by simp)
  · rename_i db₃ hdebit
    split at h
    · rename_i hguard
      simp only [Except.ok.injEq, Prod.mk.injEq] at h
      have hguard : ∃ m, db₃.matchInit.find? matchId = some m ∧ t.guard < m.expiresAt := by
        simpa [Option.any_eq_true] using hguard
      exact ⟨h.1.symm, db₃, hdebit, hguard, h.2.symm⟩
    · exact absurd h (by simp)

theorem reserve_eq_ok {b : Bool} (h : reserve db₁ matchId userId t.now = .ok (b, db₂)) :
    b = false ∧ db₂ = db₁ ∨
      b = true ∧ ∃ source reservations,
        reservationSource (quotaOn db₁ userId t.now) = some source ∧
        db₁.reservations.insert? ⟨matchId, userId, source, startOfUtcWeek t.now⟩ =
          some reservations ∧
        db₂ = { db₁ with reservations } := by
  unfold reserve at h
  split at h
  · simp only [Except.ok.injEq, Prod.mk.injEq] at h
    exact Or.inl ⟨h.1.symm, h.2.symm⟩
  · rename_i source hsource
    split at h
    · exact absurd h (by simp)
    · rename_i reservations hinsert
      simp only [Except.ok.injEq, Prod.mk.injEq] at h
      exact Or.inr ⟨h.1.symm, source, reservations, hsource, hinsert, h.2.symm⟩

/-- The part of the call after the plan checks, on tables `db₀` from which a
stale choice may have been cleared. -/
theorem recordReservation_outcome {db₀ : Db} (hdeciding : Deciding db matchId userId t m db₁)
    (hopen : t.now < m.expiresAt)
    (hcost : (db₁.effectivePlanOn userId).weeklyCredits.isSome → cost = 1)
    (hbase : db₀ = db₁ ∨ db₀ = clearChoice db₁ matchId userId t.notice)
    (h : recordReservation db₀ m matchId userId t sourceId = .ok (result, db')) :
    RecordOutcome db matchId userId cost t result db' := by
  unfold recordReservation at h
  split at h
  · exact absurd h (by simp)
  · rename_i db₂ hreserve
    simp only [Except.ok.injEq, Prod.mk.injEq] at h
    obtain ⟨rfl, rfl⟩ := h
    rcases reserve_eq_ok hreserve with ⟨_, rfl⟩ | ⟨hfalse, _⟩
    · rcases hbase with rfl | rfl
      · exact .kept m db₂ .quotaReached hdeciding.lock (by simp)
      · exact .cleared m db₁ .quotaReached hdeciding (by simp)
    · exact absurd hfalse (by simp)
  · rename_i db₂ hreserve
    rcases reserve_eq_ok hreserve with ⟨htrue, _⟩ | ⟨_, source, reservations, hsource, hinsert, rfl⟩
    · exact absurd htrue (by simp)
    have hreserves : Reserves db₁ matchId userId cost t
        ⟨matchId, userId, source, startOfUtcWeek t.now⟩
        (setContinued { db₀ with reservations } matchId userId true) :=
      ⟨hcost, rfl, db₀, reservations, hbase, hsource, hinsert, rfl⟩
    dsimp only at h
    split at h
    · simp only [Except.ok.injEq, Prod.mk.injEq] at h
      obtain ⟨rfl, rfl⟩ := h
      exact .waiting m db₁ _ _ sourceId hdeciding hopen hreserves
    · rename_i hlength
      split at h
      · rename_i participant hinvalid
        simp only [Except.ok.injEq, Prod.mk.injEq] at h
        obtain ⟨rfl, rfl⟩ := h
        exact .released m db₁ _ _ participant sourceId hdeciding hopen hreserves
      · rename_i charges hvalid
        obtain ⟨rfl, db₃, hdebit, hguard, rfl⟩ := confirm_eq_ok h
        exact .confirmed m db₁ _ _ charges db₃ hdeciding hopen hreserves
          ⟨not_not.mp hlength, hvalid, hdebit, hguard⟩

theorem recordChoice_outcome (hdeciding : Deciding db matchId userId t m db₁)
    (hopen : t.now < m.expiresAt)
    (h : recordChoice db₁ m matchId userId cost t sourceId = .ok (result, db')) :
    RecordOutcome db matchId userId cost t result db' := by
  unfold recordChoice at h
  dsimp only at h
  split at h
  · simp only [Except.ok.injEq, Prod.mk.injEq] at h
    obtain ⟨rfl, rfl⟩ := h
    exact .cleared m db₁ .planChanged hdeciding (by simp)
  · split at h
    · simp only [Except.ok.injEq, Prod.mk.injEq] at h
      obtain ⟨rfl, rfl⟩ := h
      exact .kept m db₁ .planChanged hdeciding.lock (by simp)
    · rename_i hplan
      have hcost : (db₁.effectivePlanOn userId).weeklyCredits.isSome → cost = 1 := by
        intro hsome
        by_contra hne
        exact hplan ⟨hsome, hne⟩
      split at h
      · exact recordReservation_outcome hdeciding hopen hcost (Or.inl rfl) h
      · split at h
        · exact recordReservation_outcome hdeciding hopen hcost (Or.inr rfl) h
        · simp only [Except.ok.injEq, Prod.mk.injEq] at h
          obtain ⟨rfl, rfl⟩ := h
          exact .kept m db₁ .alreadyRecorded hdeciding.lock (by simp)

theorem deciding_of_lock (hlock : lockAvailableMatch db matchId userId t.locked = (.available m, db₁))
    (hconfirmed : m.status ≠ .confirmed) (hactive : m.status ≠ .active) :
    Deciding db matchId userId t m db₁ := by
  refine ⟨hlock, ?_⟩
  have hlive := (LockOutcome.isLive_of_available hlock).1
  cases hstatus : m.status <;> simp_all [isLive]

theorem record_outcome (h : record db matchId userId legal cost t sourceId = .ok (result, db')) :
    RecordOutcome db matchId userId cost t result db' := by
  unfold record at h
  split at h
  · rename_i db₁ hlock
    simp only [Except.ok.injEq, Prod.mk.injEq] at h
    obtain ⟨rfl, rfl⟩ := h
    exact .unavailable .notFound db₁ .notFound hlock (by simp)
  · rename_i db₁ hlock
    simp only [Except.ok.injEq, Prod.mk.injEq] at h
    obtain ⟨rfl, rfl⟩ := h
    exact .unavailable .expired db₁ .expired hlock (by simp)
  · rename_i db₁ hlock
    simp only [Except.ok.injEq, Prod.mk.injEq] at h
    obtain ⟨rfl, rfl⟩ := h
    exact .unavailable .invalidState db₁ .invalidState hlock (by simp)
  · rename_i m db₁ hlock
    split at h
    · simp only [Except.ok.injEq, Prod.mk.injEq] at h
      obtain ⟨rfl, rfl⟩ := h
      exact .kept m db₁ .alreadyConfirmed hlock (by simp)
    rename_i hconfirmed
    split at h
    · simp only [Except.ok.injEq, Prod.mk.injEq] at h
      obtain ⟨rfl, rfl⟩ := h
      exact .kept m db₁ .notAvailableYet hlock (by simp)
    rename_i hactive
    split at h
    · simp only [Except.ok.injEq, Prod.mk.injEq] at h
      obtain ⟨rfl, rfl⟩ := h
      exact .kept m db₁ .notFound hlock (by simp)
    split at h
    · exact absurd h (by simp)
    have hdeciding := deciding_of_lock hlock hconfirmed hactive
    split at h
    · rename_i hlate
      simp only [Except.ok.injEq, Prod.mk.injEq] at h
      obtain ⟨rfl, rfl⟩ := h
      exact .late m db₁ hdeciding hlate
    · rename_i hopen
      exact recordChoice_outcome hdeciding (not_le.mp hopen) h

/-- The call reached its debits, and one of them failed. -/
def DebitFails (db : Db) (matchId userId : Uuid) (cost : ℤ) (t : RecordClock) : Prop :=
  ∃ m db₁ r db₂ charges error, Deciding db matchId userId t m db₁ ∧ t.now < m.expiresAt ∧
    Reserves db₁ matchId userId cost t r db₂ ∧
    validateCharges db₂ t.now (db₂.reservationsOf matchId) = .ok charges ∧
    debitAll t.now charges db₂ = .error error

theorem recordReservation_queryFailed {db₀ : Db} (hdeciding : Deciding db matchId userId t m db₁)
    (hopen : t.now < m.expiresAt)
    (hcost : (db₁.effectivePlanOn userId).weeklyCredits.isSome → cost = 1)
    (hbase : db₀ = db₁ ∨ db₀ = clearChoice db₁ matchId userId t.notice)
    (h : recordReservation db₀ m matchId userId t sourceId = .error (.database .queryFailed)) :
    DebitFails db matchId userId cost t := by
  unfold recordReservation at h
  split at h
  · rename_i error hreserve
    obtain rfl := Except.error.inj h
    unfold reserve at hreserve
    split at hreserve
    · cases hreserve
    · split at hreserve <;> cases hreserve
  · cases h
  · rename_i db₂ hreserve
    rcases reserve_eq_ok hreserve with ⟨htrue, _⟩ | ⟨_, source, reservations, hsource, hinsert, rfl⟩
    · exact absurd htrue (by simp)
    dsimp only at h
    split at h
    · cases h
    split at h
    · cases h
    · rename_i charges hvalid
      unfold confirm at h
      split at h
      · rename_i error hdebit
        exact ⟨m, db₁, ⟨matchId, userId, source, startOfUtcWeek t.now⟩, _, charges, error,
          hdeciding, hopen, ⟨hcost, rfl, db₀, reservations, hbase, hsource, hinsert, rfl⟩, hvalid,
          hdebit⟩
      · split at h <;> cases h

/-- `record` answers a failed query only from the error branch of a debit. -/
theorem record_queryFailed
    (h : record db matchId userId legal cost t sourceId = .error (.database .queryFailed)) :
    DebitFails db matchId userId cost t := by
  unfold record at h
  split at h
  · cases h
  · cases h
  · cases h
  · rename_i m db₁ hlock
    split at h
    · cases h
    rename_i hconfirmed
    split at h
    · cases h
    rename_i hactive
    split at h
    · cases h
    split at h
    · rename_i error haccounts
      unfold lockEligibleAccounts at haccounts
      dsimp only at haccounts
      obtain rfl : error = .queryFailed := by simpa using h
      split at haccounts
      · cases haccounts
      · split at haccounts <;> cases haccounts
    have hdeciding : Deciding db matchId userId t m db₁ := deciding_of_lock hlock hconfirmed hactive
    split at h
    · cases h
    rename_i hopen
    unfold recordChoice at h
    dsimp only at h
    split at h
    · cases h
    split at h
    · cases h
    rename_i hplan
    have hcost : (db₁.effectivePlanOn userId).weeklyCredits.isSome → cost = 1 := by
      intro hsome
      by_contra hne
      exact hplan ⟨hsome, hne⟩
    split at h
    · exact recordReservation_queryFailed hdeciding (not_le.mp hopen) hcost (Or.inl rfl) h
    · split at h
      · exact recordReservation_queryFailed hdeciding (not_le.mp hopen) hcost (Or.inr rfl) h
      · cases h

end Inversion

end Histae.Matches
