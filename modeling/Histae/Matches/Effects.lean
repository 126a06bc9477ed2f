import Histae.Matches.System

/-!
# What one step can do

`StepEffect` lists the six things a step of the service can do to the match
and credit tables. The theorems about runs split along this list.
-/

namespace Histae.Matches

open Relational

section Creation

variable {db db' : Db} {record : MatchRecord} {clock : ℤ}

theorem insertMatchState_eq_ok {matchId userId : Uuid}
    (h : insertMatchState db matchId userId = .ok db') : SameLedger db db' := by
  unfold insertMatchState at h
  split at h
  · cases h
  · obtain rfl := Except.ok.inj h
    exact ⟨rfl, rfl, rfl, rfl⟩

/-- The match table gained the row `record`; the credit tables are as they
were. -/
structure Inserts (db : Db) (record : MatchRecord) (db' : Db) : Prop where
  matchInit : db.matchInit.insert? record = some db'.matchInit
  ordered : record.user1Id < record.user2Id
  reservations : db'.reservations = db.reservations
  usage : db'.usage = db.usage
  wallets : db'.wallets = db.wallets

theorem Inserts.trans {db'' : Db} (h : Inserts db record db') (h' : SameLedger db' db'') :
    Inserts db record db'' where
  matchInit := h'.matchInit ▸ h.matchInit
  ordered := h.ordered
  reservations := h'.reservations.trans h.reservations
  usage := h'.usage.trans h.usage
  wallets := h'.wallets.trans h.wallets

theorem insertMatch_eq_ok (h : insertMatch db record clock = .ok db')
    (hactive : record.status = .active) : Inserts db record db' := by
  unfold insertMatch at h
  split at h
  · cases h
  rename_i hlt
  split at h
  · cases h
  split at h
  · cases h
  · rename_i matchInit hinsert
    obtain rfl := Except.ok.inj h
    have htrack : trackInsertedMatch clock record = record := by
      simp [trackInsertedMatch, hactive]
    rw [htrack] at hinsert
    exact ⟨hinsert, not_not.mp hlt, rfl, rfl, rfl⟩

theorem create_eq_ok (h : create db record clock = .ok db') (hactive : record.status = .active) :
    Inserts db record db' := by
  unfold create at h
  dsimp only at h
  split at h
  · cases h
  split at h
  · cases h
  cases hmatch : insertMatch db record clock with
  | error error => rw [hmatch] at h; cases h
  | ok db₁ =>
      rw [hmatch] at h
      cases hfirst : insertMatchState db₁ record.id record.user1Id with
      | error error => simp [bind, Except.bind, hfirst] at h
      | ok db₂ =>
          cases hsecond : insertMatchState db₂ record.id record.user2Id with
          | error error => simp [bind, Except.bind, hfirst, hsecond] at h
          | ok db₃ =>
              simp only [bind, Except.bind, hfirst, hsecond, Except.ok.injEq] at h
              subst h
              have hinserts := insertMatch_eq_ok hmatch hactive
              have hstates :=
                (insertMatchState_eq_ok hfirst).trans (insertMatchState_eq_ok hsecond)
              exact (hinserts.trans hstates).trans
                ((sameLedger_enqueueNotification ..).trans (sameLedger_enqueueNotification ..))

theorem createFromMutualLike_eq_ok {id first second : Uuid} {now : ℤ}
    (h : createFromMutualLike db id first second now clock = .ok (record, db')) :
    record = mutualLikeRecord id first second now ∧ Inserts db record db' ∨
      record ∈ db.matchInit ∧ db' = db := by
  unfold createFromMutualLike at h
  split at h
  · cases h
  dsimp only at h
  split at h
  · rename_i created hcreate
    simp only [Except.ok.injEq, Prod.mk.injEq] at h
    obtain ⟨rfl, rfl⟩ := h
    exact Or.inl ⟨rfl, create_eq_ok hcreate rfl⟩
  · split at h
    · rename_i stored hstored
      simp only [Except.ok.injEq, Prod.mk.injEq] at h
      obtain ⟨rfl, rfl⟩ := h
      exact Or.inr ⟨List.mem_of_find?_eq_some hstored, rfl⟩
    · cases h
  · cases h

end Creation

/-- Everything one step can do to the match and credit tables. -/
inductive StepEffect (w : World) : Action → Prop
  | quiet (a : Action) (h : Shrinks (w.after a) none w.db (w.next a).db)
      (hlog : (w.next a).log = w.log) : StepEffect w a
  | stored (q : MessageRequest) (t : MessageClock) (m : MatchRecord) (db₁ : Db)
      (messages : Table MessageRecord.id)
      (hlock : lockAvailableMatch w.db q.matchId q.senderId t.locked = (.available m, db₁))
      (hstatus : m.status = .active ∨ m.status = .confirmed)
      (hinsert : db₁.messages.insert? (q.row t.inserted) = some messages)
      (hdb : (w.next (.createMessage q t)).db =
        publishMessage { db₁ with messages } m (q.row t.inserted) t.notified)
      (hlog : (w.next (.createMessage q t)).log = .stored (q.row t.inserted) t.locked :: w.log) :
      StepEffect w (.createMessage q t)
  | created (id first second : Uuid) (now clock : ℤ)
      (h : Inserts w.db (mutualLikeRecord id first second now)
        (w.next (.createFromMutualLike id first second now clock)).db)
      (hlog : (w.next (.createFromMutualLike id first second now clock)).log =
        .created (mutualLikeRecord id first second now) :: w.log) :
      StepEffect w (.createFromMutualLike id first second now clock)
  | reserved (matchId userId : Uuid) (legal : Option LegalConfig) (cost : ℤ) (t : RecordClock)
      (sourceId : Uuid) (m : MatchRecord) (db₁ : Db) (r : Reservation) (db₂ : Db)
      (h : Deciding w.db matchId userId t m db₁) (hopen : t.now < m.expiresAt)
      (hreserves : Reserves db₁ matchId userId cost t r db₂)
      (hafter : Shrinks t.now none db₂
        (w.next (.recordContinuation matchId userId legal cost t sourceId)).db)
      (hlog : (w.next (.recordContinuation matchId userId legal cost t sourceId)).log = w.log) :
      StepEffect w (.recordContinuation matchId userId legal cost t sourceId)
  | confirmed (matchId userId : Uuid) (legal : Option LegalConfig) (cost : ℤ) (t : RecordClock)
      (sourceId : Uuid) (m : MatchRecord) (db₁ : Db) (r : Reservation) (db₂ : Db)
      (charges : List Charge) (db₃ : Db)
      (h : Deciding w.db matchId userId t m db₁) (hopen : t.now < m.expiresAt)
      (hreserves : Reserves db₁ matchId userId cost t r db₂)
      (hconfirms : Confirms db₂ matchId t charges db₃)
      (hdb : (w.next (.recordContinuation matchId userId legal cost t sourceId)).db =
        confirmedDb db₃ m matchId t)
      (hlog : (w.next (.recordContinuation matchId userId legal cost t sourceId)).log =
        .confirmed matchId t.guard t.trigger :: w.log) :
      StepEffect w (.recordContinuation matchId userId legal cost t sourceId)
  | granted (userId : Uuid) (now : ℤ)
      (hdb : (w.next (.grantAdvertisingCredit userId now)).db =
        (grantAdvertisingCredit w.db userId now).2)
      (hlog : (w.next (.grantAdvertisingCredit userId now)).log = w.log) :
      StepEffect w (.grantAdvertisingCredit userId now)

section Steps

variable {w : World} {db' : Db}

theorem apply_recordContinuation {db : Db} {matchId userId : Uuid} {legal : Option LegalConfig}
    {cost : ℤ} {t : RecordClock} {sourceId : Uuid} {result : ContinuationResult}
    (h : record db matchId userId legal cost t sourceId = .ok (result, db')) :
    (Action.recordContinuation matchId userId legal cost t sourceId).apply db =
      (db', if result = .confirmed then [.confirmed matchId t.guard t.trigger] else []) := by
  simp only [Action.apply, h]
  cases result <;> rfl

theorem stepEffect_recordContinuation {matchId userId : Uuid} {legal : Option LegalConfig}
    {cost : ℤ} {t : RecordClock} {sourceId : Uuid}
    (henabled : (Action.recordContinuation matchId userId legal cost t sourceId).Enabled w) :
    StepEffect w (.recordContinuation matchId userId legal cost t sourceId) := by
  have ht : t.Ordered := henabled.ordered
  have htrigger : t.now ≤ t.trigger :=
    (ht.now_le_notice.trans ht.notice_le_guard).trans ht.guard_le_trigger
  cases hrecord : record w.db matchId userId legal cost t sourceId with
  | error error =>
      have hnext : (Action.recordContinuation matchId userId legal cost t sourceId).apply w.db =
          (w.db, []) := by simp only [Action.apply, hrecord]
      refine .quiet _ ?_ (by simp [World.next, hnext])
      simp only [World.next, hnext]
      exact .refl _
  | ok answer =>
      obtain ⟨result, db'⟩ := answer
      have hlocked : t.locked ≤ t.trigger := ht.locked_le_now.trans htrigger
      have hnext := apply_recordContinuation hrecord
      have hquiet (hne : result ≠ .confirmed) (hshrinks : Shrinks t.trigger none w.db db') :
          StepEffect w (.recordContinuation matchId userId legal cost t sourceId) := by
        refine .quiet _ ?_ (by simp [World.next, hnext, hne])
        simp only [World.next, hnext]
        exact hshrinks
      cases record_outcome hrecord with
      | unavailable reason _ _ hlock hresult =>
          exact hquiet hresult ((LockOutcome.of_eq hlock).shrinks.mono hlocked)
      | kept m _ _ hlock hresult =>
          exact hquiet hresult ((LockOutcome.of_eq hlock).shrinks.mono hlocked)
      | late m db₁ hdeciding hlate =>
          have hlock := LockOutcome.of_eq hdeciding.lock
          obtain ⟨hm, hid, _, _, _⟩ := hlock.mem_of_available
          exact hquiet (by simp) ((hlock.shrinks.mono hlocked).trans
            ((shrinks_expireWindow hm hid hdeciding.awaiting hlate).mono htrigger))
      | cleared m db₁ _ hdeciding hresult =>
          exact hquiet hresult (((LockOutcome.of_eq hdeciding.lock).shrinks.mono hlocked).trans
            (shrinks_clearChoice ..))
      | waiting m db₁ r db₂ sourceId' hdeciding hopen hreserves =>
          refine .reserved matchId userId legal cost t sourceId m db₁ r db₂ hdeciding hopen
            hreserves ?_ (by simp [World.next, hnext])
          simp only [World.next, hnext]
          exact .of_sameLedger (sameLedger_notifyWaiting ..)
      | released m db₁ r db₂ participant sourceId' hdeciding hopen hreserves =>
          refine .reserved matchId userId legal cost t sourceId m db₁ r db₂ hdeciding hopen
            hreserves ?_ (by simp [World.next, hnext])
          simp only [World.next, hnext]
          exact (shrinks_clearChoice ..).trans (.of_sameLedger (sameLedger_notifyWaiting ..))
      | confirmed m db₁ r db₂ charges db₃ hdeciding hopen hreserves hconfirms =>
          exact .confirmed matchId userId legal cost t sourceId m db₁ r db₂ charges db₃ hdeciding
            hopen hreserves hconfirms (by simp only [World.next, hnext])
            (by simp [World.next, hnext])

theorem stepEffect_createMessage {q : MessageRequest} {t : MessageClock}
    (henabled : (Action.createMessage q t).Enabled w) :
    StepEffect w (.createMessage q t) := by
  have hlocked : t.locked ≤ t.notified := (henabled.start (t.locked, t.notified) rfl).2
  cases hmessage : createMessage w.db q t with
  | error error =>
      have hnext : (Action.createMessage q t).apply w.db = (w.db, []) := by
        simp only [Action.apply, hmessage]
      refine .quiet _ ?_ (by simp [World.next, hnext])
      simp only [World.next, hnext]
      exact .refl _
  | ok answer =>
      obtain ⟨result, db'⟩ := answer
      cases createMessage_outcome hmessage with
      | unavailable reason _ lockResult hlock =>
          have hnext : (Action.createMessage q t).apply w.db = (db', []) := by
            simp only [Action.apply, hmessage]
          refine .quiet _ ?_ (by simp [World.next, hnext])
          simp only [World.next, hnext]
          exact (LockOutcome.of_eq hlock).shrinks.mono hlocked
      | answered m _ _ hlock hanswer =>
          have hnext : (Action.createMessage q t).apply w.db = (db', []) := by
            simp only [Action.apply, hmessage]
            cases result with
            | available creation => simp [hanswer creation rfl]
            | unavailable reason => rfl
            | idempotencyConflict => rfl
          refine .quiet _ ?_ (by simp [World.next, hnext])
          simp only [World.next, hnext]
          exact (LockOutcome.of_eq hlock).shrinks.mono hlocked
      | stored m db₁ messages hlock hstatus hinsert =>
          have hnext : (Action.createMessage q t).apply w.db =
              (publishMessage { db₁ with messages } m (q.row t.inserted) t.notified,
                [.stored (q.row t.inserted) t.locked]) := by
            simp only [Action.apply, hmessage, if_true]
          exact .stored q t m db₁ messages hlock hstatus hinsert (by simp only [World.next, hnext])
            (by simp [World.next, hnext])

/-- Every identifier in the match table was issued by a creation of the run. -/
def World.Issued (w : World) : Prop := ∀ m ∈ w.db.matchInit, m.id ∈ w.createdIds

theorem stepEffect_createFromMutualLike {id first second : Uuid} {now clock : ℤ}
    (hissued : w.Issued)
    (henabled : (Action.createFromMutualLike id first second now clock).Enabled w) :
    StepEffect w (.createFromMutualLike id first second now clock) := by
  cases hcreate : createFromMutualLike w.db id first second now clock with
  | error error =>
      have hnext : (Action.createFromMutualLike id first second now clock).apply w.db =
          (w.db, []) := by simp only [Action.apply, hcreate]
      refine .quiet _ ?_ (by simp [World.next, hnext])
      simp only [World.next, hnext]
      exact .refl _
  | ok answer =>
      obtain ⟨record, db'⟩ := answer
      rcases createFromMutualLike_eq_ok hcreate with ⟨rfl, hinserts⟩ | ⟨hmem, rfl⟩
      · have hnext : (Action.createFromMutualLike id first second now clock).apply w.db =
            (db', [.created (mutualLikeRecord id first second now)]) := by
          simp only [Action.apply, hcreate, mutualLikeRecord, if_true]
        refine .created id first second now clock ?_ (by simp [World.next, hnext])
        simp only [World.next, hnext]
        exact hinserts
      · have hne : record.id ≠ id := by
          intro heq
          exact henabled.fresh id first second now clock rfl (heq ▸ hissued record hmem)
        have hnext : (Action.createFromMutualLike id first second now clock).apply w.db =
            (w.db, []) := by simp only [Action.apply, hcreate, hne, if_false]
        refine .quiet _ ?_ (by simp [World.next, hnext])
        simp only [World.next, hnext]
        exact .refl _

theorem stepEffect {a : Action} (hissued : w.Issued) (henabled : a.Enabled w) :
    StepEffect w a := by
  cases a with
  | createFromMutualLike id first second now clock =>
      exact stepEffect_createFromMutualLike hissued henabled
  | recordContinuation matchId userId legal cost t sourceId =>
      exact stepEffect_recordContinuation henabled
  | recordEnd matchId userId checked stamped =>
      exact .quiet _ (shrinks_recordEnd ..) rfl
  | recordReveal matchId userId consent locked clock =>
      have hlocked : locked ≤ clock := (henabled.start (locked, clock) rfl).2
      cases hreveal : recordReveal w.db matchId userId consent locked clock with
      | error error =>
          have hnext : (Action.recordReveal matchId userId consent locked clock).apply w.db =
              (w.db, []) := by simp only [Action.apply, hreveal]
          refine .quiet _ ?_ (by simp [World.next, hnext])
          simp only [World.next, hnext]
          exact .refl _
      | ok answer =>
          have hnext : (Action.recordReveal matchId userId consent locked clock).apply w.db =
              (answer.2, []) := by simp only [Action.apply, hreveal]
          refine .quiet _ ?_ (by simp [World.next, hnext])
          simp only [World.next, hnext]
          exact (shrinks_recordReveal hreveal).mono hlocked
  | messagesForUser matchId userId locked =>
      exact .quiet _ (lockAvailableMatch_outcome ..).shrinks rfl
  | createMessage q t => exact stepEffect_createMessage henabled
  | markMessageRead matchId messageId userId locked clock =>
      have hlocked : locked ≤ clock := (henabled.start (locked, clock) rfl).2
      exact .quiet _ ((shrinks_markMessageRead ..).mono hlocked) rfl
  | markMessagesReadThrough matchId messageId userId locked clock =>
      have hlocked : locked ≤ clock := (henabled.start (locked, clock) rfl).2
      exact .quiet _ ((shrinks_markMessagesReadThrough ..).mono hlocked) rfl
  | enqueueFirstPeriodReminders pass clock =>
      exact .quiet _ (.of_sameLedger (sameLedger_enqueueDeadlines ..)) rfl
  | openContinuationWindows pass =>
      exact .quiet _ ((shrinks_openContinuationWindows ..).mono (henabled.captured pass rfl)) rfl
  | expireContinuationWindows pass =>
      exact .quiet _ ((shrinks_expireContinuationWindows ..).mono (henabled.captured pass rfl)) rfl
  | enqueueWarnings pass clock =>
      exact .quiet _ (.of_sameLedger (sameLedger_enqueueDeadlines ..)) rfl
  | closeInactiveMatches pass =>
      exact .quiet _ ((shrinks_closeInactiveMatches ..).mono (henabled.captured pass rfl)) rfl
  | deleteExpiredMessages pass chosen =>
      exact .quiet _ (.of_sameLedger ⟨rfl, rfl, rfl, rfl⟩) rfl
  | deleteExpiredNotifications pass chosen =>
      exact .quiet _ (.of_sameLedger ⟨rfl, rfl, rfl, rfl⟩) rfl
  | purgeExpiredMatches pass reported =>
      exact .quiet _ ((shrinks_purgeExpiredMatches ..).mono (henabled.captured pass rfl)) rfl
  | grantAdvertisingCredit userId now => exact .granted userId now rfl rfl
  | environment env => exact .quiet _ (.of_sameLedger ⟨rfl, rfl, rfl, rfl⟩) rfl
  | tick now => exact .quiet _ (.refl _) rfl

end Steps

section Rows

variable {w : World} {a : Action} {m' : MatchRecord}

def Event.matchId : Event → Uuid
  | .created m => m.id
  | .confirmed matchId _ _ => matchId
  | .stored message _ => message.matchId

theorem events_eq (events : List Event) (hlog : (w.next a).log = events ++ w.log) :
    (a.apply w.db).2 = events := List.append_cancel_right hlog

/-- Where a row of the next state comes from. -/
inductive RowEffect (w : World) (a : Action) (m' : MatchRecord) : Prop
  | evolved (m : MatchRecord) (hm : m ∈ w.db.matchInit) (hpath : Path (w.after a) none m m')
      (hother : ∀ event ∈ (a.apply w.db).2, event.matchId ≠ m'.id)
  | messaged (q : MessageRequest) (t : MessageClock) (m n : MatchRecord)
      (ha : a = .createMessage q t) (hm : m ∈ w.db.matchInit) (hpath : Path t.locked none m n)
      (hid : n.id = q.matchId) (hstatus : n.status = .active ∨ n.status = .confirmed)
      (hopen : t.locked < n.expiresAt) (hrow : m' = n.messagedAt t.inserted)
      (hlog : (w.next a).log = .stored (q.row t.inserted) t.locked :: w.log)
  | created (id first second : Uuid) (now clock : ℤ)
      (ha : a = .createFromMutualLike id first second now clock)
      (hrow : m' = mutualLikeRecord id first second now)
      (hlog : (w.next a).log = .created m' :: w.log)
  | confirmed (matchId userId : Uuid) (legal : Option LegalConfig) (cost : ℤ) (t : RecordClock)
      (sourceId : Uuid) (m n : MatchRecord)
      (ha : a = .recordContinuation matchId userId legal cost t sourceId)
      (hm : m ∈ w.db.matchInit) (hpath : Path t.now none m n) (hid : n.id = matchId)
      (hstatus : n.status = .awaitingContinuation) (hopen : t.guard < n.expiresAt)
      (hrow : m' = n.confirmedAt t.trigger)
      (hlog : (w.next a).log = .confirmed matchId t.guard t.trigger :: w.log)

theorem mem_publishMessage {db : Db} {available : MatchRecord} {message : MessageRecord}
    {clock : ℤ} (h : m' ∈ (publishMessage db available message clock).matchInit) :
    ∃ n ∈ db.matchInit, n.id = message.matchId ∧ m' = n.messagedAt message.createdAt ∨
      n.id ≠ message.matchId ∧ m' = n := by
  have hid : ∀ m : MatchRecord, { m with lastMessageAt := some message.createdAt }.id = m.id :=
    fun _ ↦ rfl
  rw [publishMessage, (sameLedger_enqueueNotification ..).matchInit] at h
  obtain ⟨n, hn, rfl⟩ := (mem_updateMatch hid).mp h
  refine ⟨n, hn, ?_⟩
  by_cases hmatch : n.id = message.matchId
  · left
    rw [if_pos (by simpa using hmatch), trackMatchInactivity_messagedAt]
    exact ⟨hmatch, rfl⟩
  · right
    rw [if_neg (by simpa using hmatch)]
    exact ⟨hmatch, rfl⟩

theorem rowEffect (hissued : w.Issued) (henabled : a.Enabled w)
    (hm' : m' ∈ (w.next a).db.matchInit) : RowEffect w a m' := by
  cases stepEffect hissued henabled with
  | quiet _ hshrinks hlog =>
      obtain ⟨m, hm, hpath⟩ := hshrinks.evolves m' hm'
      exact .evolved m hm hpath (by simp [events_eq [] hlog])
  | stored q t m db₁ messages hlock hstatus hinsert hdb hlog =>
      have hshrinks : Shrinks t.locked none w.db db₁ := (LockOutcome.of_eq hlock).shrinks
      obtain ⟨hmem, hid, _, _, hopen⟩ := (LockOutcome.of_eq hlock).mem_of_available
      have hlocked : t.locked ≤ t.notified := (henabled.start (t.locked, t.notified) rfl).2
      rw [hdb] at hm'
      obtain ⟨n, hn, hcases⟩ := mem_publishMessage hm'
      obtain ⟨k, hk, hpath⟩ := hshrinks.evolves n hn
      rcases hcases with ⟨hnid, hrow⟩ | ⟨hne, rfl⟩
      · obtain rfl : n = m := Table.eq_of_key_eq hn hmem (hnid.trans hid.symm)
        exact .messaged q t k n rfl hk hpath hid hstatus hopen hrow hlog
      · exact .evolved k hk (hpath.mono hlocked)
          (by simpa [events_eq [_] hlog, Event.matchId] using hne.symm)
  | created id first second now clock hinserts hlog =>
      rcases (Table.mem_insert hinserts.matchInit).mp hm' with hrow | hm
      · exact .created id first second now clock rfl hrow (hrow ▸ hlog)
      · have hfresh := (Table.insert?_eq_some_iff.mp hinserts.matchInit).1
        have hne := Table.find?_eq_none_iff.mp hfresh m' hm
        exact .evolved m' hm .refl (by simpa [events_eq [_] hlog, Event.matchId] using hne.symm)
  | reserved matchId userId legal cost t sourceId m db₁ r db₂ hdeciding hopen hreserves hafter
      hlog =>
      have ht : t.Ordered := henabled.ordered
      have hnow : w.clock ≤ t.now ∧ t.now ≤ t.trigger := henabled.start (t.now, t.trigger) rfl
      have hshrinks : Shrinks t.now none w.db db₁ :=
        (LockOutcome.of_eq hdeciding.lock).shrinks.mono ht.locked_le_now
      obtain ⟨n, hn, hpath⟩ := hafter.evolves m' hm'
      obtain ⟨k, hk, hpath'⟩ := hshrinks.evolves n (hreserves.matchInit ▸ hn)
      exact .evolved k hk (Path.mono (hpath'.trans hpath) hnow.2) (by simp [events_eq [] hlog])
  | confirmed matchId userId legal cost t sourceId m db₁ r db₂ charges db₃ hdeciding hopen
      hreserves hconfirms hdb hlog =>
      have ht : t.Ordered := henabled.ordered
      have hnow : w.clock ≤ t.now ∧ t.now ≤ t.trigger := henabled.start (t.now, t.trigger) rfl
      have hshrinks : Shrinks t.now none w.db db₁ :=
        (LockOutcome.of_eq hdeciding.lock).shrinks.mono ht.locked_le_now
      obtain ⟨hmem, hid, _, _, _⟩ := (LockOutcome.of_eq hdeciding.lock).mem_of_available
      have hstatus : m.status ≠ .confirmed := by simp [hdeciding.awaiting]
      rw [hdb] at hm'
      rcases mem_confirmedDb_cases hconfirms (hreserves.matchInit ▸ hmem) hid hstatus hm' with
        ⟨hrow, hguard⟩ | ⟨hn, hne⟩
      · obtain ⟨k, hk, hpath⟩ := hshrinks.evolves m hmem
        exact .confirmed matchId userId legal cost t sourceId k m rfl hk hpath hid
          hdeciding.awaiting hguard hrow hlog
      · obtain ⟨k, hk, hpath⟩ := hshrinks.evolves m' (hreserves.matchInit ▸ hn)
        exact .evolved k hk (hpath.mono hnow.2)
          (by simpa [events_eq [_] hlog, Event.matchId] using hne.symm)
  | granted userId now hdb hlog =>
      obtain ⟨wallets, hgrant⟩ := grantAdvertisingCredit_frame w.db userId now
      rw [hdb, hgrant] at hm'
      exact .evolved m' hm' .refl (by simp [events_eq [] hlog])

theorem mem_createdIds {id : Uuid} :
    id ∈ w.createdIds ↔ ∃ m, Event.created m ∈ w.log ∧ m.id = id := by
  unfold World.createdIds
  rw [List.mem_filterMap]
  constructor
  · rintro ⟨event, hevent, hsome⟩
    cases event with
    | created m => exact ⟨m, hevent, Option.some.inj hsome⟩
    | confirmed matchId guard trigger => cases hsome
    | stored message locked => cases hsome
  · rintro ⟨m, hm, rfl⟩
    exact ⟨.created m, hm, rfl⟩

theorem createdIds_mono (w : World) (a : Action) {id : Uuid} (h : id ∈ w.createdIds) :
    id ∈ (w.next a).createdIds := by
  obtain ⟨m, hm, hid⟩ := mem_createdIds.mp h
  exact mem_createdIds.mpr ⟨m, List.mem_append_right _ hm, hid⟩

theorem World.Issued.next (hissued : w.Issued) (henabled : a.Enabled w) : (w.next a).Issued := by
  intro m' hm'
  cases rowEffect hissued henabled hm' with
  | evolved m hm hpath hother =>
      rw [hpath.sameIdentity.id]
      exact createdIds_mono w a (hissued m hm)
  | messaged q t m n ha hm hpath hid hstatus hopen hrow hlog =>
      have hsame : m'.id = m.id := by
        rw [hrow]
        exact hpath.sameIdentity.id
      rw [hsame]
      exact createdIds_mono w a (hissued m hm)
  | created id first second now clock ha hrow hlog =>
      exact mem_createdIds.mpr ⟨m', hlog ▸ List.mem_cons_self, rfl⟩
  | confirmed matchId userId legal cost t sourceId m n ha hm hpath hid hstatus hopen hrow hlog =>
      have hsame : m'.id = m.id := by
        rw [hrow]
        exact hpath.sameIdentity.id
      rw [hsame]
      exact createdIds_mono w a (hissued m hm)

end Rows

end Histae.Matches
