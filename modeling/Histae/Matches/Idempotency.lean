import Histae.Matches.Sending

/-!
# Sending a message is idempotent

The unique index on the sender and the key arbitrates between calls that hold
the locks of different matches. `CallInvariant` says what the calls in flight
may rely on: a held row is as it was read, and the key and the id of an
inserted row are free. `AnswerInvariant` relates the answers to the stored
messages. From both follows what a whole run of concurrent calls can answer.
-/

namespace Histae.Matches

open Relational Systems

/-- What a call that stores no message may write: the ageing of its match. -/
structure AgesOnly (matchId : Uuid) (db db' : Db) : Prop where
  messages : db'.messages = db.messages
  notifications : db'.notifications = db.notifications
  usage : db'.usage = db.usage
  wallets : db'.wallets = db.wallets
  matchState : db'.matchState = db.matchState
  others : ∀ id, id ≠ matchId → db'.matchInit.find? id = db.matchInit.find? id
  lastMessageAt : ∀ id, (db'.matchInit.find? id).map MatchRecord.lastMessageAt =
    (db.matchInit.find? id).map MatchRecord.lastMessageAt
  deadline : ∀ m ∈ db'.matchInit, m.status = .confirmed → m ∈ db.matchInit

namespace AgesOnly

variable {matchId : Uuid} {db db' db'' : Db}

theorem refl (matchId : Uuid) (db : Db) : AgesOnly matchId db db :=
  ⟨rfl, rfl, rfl, rfl, rfl, fun _ _ ↦ rfl, fun _ ↦ rfl, fun _ hm _ ↦ hm⟩

theorem trans (h : AgesOnly matchId db db') (h' : AgesOnly matchId db' db'') :
    AgesOnly matchId db db'' where
  messages := h'.messages.trans h.messages
  notifications := h'.notifications.trans h.notifications
  usage := h'.usage.trans h.usage
  wallets := h'.wallets.trans h.wallets
  matchState := h'.matchState.trans h.matchState
  others id hid := (h'.others id hid).trans (h.others id hid)
  lastMessageAt id := (h'.lastMessageAt id).trans (h.lastMessageAt id)
  deadline m hm hstatus := h.deadline m (h'.deadline m hm hstatus) hstatus

theorem deleteReservations (matchId : Uuid) (db : Db) :
    AgesOnly matchId db (deleteReservations db matchId) :=
  ⟨rfl, rfl, rfl, rfl, rfl, fun _ _ ↦ rfl, fun _ ↦ rfl, fun _ hm _ ↦ hm⟩

/-- An update of the match that leaves it unconfirmed and keeps the date of
its last message. -/
theorem updateMatch {clock : ℤ} {f : MatchRecord → MatchRecord} (hf : ∀ m, (f m).id = m.id)
    (hstatus : ∀ m, (f m).status ≠ .confirmed)
    (hlast : ∀ m, (f m).lastMessageAt = m.lastMessageAt) :
    AgesOnly matchId db (updateMatch db clock (fun m ↦ m.id = matchId) f hf) := by
  have htrack : ∀ m, trackMatchInactivity clock m (f m) = f m :=
    fun m ↦ trackMatchInactivity_of_ne (hstatus m)
  have hfind : ∀ id, (Matches.updateMatch db clock (fun m ↦ m.id = matchId) f hf).matchInit.find? id =
      (db.matchInit.find? id).map fun m ↦ if m.id = matchId then f m else m := by
    intro id
    refine (Table.find?_modify fun m ↦ (trackMatchInactivity_id clock m (f m)).trans (hf m)).trans ?_
    simp [htrack]
  refine ⟨rfl, rfl, rfl, rfl, rfl, fun id hid ↦ ?_, fun id ↦ ?_, fun m' hm' hconfirmed ↦ ?_⟩
  · rw [hfind]
    cases h : db.matchInit.find? id with
    | none => rfl
    | some m =>
        have hne : m.id ≠ matchId := by
          rw [(Table.find?_eq_some_iff.mp h).2]
          exact hid
        simp [hne]
  · rw [hfind]
    cases db.matchInit.find? id with
    | none => rfl
    | some m => by_cases hm : m.id = matchId <;> simp [hm, hlast]
  · obtain ⟨m, hm, rfl⟩ := (mem_updateMatch hf).mp hm'
    by_cases hid : m.id = matchId
    · simp only [hid, decide_true, if_true, htrack] at hconfirmed
      exact absurd hconfirmed (hstatus m)
    · simpa [hid] using hm

theorem closeMatch (now : ℤ) : AgesOnly matchId db (closeMatch db matchId now) :=
  updateMatch _ (fun _ ↦ nofun) fun _ ↦ rfl

theorem openWindow (now : ℤ) : AgesOnly matchId db (openWindow db matchId now) :=
  updateMatch _ (fun _ ↦ nofun) fun _ ↦ rfl

theorem expireWindow (now : ℤ) : AgesOnly matchId db (expireWindow db matchId now) := by
  have hkept : ∀ m : MatchRecord, (m.expiredUntil (now + days matchPurgeDays)).id = m.id :=
    fun _ ↦ rfl
  have hupdate : AgesOnly matchId db (Matches.updateMatch db now (fun m ↦ m.id = matchId)
      (MatchRecord.expiredUntil (now + days matchPurgeDays)) hkept) :=
    updateMatch hkept (fun _ ↦ nofun) fun _ ↦ rfl
  exact hupdate.trans (deleteReservations matchId _)

theorem lockAvailableMatch (db : Db) (matchId userId : Uuid) (now : ℤ) :
    AgesOnly matchId db (lockAvailableMatch db matchId userId now).2 := by
  have houtcome := lockAvailableMatch_outcome db matchId userId now
  generalize (Matches.lockAvailableMatch db matchId userId now).1 = result at houtcome
  generalize (Matches.lockAvailableMatch db matchId userId now).2 = db' at houtcome ⊢
  cases houtcome with
  | notFound => exact refl matchId db
  | closed => exact closeMatch now
  | openedExpired => exact (openWindow now).trans (expireWindow now)
  | opened => exact openWindow now
  | expired => exact expireWindow now
  | finished => exact refl matchId db
  | live => exact refl matchId db

end AgesOnly

section Publish

variable {db : Db} {m : MatchRecord} {row : MessageRecord} {clock : ℤ} {id : Uuid}

theorem messages_enqueueNotification (db : Db) (clock : ℤ) (userId : Uuid)
    (source : NotificationSource) (intent : NotificationIntent) :
    (enqueueNotification db clock userId source intent).messages = db.messages := by
  unfold enqueueNotification
  split
  · rfl
  · split <;> rfl

theorem messages_publishMessage : (publishMessage db m row clock).messages = db.messages :=
  messages_enqueueNotification ..

theorem find?_publishMessage : (publishMessage db m row clock).matchInit.find? id =
    (db.matchInit.find? id).map fun n ↦
      if n.id = row.matchId then n.messagedAt row.createdAt else n := by
  unfold publishMessage
  rw [(sameLedger_enqueueNotification ..).matchInit]
  have hkept : ∀ n : MatchRecord, (trackMatchInactivity clock n
      { n with lastMessageAt := some row.createdAt }).id = n.id :=
    fun n ↦ trackMatchInactivity_id ..
  refine (Table.find?_modify hkept).trans ?_
  simp [trackMatchInactivity_messagedAt]

theorem find?_publishMessage_of_ne (hid : id ≠ row.matchId) :
    (publishMessage db m row clock).matchInit.find? id = db.matchInit.find? id := by
  rw [find?_publishMessage]
  cases h : db.matchInit.find? id with
  | none => rfl
  | some n =>
      have hne : n.id ≠ row.matchId := by
        rw [(Table.find?_eq_some_iff.mp h).2]
        exact hid
      simp [hne]

end Publish

/-- The row a call has locked. -/
def Phase.available : Phase → Option MatchRecord
  | .locked m | .searched m | .inserted m _ => some m
  | .begun | .conflicted => none

/-- The key and the id of the request are free in the committed tables. -/
structure Unstored (db : Db) (q : MessageRequest) : Prop where
  key : ∀ n ∈ db.messages, n.keyed q.senderId q.idempotencyKey = false
  id : db.messages.find? q.messageId = none

structure CallInvariant (s : SendTraffic) : Prop where
  exclusive : ∀ c ∈ s.calls, ∀ d ∈ s.calls, ∀ matchId, holds matchId c = true →
    holds matchId d = true → c = d
  held : ∀ c ∈ s.calls, ∀ m, c.phase.available = some m →
    s.db.matchInit.find? c.request.matchId = some m
  inserted : ∀ c ∈ s.calls, ∀ m row, c.phase = .inserted m row →
    (∃ at_, row = c.request.row at_) ∧ Unstored s.db c.request
  apart : ∀ c ∈ s.calls, ∀ m row, c.phase = .inserted m row →
    ∀ d ∈ s.calls, clashes c.request d = true → d = c

section Held

variable {c : SendCall} {matchId : Uuid} {q : MessageRequest}

theorem phase_ne_begun_of_holds (h : holds matchId c = true) : c.phase ≠ .begun := by
  simp only [holds, Bool.and_eq_true, decide_eq_true_eq] at h
  exact h.1

theorem phase_ne_begun_of_clashes (h : clashes q c = true) : c.phase ≠ .begun := by
  intro hphase
  simp [clashes, hphase] at h

theorem holds_of_ne_begun (h : c.phase ≠ .begun) : holds c.request.matchId c = true := by
  simp [holds, h]

theorem ne_begun_of_available {m : MatchRecord} (h : c.phase.available = some m) :
    c.phase ≠ .begun := by
  intro hphase
  rw [hphase] at h
  cases h

theorem matchId_ne_of_not_holds (h : c.phase ≠ .begun) (hholds : holds matchId c = false) :
    c.request.matchId ≠ matchId := by
  rintro rfl
  rw [holds_of_ne_begun h] at hholds
  cases hholds

end Held

namespace CallInvariant

variable {s : SendTraffic} {c d : SendCall} {clock : ℤ}

/-- New and departing calls: every call past its beginning was there before. -/
theorem of_calls (h : CallInvariant s) {calls : Table (Call.id : SendCall → ℕ)}
    (hcalls : ∀ d ∈ calls, d.phase ≠ .begun → d ∈ s.calls) :
    CallInvariant { s with calls } where
  exclusive c hc d hd matchId hcholds hdholds :=
    h.exclusive c (hcalls c hc (phase_ne_begun_of_holds hcholds)) d
      (hcalls d hd (phase_ne_begun_of_holds hdholds)) matchId hcholds hdholds
  held c hc m hm := h.held c (hcalls c hc (ne_begun_of_available hm)) m hm
  inserted c hc m row hphase := h.inserted c (hcalls c hc (by simp [hphase])) m row hphase
  apart c hc m row hphase d hd hclash :=
    h.apart c (hcalls c hc (by simp [hphase])) m row hphase d
      (hcalls d hd (phase_ne_begun_of_clashes hclash)) hclash

theorem leave (h : CallInvariant s) (id : ℕ) : CallInvariant { s with calls := s.leave id } :=
  h.of_calls fun _ hd _ ↦ (Traffic.mem_leave.mp hd).1

theorem not_holds_of_ne_begun (h : CallInvariant s) (hc : c ∈ s.calls) (hphase : c.phase ≠ .begun) :
    ∀ d ∈ s.calls, d.id ≠ c.id → holds c.request.matchId d = false := by
  intro d hd hid
  by_contra hholds
  rw [Bool.not_eq_false] at hholds
  exact hid (congrArg Call.id
    (h.exclusive d hd c hc c.request.matchId hholds (holds_of_ne_begun hphase)))

/-- Two inserted rows clash in both directions. -/
theorem clashes_comm (h : CallInvariant s) {m : MatchRecord} {row : MessageRecord}
    (hd : d ∈ s.calls) (hphase : d.phase = .inserted m row) {e : SendCall} {n : MatchRecord} {at_ : ℤ}
    (he : e.phase = .inserted n (e.request.row at_)) (hclash : clashes d.request e = true) :
    clashes e.request d = true := by
  obtain ⟨⟨stored, rfl⟩, _⟩ := h.inserted d hd m row hphase
  simp only [clashes, hphase, he, MessageRequest.row, Bool.or_eq_true, Bool.and_eq_true,
    decide_eq_true_eq, Option.some.injEq] at hclash ⊢
  rcases hclash with hid | ⟨hsender, hkey⟩
  · exact Or.inl hid.symm
  · exact Or.inr ⟨hsender.symm, hkey.symm⟩

theorem of_proceed (h : CallInvariant s) (hc : c ∈ s.calls) {phase : Phase}
    (hlock : ∀ d ∈ s.calls, d.id ≠ c.id → holds c.request.matchId d = false)
    (hheld : ∀ m, phase.available = some m → s.db.matchInit.find? c.request.matchId = some m)
    (hinserted : ∀ m row, phase = .inserted m row → (∃ at_, row = c.request.row at_) ∧
      Unstored s.db c.request ∧ ∀ d ∈ s.calls, clashes c.request d = false) :
    CallInvariant { s with calls := s.proceed c.id phase } := by
  have hfree : ∀ d ∈ s.calls, d.id ≠ c.id → ∀ matchId, holds matchId (c.withPhase phase) = true →
      holds matchId d = false := by
    intro d hd hid matchId hholds
    obtain ⟨_, hmatch⟩ := Bool.and_eq_true_iff.mp hholds
    rw [← of_decide_eq_true hmatch]
    exact hlock d hd hid
  refine ⟨?_, ?_, ?_, ?_⟩
  · intro d hd e he matchId hdholds heholds
    rcases (Traffic.mem_proceed hc).mp hd with rfl | ⟨hd, hdid⟩
    · rcases (Traffic.mem_proceed hc).mp he with rfl | ⟨he, heid⟩
      · rfl
      · rw [hfree e he heid matchId hdholds] at heholds
        cases heholds
    · rcases (Traffic.mem_proceed hc).mp he with rfl | ⟨he, heid⟩
      · rw [hfree d hd hdid matchId heholds] at hdholds
        cases hdholds
      · exact h.exclusive d hd e he matchId hdholds heholds
  · intro d hd m hm
    rcases (Traffic.mem_proceed hc).mp hd with rfl | ⟨hd, _⟩
    · exact hheld m hm
    · exact h.held d hd m hm
  · intro d hd m row hphase
    rcases (Traffic.mem_proceed hc).mp hd with rfl | ⟨hd, _⟩
    · exact ⟨(hinserted m row hphase).1, (hinserted m row hphase).2.1⟩
    · exact h.inserted d hd m row hphase
  · intro d hd m row hphase e he hclash
    rcases (Traffic.mem_proceed hc).mp hd with rfl | ⟨hd, _⟩
    · rcases (Traffic.mem_proceed hc).mp he with rfl | ⟨he, _⟩
      · rfl
      · have hapart : clashes c.request e = false := (hinserted m row hphase).2.2 e he
        rw [show clashes c.request e = true from hclash] at hapart
        cases hapart
    · rcases (Traffic.mem_proceed hc).mp he with rfl | ⟨he, _⟩
      · cases hp : phase with
        | inserted n row' =>
            obtain ⟨⟨at_, rfl⟩, _, hapart⟩ := hinserted n row' hp
            have hinverse : clashes c.request d = true :=
              h.clashes_comm hd hphase (e := c.withPhase phase) hp hclash
            rw [hapart d hd] at hinverse
            cases hinverse
        | _ => simp [clashes, Call.withPhase, hp] at hclash
      · exact h.apart d hd m row hphase e he hclash

theorem proceeded (h : CallInvariant s) (hc : c ∈ s.calls) {phase : Phase}
    (hstep : Proceeds s c clock phase) : CallInvariant { s with calls := s.proceed c.id phase } := by
  cases hstep with
  | locked m hphase hfree hfound hstatus =>
      refine h.of_proceed hc (fun d hd _ ↦ hfree d hd) (fun n hn ↦ ?_) fun _ _ hins ↦ ?_
      · rw [← Option.some.inj hn]
        exact hfound
      · cases hins
  | searched m hphase =>
      have hheld := h.held c hc m (by rw [hphase, Phase.available])
      have hne : c.phase ≠ .begun := by simp [hphase]
      refine h.of_proceed hc (h.not_holds_of_ne_begun hc hne) (fun n hn ↦ ?_) fun _ _ hins ↦ ?_
      · rw [← Option.some.inj hn]
        exact hheld
      · cases hins
  | conflicted m hphase =>
      have hne : c.phase ≠ .begun := by simp [hphase]
      refine h.of_proceed hc (h.not_holds_of_ne_begun hc hne) (fun n hn ↦ ?_) fun _ _ hins ↦ ?_
      · cases hn
      · cases hins
  | inserted m hphase hapart hkey hid =>
      have hheld := h.held c hc m (by rw [hphase, Phase.available])
      have hne : c.phase ≠ .begun := by simp [hphase]
      refine h.of_proceed hc (h.not_holds_of_ne_begun hc hne) (fun n hn ↦ ?_) fun n row hins ↦ ?_
      · rw [← Option.some.inj hn]
        exact hheld
      · obtain ⟨-, rfl⟩ := Phase.inserted.inj hins
        exact ⟨⟨clock, rfl⟩, ⟨hkey, hid⟩, hapart⟩

theorem of_commit (h : CallInvariant s) {db : Db} {answers : List SendAnswer}
    (hrows : ∀ d ∈ s.calls, d.id ≠ c.id → d.phase ≠ .begun →
      db.matchInit.find? d.request.matchId = s.db.matchInit.find? d.request.matchId)
    (hstored : ∀ d ∈ s.calls, d.id ≠ c.id → ∀ m row, d.phase = .inserted m row →
      Unstored db d.request) : CallInvariant ⟨db, s.leave c.id, answers⟩ := by
  have hold := h.leave c.id
  refine ⟨hold.exclusive, ?_, ?_, hold.apart⟩
  · intro d hd m hm
    obtain ⟨hmem, hid⟩ := Traffic.mem_leave.mp hd
    rw [hrows d hmem hid (ne_begun_of_available hm)]
    exact h.held d hmem m hm
  · intro d hd m row hphase
    obtain ⟨hmem, hid⟩ := Traffic.mem_leave.mp hd
    exact ⟨(h.inserted d hmem m row hphase).1, hstored d hmem hid m row hphase⟩

theorem answered (h : CallInvariant s) (hc : c ∈ s.calls) {result : MessageCreationResult} {db : Db}
    (hcommit : Commits s c clock result db) {answers : List SendAnswer} :
    CallInvariant ⟨db, s.leave c.id, answers⟩ := by
  cases hcommit with
  | unavailable reason hphase hfree =>
      have hages := AgesOnly.lockAvailableMatch s.db c.request.matchId c.request.senderId clock
      refine h.of_commit (fun d hd _ hne ↦ ?_) fun d hd _ m row hins ↦ ?_
      · rcases hfree with hsame | hfree
        · rw [hsame]
        · exact hages.others _ (matchId_ne_of_not_holds hne (hfree d hd))
      · have hold := (h.inserted d hd m row hins).2
        exact ⟨hages.messages ▸ hold.key, hages.messages ▸ hold.id⟩
  | conflict =>
      exact h.of_commit (fun _ _ _ _ ↦ rfl) fun d hd _ m row hins ↦ (h.inserted d hd m row hins).2
  | replayed creation hmem hkeyed hmatch hcontent hcreated =>
      exact h.of_commit (fun _ _ _ _ ↦ rfl) fun d hd _ m row hins ↦ (h.inserted d hd m row hins).2
  | created m row messages hphase hinsert =>
      obtain ⟨⟨at_, rfl⟩, _⟩ := h.inserted c hc m row hphase
      have hne : c.phase ≠ .begun := by simp [hphase]
      refine h.of_commit (fun d hd hid hbegun ↦ ?_) fun d hd hid n row hins ↦ ?_
      · have hfree := h.not_holds_of_ne_begun hc hne d hd hid
        exact find?_publishMessage_of_ne (matchId_ne_of_not_holds hbegun hfree)
      · have hold := (h.inserted d hd n row hins).2
        have hapart : clashes d.request c = false := by
          by_contra hclash
          rw [Bool.not_eq_false] at hclash
          exact hid (congrArg Call.id (h.apart d hd n row hins c hc hclash)).symm
        simp only [clashes, hphase, Bool.or_eq_false_iff] at hapart
        constructor
        · intro stored hstored
          rw [messages_publishMessage] at hstored
          rcases (Table.mem_insert hinsert).mp hstored with rfl | hstored
          · exact hapart.2
          · exact hold.key stored hstored
        · have hne : (c.request.row at_).id ≠ d.request.messageId := by simpa using hapart.1
          rw [messages_publishMessage, Table.find?_insert hinsert, if_neg hne]
          exact hold.id

theorem next (h : CallInvariant s) {a : SendStep} (henabled : sending.Enabled s a) :
    CallInvariant (sending.next s a) := by
  have heffect := Protocol.effect_of_enabled henabled
  rw [show sending.next s a = sendProtocol.system.next s a from rfl]
  generalize sendProtocol.system.next s a = s' at heffect ⊢
  cases heffect with
  | began id q calls hinsert =>
      refine h.of_calls fun d hd hne ↦ ?_
      rcases (Table.mem_insert hinsert).mp hd with rfl | hd
      · exact absurd rfl hne
      · exact hd
  | left => exact h.leave _
  | proceeded c clock phase hc hwaits hstatement =>
      exact h.proceeded hc (proceeds_of_statement hwaits hstatement)
  | answered c clock result db hc hwaits hstatement =>
      exact h.answered hc (commits_of_statement hwaits hstatement)

end CallInvariant

/-- The unique index on the sender and the key. -/
def Db.KeysUnique (db : Db) : Prop :=
  ∀ senderId key, ∀ m ∈ db.messages, ∀ n ∈ db.messages, m.keyed senderId key = true →
    n.keyed senderId key = true → m = n

/-- The answer reports that a request with this sender and key stored its
message. -/
def createsMessage (senderId key : Uuid) (a : SendAnswer) : Bool :=
  match a.result with
  | .available creation =>
      creation.created && (a.request.senderId = senderId && a.request.idempotencyKey = key)
  | _ => false

/-- The message of an answer is the stored one and is what the request asks
to send. -/
structure Delivers (db : Db) (q : MessageRequest) (message : MessageRecord) : Prop where
  stored : message ∈ db.messages
  keyed : message.keyed q.senderId q.idempotencyKey = true
  matchId : message.matchId = q.matchId
  content : message.content = q.content

structure AnswerInvariant (db₀ : Db) (s : SendTraffic) : Prop where
  unique : s.db.KeysUnique
  answered : ∀ a ∈ s.answers, ∀ creation, a.result = .available creation →
    Delivers s.db a.request creation.message
  counted : ∀ senderId key, s.answers.countP (createsMessage senderId key) +
    db₀.messages.count (MessageRecord.keyed senderId key) =
      s.db.messages.count (MessageRecord.keyed senderId key)

namespace AnswerInvariant

variable {db₀ : Db} {s : SendTraffic} {c : SendCall} {clock : ℤ}

/-- An answer that creates nothing, over unchanged messages. -/
theorem of_messages (h : AnswerInvariant db₀ s) {db : Db} (hdb : db.messages = s.db.messages)
    {q : MessageRequest} {result : MessageCreationResult} {calls : Table (Call.id : SendCall → ℕ)}
    (hcreated : ∀ creation, result = .available creation → creation.created = false ∧
      Delivers s.db q creation.message) :
    AnswerInvariant db₀ ⟨db, calls, ⟨q, result⟩ :: s.answers⟩ := by
  refine ⟨?_, ?_, ?_⟩
  · intro senderId key m hm n hn
    rw [hdb] at hm hn
    exact h.unique senderId key m hm n hn
  · intro a ha creation hresult
    have hdelivers : Delivers s.db a.request creation.message := by
      rcases List.mem_cons.mp ha with rfl | ha
      · exact (hcreated creation hresult).2
      · exact h.answered a ha creation hresult
    exact { hdelivers with stored := hdb ▸ hdelivers.stored }
  · intro senderId key
    have hnot : createsMessage senderId key ⟨q, result⟩ = false := by
      cases result with
      | available creation => simp [createsMessage, (hcreated creation rfl).1]
      | unavailable reason => rfl
      | idempotencyConflict => rfl
    rw [List.countP_cons_of_neg (by simp [hnot]), hdb]
    exact h.counted senderId key

theorem created (h : AnswerInvariant db₀ s) {at_ : ℤ} (hfree : Unstored s.db c.request)
    {messages : Table MessageRecord.id}
    (hinsert : s.db.messages.insert? (c.request.row at_) = some messages) {db : Db}
    (hdb : db.messages = messages) {participants : Uuid × Uuid} {calls : Table (Call.id : SendCall → ℕ)} :
    AnswerInvariant db₀ ⟨db, calls,
      ⟨c.request, .available ⟨c.request.row at_, participants, true⟩⟩ :: s.answers⟩ := by
  subst hdb
  have hmem : ∀ {n}, n ∈ db.messages ↔ n = c.request.row at_ ∨ n ∈ s.db.messages :=
    Table.mem_insert hinsert
  have hkeyed : ∀ senderId key, (c.request.row at_).keyed senderId key =
      (decide (c.request.senderId = senderId) && decide (c.request.idempotencyKey = key)) := by
    intro senderId key
    exact congrArg₂ _ rfl (decide_eq_decide.mpr Option.some_inj)
  have hown : (c.request.row at_).keyed c.request.senderId c.request.idempotencyKey = true := by
    simp [hkeyed]
  have hsole : ∀ senderId key, (c.request.row at_).keyed senderId key = true →
      ∀ n ∈ s.db.messages, n.keyed senderId key = false := by
    intro senderId key hrow n hn
    rw [hkeyed, Bool.and_eq_true, decide_eq_true_eq, decide_eq_true_eq] at hrow
    obtain ⟨rfl, rfl⟩ := hrow
    exact hfree.key n hn
  refine ⟨?_, ?_, ?_⟩
  · intro senderId key m hm n hn hmkey hnkey
    rcases hmem.mp hm with rfl | hm
    · rcases hmem.mp hn with rfl | hn
      · rfl
      · rw [hsole senderId key hmkey n hn] at hnkey
        cases hnkey
    · rcases hmem.mp hn with rfl | hn
      · rw [hsole senderId key hnkey m hm] at hmkey
        cases hmkey
      · exact h.unique senderId key m hm n hn hmkey hnkey
  · intro a ha creation hresult
    rcases List.mem_cons.mp ha with rfl | ha
    · obtain rfl := MessageCreationResult.available.inj hresult
      exact ⟨hmem.mpr (Or.inl rfl), hown, rfl, rfl⟩
    · have hold := h.answered a ha creation hresult
      exact { hold with stored := hmem.mpr (Or.inr hold.stored) }
  · intro senderId key
    have hcount := h.counted senderId key
    have hcreates : createsMessage senderId key
        ⟨c.request, .available ⟨c.request.row at_, participants, true⟩⟩ =
          (c.request.row at_).keyed senderId key := by
      rw [hkeyed]
      rfl
    have hrows : db.messages.count (MessageRecord.keyed senderId key) =
        ((c.request.row at_) :: s.db.messages.rows).countP (MessageRecord.keyed senderId key) := by
      rw [Table.count, (Table.insert?_eq_some_iff.mp hinsert).2]
    rw [hrows, List.countP_cons, List.countP_cons, hcreates]
    change _ = s.db.messages.count _ + _
    omega

theorem next (h : AnswerInvariant db₀ s) (hcalls : CallInvariant s) {a : SendStep}
    (henabled : sending.Enabled s a) : AnswerInvariant db₀ (sending.next s a) := by
  have heffect := Protocol.effect_of_enabled henabled
  rw [show sending.next s a = sendProtocol.system.next s a from rfl]
  generalize sendProtocol.system.next s a = s' at heffect ⊢
  cases heffect with
  | began id q calls hinsert => exact ⟨h.unique, h.answered, h.counted⟩
  | left => exact ⟨h.unique, h.answered, h.counted⟩
  | proceeded => exact ⟨h.unique, h.answered, h.counted⟩
  | answered c clock result db hc hwaits hstatement =>
      cases commits_of_statement hwaits hstatement with
      | unavailable reason hphase hfree =>
          exact h.of_messages (AgesOnly.lockAvailableMatch ..).messages nofun
      | conflict => exact h.of_messages rfl nofun
      | replayed creation hmem hkeyed hmatch hcontent hcreated =>
          refine h.of_messages rfl ?_
          intro replay hreplay
          obtain rfl := MessageCreationResult.available.inj hreplay
          exact ⟨hcreated, hmem, hkeyed, hmatch, hcontent⟩
      | created m row messages hphase hinsert =>
          obtain ⟨⟨at_, rfl⟩, hfree⟩ := hcalls.inserted c hc m row hphase
          exact h.created hfree hinsert messages_publishMessage

end AnswerInvariant

/-- What one step of the calls may write: nothing, the ageing of a match that
is refused, or the one message that is answered as created. -/
inductive Writes (s s' : SendTraffic) : Prop
  | nothing (hdb : s'.db = s.db)
  | aged (q : MessageRequest) (reason : MatchAvailabilityFailure) (now : ℤ)
      (hanswer : s'.answers = ⟨q, .unavailable reason⟩ :: s.answers)
      (hdb : s'.db = (lockAvailableMatch s.db q.matchId q.senderId now).2)
      (hages : AgesOnly q.matchId s.db s'.db)
  | created (q : MessageRequest) (at_ : ℤ) (m : MatchRecord)
      (hanswer : s'.answers =
        ⟨q, .available ⟨q.row at_, (m.user1Id, m.user2Id), true⟩⟩ :: s.answers)
      (hstored : ∀ n, n ∈ s'.db.messages ↔ n = q.row at_ ∨ n ∈ s.db.messages)
      (hfound : s.db.matchInit.find? q.matchId = some m)
      (hmoved : s'.db.matchInit.find? q.matchId = some (m.messagedAt at_))
      (hothers : ∀ id, id ≠ q.matchId → s'.db.matchInit.find? id = s.db.matchInit.find? id)

theorem writes_of_enabled {s : SendTraffic} {a : SendStep} (h : CallInvariant s)
    (henabled : sending.Enabled s a) : Writes s (sending.next s a) := by
  have heffect := Protocol.effect_of_enabled henabled
  rw [show sending.next s a = sendProtocol.system.next s a from rfl]
  generalize sendProtocol.system.next s a = s' at heffect ⊢
  cases heffect with
  | began id q calls hinsert => exact .nothing rfl
  | left => exact .nothing rfl
  | proceeded => exact .nothing rfl
  | answered c clock result db hc hwaits hstatement =>
      cases commits_of_statement hwaits hstatement with
      | unavailable reason hphase hfree =>
          exact .aged c.request reason clock rfl rfl (AgesOnly.lockAvailableMatch ..)
      | conflict => exact .nothing rfl
      | replayed creation hmem hkeyed hmatch hcontent hcreated => exact .nothing rfl
      | created m row messages hphase hinsert =>
          obtain ⟨⟨at_, rfl⟩, _⟩ := h.inserted c hc m row hphase
          have hfound : s.db.matchInit.find? c.request.matchId = some m :=
            h.held c hc m (by rw [hphase, Phase.available])
          refine .created c.request at_ m rfl ?_ hfound ?_ fun id hid ↦ ?_
          · intro n
            change n ∈ (publishMessage { s.db with messages } m _ clock).messages ↔ _
            rw [messages_publishMessage]
            exact Table.mem_insert hinsert
          · change (publishMessage { s.db with messages } m _ clock).matchInit.find? _ = _
            have hid : m.id = c.request.matchId := (Table.find?_eq_some_iff.mp hfound).2
            rw [find?_publishMessage]
            simp [hfound, hid, MessageRequest.row]
          · exact find?_publishMessage_of_ne hid

section Draining

/-- The statements a call has left, at most. -/
def Phase.remaining : Phase → ℕ
  | .begun => 4
  | .locked _ => 3
  | .searched _ => 2
  | .conflicted | .inserted _ _ => 1

theorem sendStatement_proceed_lt {db : Db} {q : MessageRequest} {phase phase' : Phase} {clock : ℤ}
    (h : sendStatement db q phase clock = .proceed phase') : phase'.remaining < phase.remaining := by
  cases phase with
  | begun =>
      simp only [sendStatement] at h
      split at h <;> cases h
      exact Nat.lt_succ_self _
  | locked m =>
      simp only [sendStatement] at h
      split at h <;> cases h
      exact Nat.lt_succ_self _
  | searched m =>
      simp only [sendStatement] at h
      split at h <;> cases h <;> exact Nat.lt_succ_self _
  | conflicted =>
      simp only [sendStatement] at h
      split at h <;> cases h
  | inserted m row =>
      simp only [sendStatement] at h
      split at h <;> cases h

/-- Among the calls in flight one need not wait: a call that has inserted its
row waits for nothing, without such a call no insertion waits, and without a
call past its lock no lock does. -/
theorem exists_not_waiting {s : SendTraffic} (h : s.calls.rows ≠ []) :
    ∃ c ∈ s.calls, sendProtocol.Waits s c = false := by
  by_cases hinserted : ∃ c ∈ s.calls, ∃ m row, c.phase = .inserted m row
  · obtain ⟨c, hc, m, row, hphase⟩ := hinserted
    refine ⟨c, hc, ?_⟩
    rw [Protocol.Waits, hphase]
    rfl
  have hclash : ∀ q, s.calls.rows.any (clashes q) = false := by
    intro q
    rw [List.any_eq_false]
    intro d hd hclash
    unfold clashes at hclash
    split at hclash
    · rename_i m row hphase
      exact hinserted ⟨d, hd, m, row, hphase⟩
    · cases hclash
  by_cases hpast : ∃ c ∈ s.calls, c.phase ≠ .begun
  · obtain ⟨c, hc, hne⟩ := hpast
    refine ⟨c, hc, ?_⟩
    cases hphase : c.phase with
    | begun => exact absurd hphase hne
    | searched m =>
        rw [Protocol.Waits, hphase]
        exact hclash c.request
    | _ =>
        rw [Protocol.Waits, hphase]
        rfl
  · obtain ⟨c, hc⟩ := List.exists_mem_of_ne_nil _ h
    have hbegun : ∀ d ∈ s.calls, d.phase = .begun := by
      intro d hd
      by_contra hne
      exact hpast ⟨d, hd, hne⟩
    have hfree : s.calls.rows.any (holds c.request.matchId) = false := by
      rw [List.any_eq_false]
      intro d hd hholds
      exact phase_ne_begun_of_holds hholds (hbegun d hd)
    refine ⟨c, hc, ?_⟩
    rw [Protocol.Waits, hbegun c hc]
    exact Bool.and_eq_false_iff.mpr (Or.inr hfree)

theorem sendProtocol_drains : sendProtocol.Drains Phase.remaining where
  pos phase := by cases phase <;> exact Nat.succ_pos _
  decreases _ _ _ _ _ h := sendStatement_proceed_lt h
  moves _ h := exists_not_waiting h

end Draining

section Run

variable {db : Db} {as : List SendStep}

theorem callInvariant_idle (db : Db) : CallInvariant (.idle db) := by
  have hnone : ∀ c, c ∉ (Traffic.idle db : SendTraffic).calls := Table.notMem_empty
  exact ⟨fun c hc ↦ absurd hc (hnone c), fun c hc ↦ absurd hc (hnone c),
    fun c hc ↦ absurd hc (hnone c), fun c hc ↦ absurd hc (hnone c)⟩

theorem answerInvariant_idle (hdb : db.KeysUnique) : AnswerInvariant db (.idle db) :=
  ⟨hdb, nofun, fun _ _ ↦ Nat.zero_add _⟩

theorem invariants_of_valid (hdb : db.KeysUnique) (hvalid : sending.Valid (.idle db) as) :
    CallInvariant (sending.exec (.idle db) as) ∧ AnswerInvariant db (sending.exec (.idle db) as) := by
  refine hvalid.invariant (I := fun s ↦ CallInvariant s ∧ AnswerInvariant db s)
    ⟨callInvariant_idle db, answerInvariant_idle hdb⟩ ?_
  intro s a h henabled
  exact ⟨h.1.next henabled, h.2.next h.1 henabled⟩

theorem Db.KeysUnique.count_le (hdb : db.KeysUnique) (senderId key : Uuid) :
    db.messages.count (MessageRecord.keyed senderId key) ≤ 1 := by
  rw [Table.count_eq_card, Finset.card_le_one]
  intro k hk l hl
  obtain ⟨m, hm, hmkey, rfl⟩ := Table.mem_keys.mp hk
  obtain ⟨n, hn, hnkey, rfl⟩ := Table.mem_keys.mp hl
  rw [hdb senderId key m hm n hn hmkey hnkey]

/-- Once a key has an available answer, one answer created its message, unless
the message was there from the start. -/
theorem AnswerInvariant.countP_creates {s : SendTraffic} (h : AnswerInvariant db s) {a : SendAnswer}
    (ha : a ∈ s.answers) {creation : MessageCreation} (hresult : a.result = .available creation) :
    s.answers.countP (createsMessage a.request.senderId a.request.idempotencyKey) =
      if db.messages.count (MessageRecord.keyed a.request.senderId a.request.idempotencyKey) = 0
        then 1 else 0 := by
  have hdelivers := h.answered a ha creation hresult
  have hpos := Table.count_pos_iff.mpr ⟨creation.message, hdelivers.stored, hdelivers.keyed⟩
  have hle := h.unique.count_le a.request.senderId a.request.idempotencyKey
  have hcount := h.counted a.request.senderId a.request.idempotencyKey
  split <;> omega

end Run

/-- Any interleaving of the statements of any calls, from tables that satisfy
the unique index. -/
theorem sending_idempotent (db : Db) (hdb : db.KeysUnique) (as : List SendStep)
    (hvalid : sending.Valid (.idle db) as) :
    (∀ senderId key,
      (sending.exec (.idle db) as).db.messages.count (MessageRecord.keyed senderId key) ≤ 1) ∧
    (∀ a ∈ (sending.exec (.idle db) as).answers, ∀ creation, a.result = .available creation →
      Delivers (sending.exec (.idle db) as).db a.request creation.message ∧
      (sending.exec (.idle db) as).answers.countP
          (createsMessage a.request.senderId a.request.idempotencyKey) =
        if db.messages.count (MessageRecord.keyed a.request.senderId a.request.idempotencyKey) = 0
          then 1 else 0) ∧
    (∀ a ∈ (sending.exec (.idle db) as).answers,
      ∀ m ∈ (sending.exec (.idle db) as).db.messages,
        m.keyed a.request.senderId a.request.idempotencyKey = true →
        m.matchId ≠ a.request.matchId ∨ m.content ≠ a.request.content →
          a.result = .idempotencyConflict ∨ ∃ reason, a.result = .unavailable reason) ∧
    (∀ pre a post, as = pre ++ a :: post →
      Writes (sending.exec (.idle db) pre) (sending.exec (.idle db) (pre ++ [a]))) ∧
    ∃ bs : List SendStep, (∀ b ∈ bs, ∃ id clock, b = .advance id clock) ∧
      sending.Valid (.idle db) (as ++ bs) ∧
      (sending.exec (.idle db) (as ++ bs)).calls.rows = [] := by
  obtain ⟨_, hanswers⟩ := invariants_of_valid hdb hvalid
  refine ⟨hanswers.unique.count_le, ?_, ?_, ?_, ?_⟩
  · intro a ha creation hresult
    exact ⟨hanswers.answered a ha creation hresult, hanswers.countP_creates ha hresult⟩
  · intro a ha m hm hkeyed hother
    cases hresult : a.result with
    | idempotencyConflict => exact Or.inl rfl
    | unavailable reason => exact Or.inr ⟨reason, rfl⟩
    | available creation =>
        have hdelivers := hanswers.answered a ha creation hresult
        obtain rfl := hanswers.unique _ _ m hm _ hdelivers.stored hkeyed hdelivers.keyed
        rcases hother with hmatch | hcontent
        · exact absurd hdelivers.matchId hmatch
        · exact absurd hdelivers.content hcontent
  · rintro pre a post rfl
    have hpre := (System.valid_append.mp hvalid).1
    rw [System.exec_concat]
    exact writes_of_enabled (invariants_of_valid hdb hpre).1 hvalid.enabled
  · obtain ⟨bs, hbs, hdrain, hempty⟩ := sendProtocol_drains.exists_run (sending.exec (.idle db) as)
    refine ⟨bs, hbs, System.valid_append.mpr ⟨hvalid, hdrain⟩, ?_⟩
    rw [System.exec_append]
    exact hempty

/-- Three accounts, the first one in two running matches. -/
def twoMatchesDb : Db :=
  { pairDb with
    matchInit := ⟨[mutualLikeRecord 10 1 2 0, mutualLikeRecord 11 1 3 0], by decide⟩
    accounts := ⟨[⟨1, .user, false, none, false⟩, ⟨2, .user, false, none, false⟩,
      ⟨3, .user, false, none, false⟩], by decide⟩ }

theorem keysUnique_twoMatchesDb : twoMatchesDb.KeysUnique :=
  fun _ _ _ hm ↦ absurd hm (Table.notMem_empty _)

/-- Two calls with one key hold the locks of two matches and both find no
message before the first one inserts its row. -/
def racingSends : List SendStep :=
  [.begin 1 ⟨50, 10, 1, "hello", 60⟩, .begin 2 ⟨51, 11, 1, "hello", 60⟩,
    .advance 1 5, .advance 2 5, .advance 1 6, .advance 2 6, .advance 1 7, .advance 1 8,
    .advance 2 9, .advance 2 10]

theorem sending_idempotent_racingSends :
    (sending.exec (.idle twoMatchesDb) racingSends).answers =
      [⟨⟨51, 11, 1, "hello", 60⟩, .idempotencyConflict⟩,
        ⟨⟨50, 10, 1, "hello", 60⟩,
          .available ⟨⟨50, 10, 1, some 60, "hello", 7, none⟩, (1, 2), true⟩⟩] ∧
      (sending.exec (.idle twoMatchesDb) racingSends).db.messages.count
        (MessageRecord.keyed 1 60) ≤ 1 := by
  have hvalid : sending.Valid (.idle twoMatchesDb) racingSends := by decide +kernel
  exact ⟨by decide +kernel,
    (sending_idempotent twoMatchesDb keysUnique_twoMatchesDb racingSends hvalid).1 1 60⟩

/-- A message, and a call with its key and another content after the end of
the first 24 hours. -/
def lateReplay : List SendStep :=
  [.begin 1 ⟨50, 10, 1, "hello", 60⟩, .advance 1 5, .advance 1 6, .advance 1 7, .advance 1 8,
    .begin 2 ⟨51, 10, 1, "other", 60⟩]

/-- A call with the key of a stored message and another content can be refused
and yet change the tables: its lock lets the match age. -/
theorem refused_replay_ages_match :
    ¬ ∀ (db : Db) (as : List SendStep) (a : SendStep), db.KeysUnique →
      sending.Valid (.idle db) (as ++ [a]) → ∀ q result, ∀ m ∈ (sending.exec (.idle db) as).db.messages,
        (sending.exec (.idle db) (as ++ [a])).answers =
          ⟨q, result⟩ :: (sending.exec (.idle db) as).answers →
        m.keyed q.senderId q.idempotencyKey = true →
        m.matchId ≠ q.matchId ∨ m.content ≠ q.content →
          (sending.exec (.idle db) (as ++ [a])).db = (sending.exec (.idle db) as).db := by
  intro hclaim
  have hvalid : sending.Valid (.idle twoMatchesDb) (lateReplay ++ [.advance 2 (hours 24)]) := by
    decide +kernel
  have hmem : (⟨50, 10, 1, some 60, "hello", 7, none⟩ : MessageRecord) ∈
      (sending.exec (.idle twoMatchesDb) lateReplay).db.messages.rows := by decide +kernel
  have hanswer : (sending.exec (.idle twoMatchesDb)
      (lateReplay ++ [.advance 2 (hours 24)])).answers =
        ⟨⟨51, 10, 1, "other", 60⟩, .unavailable .invalidState⟩ ::
          (sending.exec (.idle twoMatchesDb) lateReplay).answers := by decide +kernel
  have hsame := hclaim twoMatchesDb lateReplay (.advance 2 (hours 24)) keysUnique_twoMatchesDb
    hvalid _ _ _ hmem hanswer (by decide) (Or.inr (by decide))
  have hfind := congrArg (fun db : Db ↦ (db.matchInit.find? 10).map MatchRecord.status) hsame
  have hdiffer : ((sending.exec (.idle twoMatchesDb)
      (lateReplay ++ [.advance 2 (hours 24)])).db.matchInit.find? 10).map MatchRecord.status ≠
        ((sending.exec (.idle twoMatchesDb) lateReplay).db.matchInit.find? 10).map
          MatchRecord.status := by decide +kernel
  exact hdiffer hfind

end Histae.Matches
