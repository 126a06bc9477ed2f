import Histae.Matches.Lifecycle
import Histae.Systems.Transactions

/-!
# Concurrent senders

The calls of `create_message` that are in flight, statement by statement. The
tables are the committed ones: a transaction reads them at each statement and
its own writes appear when it commits. A call waits for the row lock of its
match, and its insertion waits while another call in flight has inserted a row
with the same key; nothing else orders the calls. A call that runs alone does
what `createMessage` does in one step.
-/

namespace Histae.Matches

open Relational Systems

def MessageRecord.keyed (senderId key : Uuid) (m : MessageRecord) : Bool :=
  m.senderId = senderId && m.idempotencyKey = some key

/-- How far the transaction of a call has come. -/
inductive Phase
  | begun
  | locked (available : MatchRecord)
  | searched (available : MatchRecord)
  | conflicted
  | inserted (available : MatchRecord) (row : MessageRecord)
  deriving DecidableEq

abbrev SendCall := Call MessageRequest Phase

abbrev SendTraffic := Traffic Db MessageRequest Phase MessageCreationResult

abbrev SendStep := CallStep MessageRequest ℤ

abbrev SendAnswer := Answer MessageRequest MessageCreationResult

/-- The next statement of the call, on the committed tables. The last one
stores the inserted row, its effects on the match and the notification. -/
def sendStatement (db : Db) (q : MessageRequest) (phase : Phase) (clock : ℤ) :
    Progress Db Phase MessageCreationResult :=
  match phase with
  | .begun =>
      match lockForMessage db q clock with
      | (.error reason, db) => .commit (.unavailable reason) db
      | (.ok available, _) => .proceed (.locked available)
  | .locked available =>
      match findIdempotentMessage db q.senderId q.idempotencyKey with
      | some replay => .commit (replayAnswer replay q.matchId q.content) db
      | none => .proceed (.searched available)
  | .searched available =>
      match insertMessage db (q.row clock) with
      | .error _ => .rollback
      | .ok none => .proceed .conflicted
      | .ok (some _) => .proceed (.inserted available (q.row clock))
  | .conflicted =>
      match findIdempotentMessage db q.senderId q.idempotencyKey with
      | none => .commit .idempotencyConflict db
      | some concurrent => .commit (replayAnswer concurrent q.matchId q.content) db
  | .inserted available row =>
      match insertMessage db row with
      | .ok (some db) =>
          .commit (.available ⟨row, (available.user1Id, available.user2Id), true⟩)
            (publishMessage db available row clock)
      | _ => .rollback

/-- The call holds the row lock of the match. -/
def holds (matchId : Uuid) (c : SendCall) : Bool :=
  c.phase ≠ .begun && c.request.matchId = matchId

/-- The call has inserted a row that clashes with one of the request `q`. -/
def clashes (q : MessageRequest) (c : SendCall) : Bool :=
  match c.phase with
  | .inserted _ row =>
      row.id = q.messageId ||
        row.senderId = q.senderId && row.idempotencyKey = some q.idempotencyKey
  | _ => false

def sendWaits (calls : List SendCall) (db : Db) (q : MessageRequest) : Phase → Bool
  | .begun =>
      (accessibleMatch db q.matchId q.senderId).isSome && calls.any (holds q.matchId)
  | .searched _ => calls.any (clashes q)
  | _ => false

def sendProtocol : Protocol Db MessageRequest Phase MessageCreationResult ℤ where
  start := .begun
  statement := sendStatement
  waits := sendWaits

def sending : System SendTraffic SendStep := sendProtocol.system

instance (s : SendTraffic) (a : SendStep) : Decidable (sending.Enabled s a) :=
  inferInstanceAs (Decidable (sendProtocol.system.Enabled s a))

section Statement

variable {db db' : Db} {q : MessageRequest} {m : MatchRecord} {now : ℤ}

theorem lockForMessage_ok (h : lockForMessage db q now = (.ok m, db')) :
    db' = db ∧ accessibleMatch db q.matchId q.senderId = some m ∧
      (m.status = .active ∨ m.status = .confirmed) := by
  unfold lockForMessage at h
  cases hlock : lockAvailableMatch db q.matchId q.senderId now with
  | mk result db₁ =>
      rw [hlock] at h
      cases LockOutcome.of_eq hlock with
      | live n hfound hlive hopen =>
          by_cases hawaiting : n.status = .awaitingContinuation
          · simp [hawaiting] at h
          · simp only [hawaiting, if_false, Prod.mk.injEq, Except.ok.injEq] at h
            obtain ⟨rfl, rfl⟩ := h
            refine ⟨rfl, hfound, ?_⟩
            cases hstatus : n.status <;> simp_all [isLive]
      | opened n hfound hstatus hdue hopen => simp [MatchRecord.opened] at h
      | notFound => simp at h
      | closed => simp at h
      | openedExpired => simp at h
      | expired => simp at h
      | finished => simp at h

theorem lockForMessage_error {reason : MatchAvailabilityFailure}
    (h : lockForMessage db q now = (.error reason, db')) :
    db' = (lockAvailableMatch db q.matchId q.senderId now).2 := by
  unfold lockForMessage at h
  cases hlock : lockAvailableMatch db q.matchId q.senderId now with
  | mk result db₁ =>
      rw [hlock] at h
      cases result with
      | unavailable failure =>
          simp only [Prod.mk.injEq] at h
          exact h.2.symm
      | available n =>
          simp only at h
          split at h
          · exact (Prod.mk.inj h).2.symm
          · cases (Prod.mk.inj h).1

theorem mem_of_findIdempotentMessage {senderId key : Uuid} {replay : MessageCreation}
    (h : findIdempotentMessage db senderId key = some replay) :
    replay.message ∈ db.messages ∧ replay.message.keyed senderId key = true := by
  unfold findIdempotentMessage at h
  split at h
  · cases h
  · rename_i message hfind
    obtain ⟨m, _, rfl⟩ := Option.map_eq_some_iff.mp h
    exact ⟨List.mem_of_find?_eq_some hfind, List.find?_some hfind⟩

theorem replayAnswer_cases (replay : MessageCreation) (matchId : Uuid) (content : String) :
    replayAnswer replay matchId content = .idempotencyConflict ∨
      replayAnswer replay matchId content = .available { replay with created := false } ∧
        replay.message.matchId = matchId ∧ replay.message.content = content := by
  unfold replayAnswer
  split
  · exact Or.inl rfl
  · rename_i hsame
    rw [not_or, not_not, not_not] at hsame
    exact Or.inr ⟨rfl, hsame⟩

theorem insertMessage_row_eq_some {at_ : ℤ} {db' : Db}
    (h : insertMessage db (q.row at_) = .ok (some db')) :
    (∀ m ∈ db.messages, m.keyed q.senderId q.idempotencyKey = false) ∧
      ∃ messages, db.messages.insert? (q.row at_) = some messages ∧ db' = { db with messages } := by
  obtain ⟨messages, hinsert, hdb⟩ := insertMessage_eq_some h
  refine ⟨fun m hm ↦ ?_, messages, hinsert, hdb⟩
  by_contra hne
  have hkeyed : m.keyed q.senderId q.idempotencyKey = true := by simpa using hne
  have htaken : ((q.row at_).idempotencyKey.isSome && db.messages.rows.any fun m ↦
      m.senderId = (q.row at_).senderId && m.idempotencyKey = (q.row at_).idempotencyKey) = true := by
    rw [Bool.and_eq_true, List.any_eq_true]
    exact ⟨rfl, m, hm, hkeyed⟩
  rw [insertMessage, if_pos htaken] at h
  cases h

end Statement

/-- The phases a statement can move a call to. -/
inductive Proceeds (s : SendTraffic) (c : SendCall) (clock : ℤ) : Phase → Prop
  | locked (m : MatchRecord) (hphase : c.phase = .begun)
      (hfree : ∀ d ∈ s.calls, holds c.request.matchId d = false)
      (hfound : s.db.matchInit.find? c.request.matchId = some m)
      (hstatus : m.status = .active ∨ m.status = .confirmed) : Proceeds s c clock (.locked m)
  | searched (m : MatchRecord) (hphase : c.phase = .locked m) : Proceeds s c clock (.searched m)
  | conflicted (m : MatchRecord) (hphase : c.phase = .searched m) :
      Proceeds s c clock .conflicted
  | inserted (m : MatchRecord) (hphase : c.phase = .searched m)
      (hapart : ∀ d ∈ s.calls, clashes c.request d = false)
      (hkey : ∀ n ∈ s.db.messages, n.keyed c.request.senderId c.request.idempotencyKey = false)
      (hid : s.db.messages.find? c.request.messageId = none) :
      Proceeds s c clock (.inserted m (c.request.row clock))

/-- The answers of a call, with the tables it commits. -/
inductive Commits (s : SendTraffic) (c : SendCall) (clock : ℤ) : MessageCreationResult → Db → Prop
  | unavailable (reason : MatchAvailabilityFailure) (hphase : c.phase = .begun)
      (hfree : (lockAvailableMatch s.db c.request.matchId c.request.senderId clock).2 = s.db ∨
        ∀ d ∈ s.calls, holds c.request.matchId d = false) :
      Commits s c clock (.unavailable reason)
        (lockAvailableMatch s.db c.request.matchId c.request.senderId clock).2
  | conflict : Commits s c clock .idempotencyConflict s.db
  | replayed (creation : MessageCreation) (hmem : creation.message ∈ s.db.messages)
      (hkeyed : creation.message.keyed c.request.senderId c.request.idempotencyKey = true)
      (hmatch : creation.message.matchId = c.request.matchId)
      (hcontent : creation.message.content = c.request.content)
      (hcreated : creation.created = false) : Commits s c clock (.available creation) s.db
  | created (m : MatchRecord) (row : MessageRecord) (messages : Table MessageRecord.id)
      (hphase : c.phase = .inserted m row)
      (hinsert : s.db.messages.insert? row = some messages) :
      Commits s c clock (.available ⟨row, (m.user1Id, m.user2Id), true⟩)
        (publishMessage { s.db with messages } m row clock)

section Effect

variable {s : SendTraffic} {c : SendCall} {clock : ℤ}

theorem commits_replayAnswer {replay : MessageCreation}
    (h : findIdempotentMessage s.db c.request.senderId c.request.idempotencyKey = some replay) :
    Commits s c clock (replayAnswer replay c.request.matchId c.request.content) s.db := by
  obtain ⟨hmem, hkeyed⟩ := mem_of_findIdempotentMessage h
  rcases replayAnswer_cases replay c.request.matchId c.request.content with
    hanswer | ⟨hanswer, hmatch, hcontent⟩
  · rw [hanswer]
    exact .conflict
  · rw [hanswer]
    exact .replayed { replay with created := false } hmem hkeyed hmatch hcontent rfl

/-- A lock that is not waited for either finds no row or no holder. -/
theorem not_held_of_begun (hphase : c.phase = .begun) (hwaits : sendProtocol.Waits s c = false) :
    accessibleMatch s.db c.request.matchId c.request.senderId = none ∨
      ∀ d ∈ s.calls, holds c.request.matchId d = false := by
  rw [Protocol.Waits, hphase] at hwaits
  rcases Bool.and_eq_false_iff.mp hwaits with hnone | hfree
  · exact Or.inl (by simpa using hnone)
  · exact Or.inr fun d hd ↦ by simpa using List.any_eq_false.mp hfree d hd

theorem not_clashes_of_searched {m : MatchRecord} (hphase : c.phase = .searched m)
    (hwaits : sendProtocol.Waits s c = false) : ∀ d ∈ s.calls, clashes c.request d = false := by
  rw [Protocol.Waits, hphase] at hwaits
  intro d hd
  simpa using List.any_eq_false.mp hwaits d hd

/-- What the next statement of a call that need not wait can lead to. -/
inductive StatementSpec (s : SendTraffic) (c : SendCall) (clock : ℤ) :
    Progress Db Phase MessageCreationResult → Prop
  | proceed (phase : Phase) (h : Proceeds s c clock phase) : StatementSpec s c clock (.proceed phase)
  | commit (result : MessageCreationResult) (db : Db) (h : Commits s c clock result db) :
      StatementSpec s c clock (.commit result db)
  | rollback : StatementSpec s c clock .rollback

theorem statementSpec_begun (hphase : c.phase = .begun) (hwaits : sendProtocol.Waits s c = false) :
    StatementSpec s c clock (sendStatement s.db c.request c.phase clock) := by
  have hfree := not_held_of_begun hphase hwaits
  simp only [sendStatement, hphase]
  split
  · rename_i reason db hlock
    obtain rfl := lockForMessage_error hlock
    refine .commit _ _ (.unavailable reason hphase ?_)
    rcases hfree with hnone | hfree
    · left
      rw [lockAvailableMatch, hnone]
    · exact Or.inr hfree
  · rename_i m db hlock
    obtain ⟨_, hfound, hstatus⟩ := lockForMessage_ok hlock
    refine .proceed _ (.locked m hphase ?_ ?_ hstatus)
    · rcases hfree with hnone | hfree
      · rw [hfound] at hnone
        cases hnone
      · exact hfree
    · obtain ⟨hm, hid, _, _⟩ := accessibleMatch_eq_some hfound
      exact Table.find?_eq_some_iff.mpr ⟨hm, hid⟩

theorem statementSpec_searched {m : MatchRecord} (hphase : c.phase = .searched m)
    (hwaits : sendProtocol.Waits s c = false) :
    StatementSpec s c clock (sendStatement s.db c.request c.phase clock) := by
  have hapart := not_clashes_of_searched hphase hwaits
  simp only [sendStatement, hphase]
  split
  · exact .rollback
  · exact .proceed _ (.conflicted m hphase)
  · rename_i db hinsert
    obtain ⟨hkey, messages, hmessages, _⟩ := insertMessage_row_eq_some hinsert
    have hid := (Table.insert?_eq_some_iff.mp hmessages).1
    exact .proceed _ (.inserted m hphase hapart hkey hid)

theorem statementSpec (hwaits : sendProtocol.Waits s c = false) :
    StatementSpec s c clock (sendStatement s.db c.request c.phase clock) := by
  cases hphase : c.phase with
  | begun => exact hphase ▸ statementSpec_begun hphase hwaits
  | locked m =>
      simp only [sendStatement]
      split
      · rename_i replay hfind
        exact .commit _ _ (commits_replayAnswer hfind)
      · exact .proceed _ (.searched m hphase)
  | searched m => exact hphase ▸ statementSpec_searched hphase hwaits
  | conflicted =>
      simp only [sendStatement]
      split
      · exact .commit _ _ .conflict
      · rename_i concurrent hfind
        exact .commit _ _ (commits_replayAnswer hfind)
  | inserted m row =>
      simp only [sendStatement]
      split
      · rename_i db hinsert
        obtain ⟨messages, hmessages, rfl⟩ := insertMessage_eq_some hinsert
        exact .commit _ _ (.created m row messages hphase hmessages)
      · exact .rollback

theorem proceeds_of_statement (hwaits : sendProtocol.Waits s c = false) {phase : Phase}
    (h : sendProtocol.statement s.db c.request c.phase clock = .proceed phase) :
    Proceeds s c clock phase := by
  have hspec : StatementSpec s c clock (sendStatement s.db c.request c.phase clock) :=
    statementSpec hwaits
  rw [show sendStatement s.db c.request c.phase clock = .proceed phase from h] at hspec
  cases hspec with
  | proceed _ h => exact h

theorem commits_of_statement (hwaits : sendProtocol.Waits s c = false)
    {result : MessageCreationResult} {db : Db}
    (h : sendProtocol.statement s.db c.request c.phase clock = .commit result db) :
    Commits s c clock result db := by
  have hspec : StatementSpec s c clock (sendStatement s.db c.request c.phase clock) :=
    statementSpec hwaits
  rw [show sendStatement s.db c.request c.phase clock = .commit result db from h] at hspec
  cases hspec with
  | commit _ _ h => exact h

end Effect

section Alone

variable {db db' : Db} {result : MessageCreationResult}

theorem sendProtocol_selfless : sendProtocol.Selfless := by
  intro db c
  cases hphase : c.phase <;> simp [sendProtocol, sendWaits, hphase, holds, clashes]

/-- A call that runs alone answers and writes what the transaction does in
one step. -/
theorem createMessage_alone {q : MessageRequest} {t : MessageClock}
    (h : createMessage db q t = .ok (result, db')) :
    ∃ as, sending.Valid (.idle db) as ∧
      sending.exec (.idle db) as = ⟨db', ∅, [⟨q, result⟩]⟩ := by
  refine Protocol.Completes.exists_run ?_
  have hself := sendProtocol_selfless
  unfold createMessage at h
  split at h
  · rename_i reason db₁ hlock
    obtain ⟨rfl, rfl⟩ := Prod.mk.inj (Except.ok.inj h)
    refine Protocol.completes_of_commit hself t.locked ?_
    simp only [sendProtocol, sendStatement, hlock]
  · rename_i m db₁ hlock
    obtain ⟨rfl, _, _⟩ := lockForMessage_ok hlock
    have hbegun : sendProtocol.statement db₁ q .begun t.locked = .proceed (.locked m) := by
      simp only [sendProtocol, sendStatement, hlock]
    refine Protocol.completes_of_proceed hself hbegun ?_
    split at h
    · rename_i replay hfind
      obtain ⟨rfl, rfl⟩ := Prod.mk.inj (Except.ok.inj h)
      refine Protocol.completes_of_commit hself 0 ?_
      simp only [sendProtocol, sendStatement, Call.withPhase, hfind]
    · rename_i hfind
      have hlocked : sendProtocol.statement db₁ q (.locked m) t.locked =
          .proceed (.searched m) := by
        simp only [sendProtocol, sendStatement, hfind]
      refine Protocol.completes_of_proceed hself hlocked ?_
      split at h
      · cases h
      · rename_i hinsert
        have hsearched : sendProtocol.statement db₁ q (.searched m) t.inserted =
            .proceed .conflicted := by
          simp only [sendProtocol, sendStatement, hinsert]
        refine Protocol.completes_of_proceed hself hsearched ?_
        rw [hfind] at h
        obtain ⟨rfl, rfl⟩ := Prod.mk.inj (Except.ok.inj h)
        refine Protocol.completes_of_commit hself 0 ?_
        simp only [sendProtocol, sendStatement, Call.withPhase, hfind]
      · rename_i db₂ hinsert
        obtain ⟨rfl, rfl⟩ := Prod.mk.inj (Except.ok.inj h)
        have hsearched : sendProtocol.statement db₁ q (.searched m) t.inserted =
            .proceed (.inserted m (q.row t.inserted)) := by
          simp only [sendProtocol, sendStatement, hinsert]
        refine Protocol.completes_of_proceed hself hsearched
          (Protocol.completes_of_commit hself t.notified ?_)
        simp only [sendProtocol, sendStatement, Call.withPhase, hinsert]

end Alone

end Histae.Matches
