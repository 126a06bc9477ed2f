import Histae.Matches.Continuation
import Histae.Matches.Requests
import Histae.Matches.Messages
import Histae.Matches.Maintenance

/-!
# The life cycle of a match row

`Transition T m m'` lists the changes a row can undergo up to the instant `T`.
Every transaction and every maintenance statement moves each row along a path
of transitions (`Evolves`), so a fact about rows is proved once per transition
and then holds for all of them.
-/

namespace Histae.Matches

open Relational

def MatchRecord.messagedAt (at_ : ℤ) (m : MatchRecord) : MatchRecord :=
  { m with
    lastMessageAt := some at_
    expiresAt := if m.status = .confirmed ∧ m.lastMessageAt ≠ some at_ then
      at_ + days matchInactivityDays else m.expiresAt }

/-- One change of a row other than its confirmation. A deadline has passed
when a reading not after `T` found it so; `sent` is the message that the
operation stores, by its match and its date. -/
inductive Transition (T : ℤ) (sent : Option (Uuid × ℤ)) : MatchRecord → MatchRecord → Prop
  | opened (m : MatchRecord) (hstatus : m.status = .active) (hdue : m.expiresAt ≤ T) :
      Transition T sent m m.opened
  | expired (m : MatchRecord) (purgeAfter : ℤ) (hstatus : m.status = .awaitingContinuation)
      (hdue : m.expiresAt ≤ T) : Transition T sent m (m.expiredUntil purgeAfter)
  | closed (m : MatchRecord) (now : ℤ) (hstatus : m.status = .confirmed)
      (hdue : m.expiresAt ≤ T) : Transition T sent m (m.closedAt now)
  | ended (m : MatchRecord) (checked stamped : ℤ) (hstatus : m.status ≠ .ended) :
      Transition T sent m (m.endedAt checked stamped)
  | revealed (m : MatchRecord) (hstatus : isLive m.status = true) :
      Transition T sent m m.revealedAgain
  | messaged (m : MatchRecord) (at_ : ℤ) (hsent : sent = some (m.id, at_))
      (hstatus : m.status = .active ∨ m.status = .confirmed) :
      Transition T sent m (m.messagedAt at_)

abbrev Path (T : ℤ) (sent : Option (Uuid × ℤ)) : MatchRecord → MatchRecord → Prop :=
  Relation.ReflTransGen (Transition T sent)

section Transition

variable {T T' : ℤ} {sent : Option (Uuid × ℤ)} {m m' : MatchRecord}

theorem Transition.mono (h : Transition T sent m m') (hT : T ≤ T') : Transition T' sent m m' := by
  cases h with
  | opened hstatus hdue => exact .opened m hstatus (hdue.trans hT)
  | expired purgeAfter hstatus hdue => exact .expired m purgeAfter hstatus (hdue.trans hT)
  | closed now hstatus hdue => exact .closed m now hstatus (hdue.trans hT)
  | ended checked stamped hstatus => exact .ended m checked stamped hstatus
  | revealed hstatus => exact .revealed m hstatus
  | messaged at_ hsent hstatus => exact .messaged m at_ hsent hstatus

theorem Path.mono (h : Path T sent m m') (hT : T ≤ T') : Path T' sent m m' :=
  h.lift id fun _ _ hstep ↦ hstep.mono hT

/-- What no transition changes. -/
structure SameIdentity (m m' : MatchRecord) : Prop where
  id : m'.id = m.id
  user1Id : m'.user1Id = m.user1Id
  user2Id : m'.user2Id = m.user2Id
  createdAt : m'.createdAt = m.createdAt

theorem Transition.sameIdentity (h : Transition T sent m m') : SameIdentity m m' := by
  cases h <;> exact ⟨rfl, rfl, rfl, rfl⟩

theorem Path.sameIdentity (h : Path T sent m m') : SameIdentity m m' := by
  induction h with
  | refl => exact ⟨rfl, rfl, rfl, rfl⟩
  | tail _ hstep ih =>
      have hsame := hstep.sameIdentity
      exact ⟨hsame.id.trans ih.id, hsame.user1Id.trans ih.user1Id,
        hsame.user2Id.trans ih.user2Id, hsame.createdAt.trans ih.createdAt⟩

/-- Windows open only for active rows, and an open window keeps its deadline. -/
structure NoReopening (m m' : MatchRecord) : Prop where
  active : m'.status = .active → m.status = .active
  awaiting : m'.status = .awaitingContinuation →
    m.status = .active ∨ m.status = .awaitingContinuation ∧ m'.expiresAt = m.expiresAt

theorem Transition.noReopening (h : Transition T sent m m') : NoReopening m m' := by
  cases h with
  | opened hstatus hdue => exact ⟨fun _ ↦ hstatus, fun _ ↦ Or.inl hstatus⟩
  | expired purgeAfter hstatus hdue => exact ⟨nofun, nofun⟩
  | closed now hstatus hdue => exact ⟨nofun, nofun⟩
  | ended checked stamped hstatus => exact ⟨nofun, nofun⟩
  | revealed hstatus => exact ⟨fun h ↦ h, fun h ↦ Or.inr ⟨h, rfl⟩⟩
  | messaged at_ hsent hstatus =>
      refine ⟨fun h ↦ h, fun h ↦ ?_⟩
      have hawaiting : m.status = .awaitingContinuation := h
      rcases hstatus with hstatus | hstatus <;> rw [hstatus] at hawaiting <;> cases hawaiting

theorem Path.noReopening (h : Path T sent m m') : NoReopening m m' := by
  induction h with
  | refl => exact ⟨fun h ↦ h, fun h ↦ Or.inr ⟨h, rfl⟩⟩
  | tail _ hstep ih =>
      have hstep := hstep.noReopening
      refine ⟨fun h ↦ ih.active (hstep.active h), fun h ↦ ?_⟩
      rcases hstep.awaiting h with hactive | ⟨hawaiting, hexpiry⟩
      · exact Or.inl (ih.active hactive)
      · rcases ih.awaiting hawaiting with hactive | ⟨hawaiting', hexpiry'⟩
        · exact Or.inl hactive
        · exact Or.inr ⟨hawaiting', hexpiry.trans hexpiry'⟩

end Transition

/-- What every operation other than a reservation, a confirmation, a grant and
a creation does to the credit tables: rows of matches move along their life
cycle, reservations disappear but never without need of their match row, and
nothing is charged. -/
structure Shrinks (T : ℤ) (sent : Option (Uuid × ℤ)) (db db' : Db) : Prop where
  evolves : ∀ m' ∈ db'.matchInit, ∃ m ∈ db.matchInit, Path T sent m m'
  kept : ∀ r ∈ db'.reservations, r ∈ db.reservations
  rooted : ∀ r ∈ db'.reservations, ∀ m ∈ db.matchInit, m.id = r.matchId →
    ∃ m' ∈ db'.matchInit, m'.id = m.id
  usage : db'.usage = db.usage
  wallets : db'.wallets = db.wallets

namespace Shrinks

variable {T T' : ℤ} {sent : Option (Uuid × ℤ)} {db db' db'' : Db}

theorem of_sameLedger (h : SameLedger db db') : Shrinks T sent db db' where
  evolves m hm := ⟨m, h.matchInit ▸ hm, .refl⟩
  kept r hr := h.reservations ▸ hr
  rooted _ _ m hm _ := ⟨m, by rwa [h.matchInit], rfl⟩
  usage := h.usage
  wallets := h.wallets

theorem refl (db : Db) : Shrinks T sent db db := of_sameLedger (.refl db)

theorem trans (h : Shrinks T sent db db') (h' : Shrinks T sent db' db'') : Shrinks T sent db db'' where
  evolves m'' hm'' := by
    obtain ⟨m', hm', hpath'⟩ := h'.evolves m'' hm''
    obtain ⟨m, hm, hpath⟩ := h.evolves m' hm'
    exact ⟨m, hm, hpath.trans hpath'⟩
  kept r hr := h.kept r (h'.kept r hr)
  rooted r hr m hm hid := by
    obtain ⟨m', hm', hid'⟩ := h.rooted r (h'.kept r hr) m hm hid
    obtain ⟨m'', hm'', hid''⟩ := h'.rooted r hr m' hm' (hid'.trans hid)
    exact ⟨m'', hm'', hid''.trans hid'⟩
  usage := h'.usage.trans h.usage
  wallets := h'.wallets.trans h.wallets

theorem mono (h : Shrinks T sent db db') (hT : T ≤ T') : Shrinks T' sent db db' where
  evolves m' hm' := by
    obtain ⟨m, hm, hpath⟩ := h.evolves m' hm'
    exact ⟨m, hm, hpath.mono hT⟩
  kept := h.kept
  rooted := h.rooted
  usage := h.usage
  wallets := h.wallets

theorem updateMatch {clock : ℤ} {p : MatchRecord → Bool} {f : MatchRecord → MatchRecord}
    (hf : ∀ m, (f m).id = m.id)
    (h : ∀ m ∈ db.matchInit, p m = true → Path T sent m (trackMatchInactivity clock m (f m))) :
    Shrinks T sent db (updateMatch db clock p f hf) where
  evolves m' hm' := by
    obtain ⟨m, hm, rfl⟩ := (mem_updateMatch hf).mp hm'
    refine ⟨m, hm, ?_⟩
    split
    · exact h m hm ‹_›
    · exact .refl
  kept _ hr := hr
  rooted _ _ m hm _ := by
    refine ⟨_, (mem_updateMatch hf).mpr ⟨m, hm, rfl⟩, ?_⟩
    split
    · rw [trackMatchInactivity_id, hf]
    · rfl
  usage := rfl
  wallets := rfl

/-- An update of the row of one match. -/
theorem updateMatch_of_mem {clock : ℤ} {matchId : Uuid} {f : MatchRecord → MatchRecord}
    {hf : ∀ m, (f m).id = m.id} {m : MatchRecord} (hm : m ∈ db.matchInit) (hid : m.id = matchId)
    (h : Path T sent m (trackMatchInactivity clock m (f m))) :
    Shrinks T sent db (Matches.updateMatch db clock (fun m ↦ m.id = matchId) f hf) := by
  apply updateMatch hf
  intro n hn hp
  have hkey : n.id = m.id := (by simpa using hp : n.id = matchId).trans hid.symm
  rw [Table.eq_of_key_eq hn hm hkey]
  exact h

theorem delete (p : Reservation → Bool) :
    Shrinks T sent db { db with reservations := db.reservations.delete p } where
  evolves m hm := ⟨m, hm, .refl⟩
  kept _ hr := (Table.mem_delete.mp hr).1
  rooted _ _ m hm _ := ⟨m, hm, rfl⟩
  usage := rfl
  wallets := rfl

end Shrinks

section Requests

variable {T : ℤ} {sent : Option (Uuid × ℤ)} {db db' : Db} {matchId userId : Uuid} {now : ℤ}
  {m : MatchRecord}

theorem trackMatchInactivity_opened (clock : ℤ) (m : MatchRecord) :
    trackMatchInactivity clock m m.opened = m.opened := trackMatchInactivity_of_ne nofun

theorem trackMatchInactivity_expiredUntil (clock purgeAfter : ℤ) (m : MatchRecord) :
    trackMatchInactivity clock m (m.expiredUntil purgeAfter) = m.expiredUntil purgeAfter :=
  trackMatchInactivity_of_ne nofun

theorem trackMatchInactivity_closedAt (clock now : ℤ) (m : MatchRecord) :
    trackMatchInactivity clock m (m.closedAt now) = m.closedAt now :=
  trackMatchInactivity_of_ne nofun

theorem trackMatchInactivity_endedAt (clock checked stamped : ℤ) (m : MatchRecord) :
    trackMatchInactivity clock m (m.endedAt checked stamped) = m.endedAt checked stamped :=
  trackMatchInactivity_of_ne nofun

theorem trackMatchInactivity_messagedAt (clock at_ : ℤ) (m : MatchRecord) :
    trackMatchInactivity clock m { m with lastMessageAt := some at_ } = m.messagedAt at_ := by
  unfold trackMatchInactivity MatchRecord.messagedAt
  by_cases hstatus : m.status = .confirmed
  · by_cases hlast : m.lastMessageAt = some at_
    · simp [hstatus, hlast]
    · have hne : some at_ ≠ m.lastMessageAt := fun h ↦ hlast h.symm
      simp [hstatus, hlast, hne]
  · simp [hstatus]

theorem shrinks_openWindow (hm : m ∈ db.matchInit) (hid : m.id = matchId)
    (hstatus : m.status = .active) (hdue : m.expiresAt ≤ now) :
    Shrinks now sent db (openWindow db matchId now) := by
  apply Shrinks.updateMatch_of_mem hm hid
  rw [trackMatchInactivity_opened]
  exact .single (.opened m hstatus hdue)

theorem shrinks_expireWindow (hm : m ∈ db.matchInit) (hid : m.id = matchId)
    (hstatus : m.status = .awaitingContinuation) (hdue : m.expiresAt ≤ now) :
    Shrinks now sent db (expireWindow db matchId now) := by
  have hupdate : Shrinks now sent db (updateMatch db now (fun m ↦ m.id = matchId)
      (MatchRecord.expiredUntil (now + days matchPurgeDays)) fun _ ↦ rfl) := by
    apply Shrinks.updateMatch_of_mem hm hid
    rw [trackMatchInactivity_expiredUntil]
    exact .single (.expired m _ hstatus hdue)
  exact hupdate.trans (.delete _)

theorem mem_openWindow (hm : m ∈ db.matchInit) (hid : m.id = matchId) :
    m.opened ∈ (openWindow db matchId now).matchInit := by
  have hopened : ∀ m : MatchRecord, m.opened.id = m.id := fun _ ↦ rfl
  refine (mem_updateMatch hopened).mpr ⟨m, hm, ?_⟩
  simp [hid, trackMatchInactivity_opened]

theorem LockOutcome.shrinks {result : MatchCommandResult MatchRecord}
    (h : LockOutcome db matchId userId now result db') : Shrinks now sent db db' := by
  cases h with
  | notFound h => exact .refl db
  | closed m h hstatus hdue =>
      obtain ⟨hm, hid, _, _⟩ := accessibleMatch_eq_some h
      apply Shrinks.updateMatch_of_mem hm hid
      rw [trackMatchInactivity_closedAt]
      exact .single (.closed m now hstatus hdue)
  | openedExpired m h hstatus hdue =>
      obtain ⟨hm, hid, _, _⟩ := accessibleMatch_eq_some h
      have hfirst : m.expiresAt ≤ now := by
        have hwindow : 0 < hours matchWindowHours := by decide
        have hsum : m.opened.expiresAt = m.expiresAt + hours matchWindowHours := rfl
        omega
      exact (shrinks_openWindow hm hid hstatus hfirst).trans
        (shrinks_expireWindow (mem_openWindow hm hid) hid rfl hdue)
  | opened m h hstatus hdue hopen =>
      obtain ⟨hm, hid, _, _⟩ := accessibleMatch_eq_some h
      exact shrinks_openWindow hm hid hstatus hdue
  | expired m h hstatus hdue =>
      obtain ⟨hm, hid, _, _⟩ := accessibleMatch_eq_some h
      exact shrinks_expireWindow hm hid hstatus hdue
  | finished m h hstatus => exact .refl db
  | live m h hstatus hopen => exact .refl db

/-- The row that a successful lock hands to the request. -/
theorem LockOutcome.mem_of_available
    (h : LockOutcome db matchId userId now (.available m) db') :
    m ∈ db'.matchInit ∧ m.id = matchId ∧ m.isParticipant userId = true ∧
      isLive m.status = true ∧ now < m.expiresAt := by
  cases h with
  | opened n h hstatus hdue hopen =>
      obtain ⟨hm, hid, hparticipant, _⟩ := accessibleMatch_eq_some h
      exact ⟨mem_openWindow hm hid, hid, hparticipant, rfl, hopen⟩
  | live m h hstatus hopen =>
      obtain ⟨hm, hid, hparticipant, _⟩ := accessibleMatch_eq_some h
      exact ⟨hm, hid, hparticipant, hstatus, hopen⟩

theorem shrinks_clearChoice (db : Db) (matchId userId : Uuid) (clock : ℤ) :
    Shrinks T sent db (clearChoice db matchId userId clock) := by
  have hdelete : Shrinks T sent db { db with
      reservations := db.reservations.delete fun r ↦ r.key = (matchId, userId) } := .delete _
  exact hdelete.trans (.of_sameLedger ⟨rfl, rfl, rfl, rfl⟩)

theorem sameLedger_notifyWaiting (db : Db) (matchId actorId first second : Uuid) (clock : ℤ)
    (sourceId : Uuid) :
    SameLedger db (notifyWaiting db matchId actorId first second clock sourceId) := by
  unfold notifyWaiting
  dsimp only
  generalize (if actorId = first then second else first) = recipient
  split
  · have hexpire : SameLedger db (expireChoiceNotification db matchId actorId clock) :=
      ⟨rfl, rfl, rfl, rfl⟩
    exact hexpire.trans (sameLedger_enqueueNotification ..)
  · exact .refl db

theorem shrinks_recordEnd (db : Db) (matchId userId : Uuid) (checked stamped : ℤ) :
    Shrinks T sent db (recordEnd db matchId userId checked stamped).2 := by
  unfold recordEnd
  dsimp only
  split
  · exact .refl db
  · rename_i m hfound
    obtain ⟨hfind, _⟩ := Option.filter_eq_some_iff.mp hfound
    obtain ⟨hm, hid⟩ := Table.find?_eq_some_iff.mp hfind
    split
    · rename_i hstatus
      have hupdate : Shrinks T sent db (updateMatch db stamped (fun m ↦ m.id = matchId)
          (MatchRecord.endedAt checked stamped) fun _ ↦ rfl) := by
        apply Shrinks.updateMatch_of_mem hm hid
        rw [trackMatchInactivity_endedAt]
        exact .single (.ended m checked stamped hstatus)
      exact hupdate.trans (.delete _)
    · exact .refl db

theorem shrinks_announceReveal {clock : ℤ} (hm : m ∈ db.matchInit) (hid : m.id = matchId)
    (hlive : isLive m.status = true) (record : MatchRecord) :
    Shrinks T sent db (announceReveal db record matchId clock) := by
  have hupdate : Shrinks T sent db { db with
      matchInit := db.matchInit.modify (fun m ↦ m.id = matchId) MatchRecord.revealedAgain
        MatchRecord.id_revealedAgain } := by
    refine ⟨fun m' hm' ↦ ?_, fun r hr ↦ hr, fun r _ n hn _ ↦ ?_, rfl, rfl⟩
    · obtain ⟨n, hn, rfl⟩ := (Table.mem_modify MatchRecord.id_revealedAgain).mp hm'
      refine ⟨n, hn, ?_⟩
      split
      · rename_i hp
        have hkey : n.id = m.id := (by simpa using hp : n.id = matchId).trans hid.symm
        rw [Table.eq_of_key_eq hn hm hkey]
        exact .single (.revealed m hlive)
      · exact .refl
    · refine ⟨_, (Table.mem_modify MatchRecord.id_revealedAgain).mpr ⟨n, hn, rfl⟩, ?_⟩
      split <;> rfl
  unfold announceReveal
  exact hupdate.trans (.of_sameLedger
    ((sameLedger_enqueueNotification ..).trans (sameLedger_enqueueNotification ..)))

theorem shrinks_recordReveal {consent : PhotoRevealConsent} {locked clock : ℤ}
    {result : MatchCommandResult Bool}
    (h : recordReveal db matchId userId consent locked clock = .ok (result, db')) :
    Shrinks locked sent db db' := by
  unfold recordReveal at h
  split at h
  · rename_i reason db₁ hlock
    simp only [Except.ok.injEq, Prod.mk.injEq] at h
    obtain ⟨_, rfl⟩ := h
    exact (LockOutcome.of_eq hlock).shrinks
  · rename_i record db₁ hlock
    have hshrinks : Shrinks locked sent db db₁ := (LockOutcome.of_eq hlock).shrinks
    obtain ⟨hm, hid, _, hlive, _⟩ := (LockOutcome.of_eq hlock).mem_of_available
    split at h
    · cases h
    dsimp only at h
    split at h
    · simp only [Except.ok.injEq, Prod.mk.injEq] at h
      obtain ⟨_, rfl⟩ := h
      exact hshrinks
    have hstate : Shrinks locked sent db₁ { db₁ with
        matchState := db₁.matchState.modify (fun s ↦ s.key = (matchId, userId))
          (MatchState.reveal consent.isGranted) (MatchState.key_reveal consent.isGranted) } :=
      .of_sameLedger ⟨rfl, rfl, rfl, rfl⟩
    split at h
    · simp only [Except.ok.injEq, Prod.mk.injEq] at h
      obtain ⟨_, rfl⟩ := h
      refine (hshrinks.trans hstate).trans ?_
      apply shrinks_announceReveal ?_ hid hlive
      exact hm
    · simp only [Except.ok.injEq, Prod.mk.injEq] at h
      obtain ⟨_, rfl⟩ := h
      exact hshrinks.trans hstate

end Requests

section Messages

variable {T : ℤ} {sent : Option (Uuid × ℤ)} {db db' db₁ : Db} {q : MessageRequest}
  {t : MessageClock} {m : MatchRecord}

/-- What a message request can answer and write. -/
inductive MessageOutcome (db : Db) (q : MessageRequest) (t : MessageClock) :
    MessageCreationResult → Db → Prop
  | unavailable (reason : MatchAvailabilityFailure) (db₁ : Db)
      (result : MatchCommandResult MatchRecord)
      (h : lockAvailableMatch db q.matchId q.senderId t.locked = (result, db₁)) :
      MessageOutcome db q t (.unavailable reason) db₁
  | answered (m : MatchRecord) (db₁ : Db) (answer : MessageCreationResult)
      (h : lockAvailableMatch db q.matchId q.senderId t.locked = (.available m, db₁))
      (hanswer : ∀ creation, answer = .available creation → creation.created = false) :
      MessageOutcome db q t answer db₁
  | stored (m : MatchRecord) (db₁ : Db) (messages : Table MessageRecord.id)
      (h : lockAvailableMatch db q.matchId q.senderId t.locked = (.available m, db₁))
      (hstatus : m.status = .active ∨ m.status = .confirmed)
      (hinsert : db₁.messages.insert? (q.row t.inserted) = some messages) :
      MessageOutcome db q t
        (.available ⟨q.row t.inserted, (m.user1Id, m.user2Id), true⟩)
        (publishMessage { db₁ with messages } m (q.row t.inserted) t.notified)

theorem replayAnswer_created {replay : MessageCreation} {matchId : Uuid} {content : String} :
    ∀ creation, replayAnswer replay matchId content = .available creation →
      creation.created = false := by
  intro creation h
  unfold replayAnswer at h
  split at h
  · cases h
  · cases h
    rfl

theorem insertMessage_eq_some {message : MessageRecord}
    (h : insertMessage db₁ message = .ok (some db')) :
    ∃ messages, db₁.messages.insert? message = some messages ∧ db' = { db₁ with messages } := by
  unfold insertMessage at h
  split at h
  · cases h
  · split at h
    · cases h
    · rename_i messages hinsert
      exact ⟨messages, hinsert, (Option.some.inj (Except.ok.inj h)).symm⟩

theorem createMessage_outcome {result : MessageCreationResult}
    (h : createMessage db q t = .ok (result, db')) : MessageOutcome db q t result db' := by
  unfold createMessage lockForMessage at h
  cases hlock : lockAvailableMatch db q.matchId q.senderId t.locked with
  | mk lockResult db₁ =>
      cases lockResult with
      | unavailable reason =>
          simp only [hlock, Except.ok.injEq, Prod.mk.injEq] at h
          obtain ⟨rfl, rfl⟩ := h
          exact .unavailable reason db₁ _ hlock
      | available m =>
          by_cases hawaiting : m.status = .awaitingContinuation
          · simp only [hlock, hawaiting, if_true, Except.ok.injEq, Prod.mk.injEq] at h
            obtain ⟨rfl, rfl⟩ := h
            exact .unavailable .invalidState db₁ _ hlock
          simp only [hlock, hawaiting, if_false] at h
          split at h
          · simp only [Except.ok.injEq, Prod.mk.injEq] at h
            obtain ⟨rfl, rfl⟩ := h
            exact .answered m db₁ _ hlock replayAnswer_created
          split at h
          · cases h
          · split at h
            · simp only [Except.ok.injEq, Prod.mk.injEq] at h
              obtain ⟨rfl, rfl⟩ := h
              exact .answered m db₁ _ hlock nofun
            · simp only [Except.ok.injEq, Prod.mk.injEq] at h
              obtain ⟨rfl, rfl⟩ := h
              exact .answered m db₁ _ hlock replayAnswer_created
          · rename_i hok
            obtain ⟨messages, hinsert, rfl⟩ := insertMessage_eq_some hok
            simp only [Except.ok.injEq, Prod.mk.injEq] at h
            obtain ⟨rfl, rfl⟩ := h
            have hlive := (LockOutcome.of_eq hlock).mem_of_available.2.2.2.1
            have hstatus : m.status = .active ∨ m.status = .confirmed := by
              cases hm : m.status <;> simp_all [isLive]
            exact .stored m db₁ messages hlock hstatus hinsert

theorem shrinks_publishMessage {message : MessageRecord} {clock : ℤ}
    (hsent : sent = some (message.matchId, message.createdAt))
    (hm : m ∈ db.matchInit) (hid : m.id = message.matchId)
    (hstatus : m.status = .active ∨ m.status = .confirmed) (available : MatchRecord) :
    Shrinks T sent db (publishMessage db available message clock) := by
  have hupdate : Shrinks T sent db
      (updateMatch db clock (fun m ↦ m.id = message.matchId)
        (fun m ↦ { m with lastMessageAt := some message.createdAt }) fun _ ↦ rfl) := by
    apply Shrinks.updateMatch_of_mem hm hid
    rw [trackMatchInactivity_messagedAt]
    exact .single (.messaged m message.createdAt (hid ▸ hsent) hstatus)
  exact hupdate.trans (.of_sameLedger (sameLedger_enqueueNotification ..))

theorem MessageOutcome.shrinks {result : MessageCreationResult}
    (h : MessageOutcome db q t result db') :
    Shrinks t.locked (some (q.matchId, t.inserted)) db db' := by
  cases h with
  | unavailable reason _ lockResult hlock => exact (LockOutcome.of_eq hlock).shrinks
  | answered m _ _ hlock hanswer => exact (LockOutcome.of_eq hlock).shrinks
  | stored m db₁ messages hlock hstatus hinsert =>
      obtain ⟨hm, hid, _, _, hopen⟩ := (LockOutcome.of_eq hlock).mem_of_available
      have hmessages : Shrinks t.locked (some (q.matchId, t.inserted)) db₁ { db₁ with messages } :=
        .of_sameLedger ⟨rfl, rfl, rfl, rfl⟩
      have hpublish : Shrinks t.locked (some (q.matchId, t.inserted)) { db₁ with messages }
          (publishMessage { db₁ with messages } m (q.row t.inserted) t.notified) := by
        refine shrinks_publishMessage ?_ ?_ ?_ hstatus m
        · rfl
        · exact hm
        · exact hid
      exact ((LockOutcome.of_eq hlock).shrinks.trans hmessages).trans hpublish

theorem shrinks_markMessageRead (db : Db) (matchId messageId userId : Uuid) (locked clock : ℤ) :
    Shrinks locked sent db (markMessageRead db matchId messageId userId locked clock).2 := by
  unfold markMessageRead
  split
  · rename_i hlock
    exact (LockOutcome.of_eq hlock).shrinks
  · rename_i hlock
    exact (LockOutcome.of_eq hlock).shrinks.trans (.of_sameLedger ⟨rfl, rfl, rfl, rfl⟩)

theorem shrinks_markMessagesReadThrough (db : Db) (matchId messageId userId : Uuid)
    (locked clock : ℤ) :
    Shrinks locked sent db (markMessagesReadThrough db matchId messageId userId locked clock).2 := by
  unfold markMessagesReadThrough
  split
  · rename_i hlock
    exact (LockOutcome.of_eq hlock).shrinks
  · rename_i hlock
    split
    · exact (LockOutcome.of_eq hlock).shrinks
    · exact (LockOutcome.of_eq hlock).shrinks.trans (.of_sameLedger ⟨rfl, rfl, rfl, rfl⟩)

end Messages

section Maintenance

variable {sent : Option (Uuid × ℤ)} {db : Db} {pass : Pass} {m : MatchRecord}
  {status : MatchStatus}

theorem mem_candidates {deadline : MatchRecord → ℤ} {p : MatchRecord → Bool}
    (h : m ∈ candidates db pass deadline p) : m ∈ db.matchInit ∧ p m = true := by
  have hsorted := List.mem_of_mem_take h
  rw [(List.perm_insertionSort _ _).mem_iff] at hsorted
  obtain ⟨hm, hp⟩ := Table.mem_select.mp hsorted
  simp only [Bool.and_eq_true] at hp
  exact ⟨hm, hp.1⟩

theorem due_of_mem_dueMatches (hm : m ∈ db.matchInit) (h : m.id ∈ dueMatches db pass status) :
    m.status = status ∧ m.expiresAt ≤ pass.now := by
  obtain ⟨n, hn, hid⟩ := List.mem_map.mp h
  obtain ⟨hnmem, hp⟩ := mem_candidates hn
  rw [Table.eq_of_key_eq hm hnmem hid.symm]
  simpa using hp

theorem shrinks_openContinuationWindows (db : Db) (pass : Pass) :
    Shrinks pass.now sent db (openContinuationWindows db pass).2 := by
  have hid : ∀ m : MatchRecord, m.opened.id = m.id := fun _ ↦ rfl
  apply Shrinks.updateMatch hid
  intro m hm hp
  obtain ⟨hstatus, hdue⟩ := due_of_mem_dueMatches hm (by simpa using hp)
  rw [trackMatchInactivity_opened]
  exact .single (.opened m hstatus hdue)

theorem shrinks_expireContinuationWindows (db : Db) (pass : Pass) :
    Shrinks pass.now sent db (expireContinuationWindows db pass).2 := by
  have hid : ∀ m : MatchRecord,
      (m.expiredUntil (pass.now + days matchPurgeDays)).id = m.id := fun _ ↦ rfl
  apply Shrinks.updateMatch hid
  intro m hm hp
  obtain ⟨hstatus, hdue⟩ := due_of_mem_dueMatches hm (by simpa using hp)
  rw [trackMatchInactivity_expiredUntil]
  exact .single (.expired m _ hstatus hdue)

theorem shrinks_closeInactiveMatches (db : Db) (pass : Pass) :
    Shrinks pass.now sent db (closeInactiveMatches db pass).2 := by
  have hid : ∀ m : MatchRecord, (m.closedAt pass.now).id = m.id := fun _ ↦ rfl
  apply Shrinks.updateMatch hid
  intro m hm hp
  obtain ⟨hstatus, hdue⟩ := due_of_mem_dueMatches hm (by simpa using hp)
  rw [trackMatchInactivity_closedAt]
  exact .single (.closed m pass.now hstatus hdue)

theorem sameLedger_enqueueDeadlines (clock : ℤ) (intent : Uuid → ℤ → NotificationIntent)
    (due : List MatchRecord) (db : Db) : SameLedger db (enqueueDeadlines clock intent due db) := by
  induction due generalizing db with
  | nil => exact .refl db
  | cons m rest ih =>
      unfold enqueueDeadlines
      exact ((sameLedger_enqueueNotification ..).trans
        (sameLedger_enqueueNotification ..)).trans (ih _)

theorem shrinks_purgeExpiredMatches (db : Db) (pass : Pass) (reported : Uuid → Bool) :
    Shrinks pass.now sent db (purgeExpiredMatches db pass reported).2 := by
  refine ⟨fun m hm ↦ ⟨m, (Table.mem_delete.mp hm).1, .refl⟩,
    fun r hr ↦ (Table.mem_delete.mp hr).1, fun r hr m hm hid ↦ ?_, rfl, rfl⟩
  refine ⟨m, Table.mem_delete.mpr ⟨hm, ?_⟩, rfl⟩
  have hkept := (Table.mem_delete.mp hr).2
  rw [hid]
  exact hkept

end Maintenance

end Histae.Matches
