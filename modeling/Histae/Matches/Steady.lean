import Histae.Matches.Endings

/-!
# Steps that leave the choices alone

Most steps touch neither the choices and consents of a match nor the
reservations of a match that is still to be decided.
-/

namespace Histae.Matches

open Relational Systems

/-- The first period runs, or both may still choose. -/
def MatchRecord.Undecided (T : ℤ) (m : MatchRecord) : Prop :=
  m.status = .active ∨ m.status = .awaitingContinuation ∧ T < m.expiresAt

/-- The row keeps its participants and its reveal version, and does not become
undecided again. -/
structure Continues (T : ℤ) (m m' : MatchRecord) : Prop where
  id : m'.id = m.id
  user1Id : m'.user1Id = m.user1Id
  user2Id : m'.user2Id = m.user2Id
  version : m'.photoRevealVersion = m.photoRevealVersion
  active : m'.status = .active → m.status = .active
  undecided : m'.Undecided T → m.Undecided T

structure Steady (T : ℤ) (db db' : Db) : Prop where
  rows : ∀ m' ∈ db'.matchInit, ∃ m ∈ db.matchInit, Continues T m m'
  states : ∀ m' ∈ db'.matchInit, ∀ u,
    db'.matchState.find? (m'.id, u) = db.matchState.find? (m'.id, u)
  filed : ∀ s ∈ db'.matchState, s ∈ db.matchState
  reservations : ∀ m' ∈ db'.matchInit, m'.Undecided T → ∀ u,
    db'.reservations.find? (m'.id, u) = db.reservations.find? (m'.id, u)
  kept : ∀ r ∈ db'.reservations, r ∈ db.reservations
  announced : ∀ n ∈ db'.notifications, n.intent.kind = .photosRevealed → n ∈ db.notifications

section Continues

variable {T : ℤ} {m m' m'' : MatchRecord}

theorem Continues.refl (m : MatchRecord) : Continues T m m :=
  ⟨rfl, rfl, rfl, rfl, fun h ↦ h, fun h ↦ h⟩

theorem Continues.trans (h : Continues T m m') (h' : Continues T m' m'') : Continues T m m'' where
  id := h'.id.trans h.id
  user1Id := h'.user1Id.trans h.user1Id
  user2Id := h'.user2Id.trans h.user2Id
  version := h'.version.trans h.version
  active hactive := h.active (h'.active hactive)
  undecided hundecided := h.undecided (h'.undecided hundecided)

theorem MatchRecord.Undecided.mono {T' : ℤ} (h : m.Undecided T') (hT : T ≤ T') :
    m.Undecided T := by
  rcases h with hactive | ⟨hawaiting, hopen⟩
  · exact Or.inl hactive
  · exact Or.inr ⟨hawaiting, hT.trans_lt hopen⟩

theorem MatchRecord.not_undecided (hactive : m.status ≠ .active)
    (hawaiting : m.status ≠ .awaitingContinuation) : ¬ m.Undecided T := by
  rintro (h | ⟨h, -⟩)
  · exact hactive h
  · exact hawaiting h

theorem Continues.opened (hstatus : m.status = .active) : Continues T m m.opened :=
  ⟨rfl, rfl, rfl, rfl, nofun, fun _ ↦ Or.inl hstatus⟩

theorem Continues.expiredUntil (purgeAfter : ℤ) : Continues T m (m.expiredUntil purgeAfter) :=
  ⟨rfl, rfl, rfl, rfl, nofun, fun h ↦ absurd h (MatchRecord.not_undecided nofun nofun)⟩

theorem Continues.closedAt (now : ℤ) : Continues T m (m.closedAt now) :=
  ⟨rfl, rfl, rfl, rfl, nofun, fun h ↦ absurd h (MatchRecord.not_undecided nofun nofun)⟩

theorem Continues.endedAt (checked stamped : ℤ) : Continues T m (m.endedAt checked stamped) :=
  ⟨rfl, rfl, rfl, rfl, nofun, fun h ↦ absurd h (MatchRecord.not_undecided nofun nofun)⟩

theorem Continues.messagedAt (at_ : ℤ) (hstatus : m.status = .active ∨ m.status = .confirmed) :
    Continues T m (m.messagedAt at_) := by
  refine ⟨rfl, rfl, rfl, rfl, fun h ↦ h, ?_⟩
  rintro (h | ⟨h, -⟩)
  · exact Or.inl h
  · have hawaiting : m.status = .awaitingContinuation := h
    rcases hstatus with hstatus | hstatus <;> rw [hstatus] at hawaiting <;> cases hawaiting

/-- The trigger writes nothing but the deadline. -/
theorem trackMatchInactivity_eq (clock : ℤ) (old new : MatchRecord) :
    ∃ expiresAt, trackMatchInactivity clock old new = { new with expiresAt } := by
  unfold trackMatchInactivity
  split
  · split
    · exact ⟨_, rfl⟩
    · split
      · split
        · exact ⟨_, rfl⟩
        · exact ⟨new.expiresAt, rfl⟩
      · exact ⟨new.expiresAt, rfl⟩
  · exact ⟨new.expiresAt, rfl⟩

theorem Continues.confirmed (m : MatchRecord) (clock : ℤ) :
    Continues T m
      (trackMatchInactivity clock m { m with status := .confirmed, purgeAfter := none }) := by
  obtain ⟨expiresAt, htrack⟩ :=
    trackMatchInactivity_eq clock m { m with status := .confirmed, purgeAfter := none }
  rw [htrack]
  exact ⟨rfl, rfl, rfl, rfl, nofun, fun h ↦ absurd h (MatchRecord.not_undecided nofun nofun)⟩

end Continues

namespace Steady

variable {T : ℤ} {db db' db'' : Db}

theorem refl (db : Db) : Steady T db db where
  rows m hm := ⟨m, hm, .refl m⟩
  states _ _ _ := rfl
  filed _ hs := hs
  reservations _ _ _ _ := rfl
  kept _ hr := hr
  announced _ hn _ := hn

theorem trans (h : Steady T db db') (h' : Steady T db' db'') : Steady T db db'' where
  rows m'' hm'' := by
    obtain ⟨m', hm', hcontinues'⟩ := h'.rows m'' hm''
    obtain ⟨m, hm, hcontinues⟩ := h.rows m' hm'
    exact ⟨m, hm, hcontinues.trans hcontinues'⟩
  states m'' hm'' u := by
    obtain ⟨m', hm', hcontinues'⟩ := h'.rows m'' hm''
    rw [h'.states m'' hm'' u, hcontinues'.id, h.states m' hm' u]
  filed s hs := h.filed s (h'.filed s hs)
  kept r hr := h.kept r (h'.kept r hr)
  reservations m'' hm'' hundecided u := by
    obtain ⟨m', hm', hcontinues'⟩ := h'.rows m'' hm''
    rw [h'.reservations m'' hm'' hundecided u, hcontinues'.id,
      h.reservations m' hm' (hcontinues'.undecided hundecided) u]
  announced n hn hkind := h.announced n (h'.announced n hn hkind) hkind

/-- Only other tables changed. -/
theorem of_same (hmatch : db'.matchInit = db.matchInit) (hstates : db'.matchState = db.matchState)
    (hreservations : db'.reservations = db.reservations)
    (hnotifications : db'.notifications = db.notifications) : Steady T db db' where
  rows m hm := ⟨m, hmatch ▸ hm, .refl m⟩
  states _ _ _ := by rw [hstates]
  filed s hs := hstates ▸ hs
  reservations _ _ _ _ := by rw [hreservations]
  kept r hr := hreservations ▸ hr
  announced n hn _ := hnotifications ▸ hn

theorem updateMatch {clock : ℤ} {p : MatchRecord → Bool} {f : MatchRecord → MatchRecord}
    (hf : ∀ m, (f m).id = m.id)
    (h : ∀ m ∈ db.matchInit, p m = true → Continues T m (trackMatchInactivity clock m (f m))) :
    Steady T db (updateMatch db clock p f hf) where
  rows m' hm' := by
    obtain ⟨m, hm, rfl⟩ := (mem_updateMatch hf).mp hm'
    refine ⟨m, hm, ?_⟩
    split
    · exact h m hm ‹_›
    · exact .refl m
  states _ _ _ := rfl
  filed _ hs := hs
  reservations _ _ _ _ := rfl
  kept _ hr := hr
  announced _ hn _ := hn

/-- An update of the row of one match. -/
theorem updateMatch_of_mem {clock : ℤ} {matchId : Uuid} {f : MatchRecord → MatchRecord}
    {hf : ∀ m, (f m).id = m.id} {m : MatchRecord} (hm : m ∈ db.matchInit) (hid : m.id = matchId)
    (h : Continues T m (trackMatchInactivity clock m (f m))) :
    Steady T db (Matches.updateMatch db clock (fun m ↦ m.id = matchId) f hf) := by
  apply updateMatch hf
  intro n hn hp
  have hkey : n.id = m.id := (by simpa using hp : n.id = matchId).trans hid.symm
  rw [Table.eq_of_key_eq hn hm hkey]
  exact h

/-- The deleted reservations belong to no undecided match. -/
theorem delete {p : Reservation → Bool}
    (h : ∀ m ∈ db.matchInit, m.Undecided T → ∀ r ∈ db.reservations, r.matchId = m.id →
      p r = false) :
    Steady T db { db with reservations := db.reservations.delete p } where
  rows m hm := ⟨m, hm, .refl m⟩
  states _ _ _ := rfl
  filed _ hs := hs
  kept _ hr := (Table.mem_delete.mp hr).1
  reservations m hm hundecided u := by
    change (db.reservations.delete p).find? (m.id, u) = _
    rw [Table.find?_delete]
    cases hfind : db.reservations.find? (m.id, u) with
    | none => rfl
    | some r =>
        obtain ⟨hr, hkey⟩ := Table.find?_eq_some_iff.mp hfind
        simp [Option.filter, h m hm hundecided r hr (congrArg Prod.fst hkey)]
  announced _ hn _ := hn

/-- The end of a match, with its reservations. -/
theorem updateMatch_deleteReservations {clock : ℤ} {matchId : Uuid}
    {f : MatchRecord → MatchRecord} {hf : ∀ m, (f m).id = m.id} {m : MatchRecord}
    (hm : m ∈ db.matchInit) (hid : m.id = matchId)
    (h : ∀ n, Continues T n (trackMatchInactivity clock n (f n)))
    (hdone : ∀ n, ¬ (trackMatchInactivity clock n (f n)).Undecided T) :
    Steady T db (deleteReservations
      (Matches.updateMatch db clock (fun m ↦ m.id = matchId) f hf) matchId) := by
  refine (updateMatch_of_mem hm hid (h m)).trans (delete ?_)
  intro m' hm' hundecided r _ hr
  obtain ⟨n, hn, rfl⟩ := (mem_updateMatch hf).mp hm'
  by_cases hn : n.id = matchId
  · simp only [hn, decide_true, if_true] at hundecided
    exact absurd hundecided (hdone n)
  · simp only [hn, decide_false, Bool.false_eq_true, if_false] at hr
    simp [hr, hn]

theorem enqueueNotification {clock : ℤ} {userId : Uuid} {source : NotificationSource}
    {intent : NotificationIntent} (hkind : intent.kind ≠ .photosRevealed) :
    Steady T db (enqueueNotification db clock userId source intent) := by
  unfold Matches.enqueueNotification
  split
  · exact .refl db
  split
  · exact .refl db
  · refine ⟨fun m hm ↦ ⟨m, hm, .refl m⟩, fun _ _ _ ↦ rfl, fun _ hs ↦ hs, fun _ _ _ _ ↦ rfl,
      fun _ hr ↦ hr, ?_⟩
    intro n hn hreveal
    dsimp only at hn
    cases hinsert : db.notifications.insert? _ with
    | none =>
        rw [hinsert] at hn
        exact hn
    | some notifications =>
        rw [hinsert] at hn
        rcases (Table.mem_insert hinsert).mp hn with rfl | hn
        · exact absurd hreveal hkind
        · exact hn

end Steady

section Requests

variable {T : ℤ} {db db' : Db} {matchId userId : Uuid} {now : ℤ} {m : MatchRecord}

theorem steady_expireWindow (hm : m ∈ db.matchInit) (hid : m.id = matchId) :
    Steady T db (expireWindow db matchId now) := by
  refine Steady.updateMatch_deleteReservations hm hid (fun n ↦ ?_) fun n ↦ ?_
  · rw [trackMatchInactivity_expiredUntil]
    exact .expiredUntil _
  · rw [trackMatchInactivity_expiredUntil]
    exact MatchRecord.not_undecided nofun nofun

theorem steady_openWindow (hm : m ∈ db.matchInit) (hid : m.id = matchId)
    (hstatus : m.status = .active) : Steady T db (openWindow db matchId now) := by
  apply Steady.updateMatch_of_mem hm hid
  rw [trackMatchInactivity_opened]
  exact .opened hstatus

theorem LockOutcome.steady {result : MatchCommandResult MatchRecord}
    (h : LockOutcome db matchId userId now result db') : Steady T db db' := by
  cases h with
  | notFound h => exact .refl db
  | closed m h hstatus hdue =>
      obtain ⟨hm, hid, _, _⟩ := accessibleMatch_eq_some h
      apply Steady.updateMatch_of_mem hm hid
      rw [trackMatchInactivity_closedAt]
      exact .closedAt now
  | openedExpired m h hstatus hdue =>
      obtain ⟨hm, hid, _, _⟩ := accessibleMatch_eq_some h
      exact (steady_openWindow hm hid hstatus).trans
        (steady_expireWindow (mem_openWindow hm hid) hid)
  | opened m h hstatus hdue hopen =>
      obtain ⟨hm, hid, _, _⟩ := accessibleMatch_eq_some h
      exact steady_openWindow hm hid hstatus
  | expired m h hstatus hdue =>
      obtain ⟨hm, hid, _, _⟩ := accessibleMatch_eq_some h
      exact steady_expireWindow hm hid
  | finished m h hstatus => exact .refl db
  | live m h hstatus hopen => exact .refl db

theorem steady_recordEnd (db : Db) (matchId userId : Uuid) (checked stamped : ℤ) :
    Steady T db (recordEnd db matchId userId checked stamped).2 := by
  unfold recordEnd
  dsimp only
  split
  · exact .refl db
  · rename_i m hfound
    obtain ⟨hfind, _⟩ := Option.filter_eq_some_iff.mp hfound
    obtain ⟨hm, hid⟩ := Table.find?_eq_some_iff.mp hfind
    split
    · refine Steady.updateMatch_deleteReservations hm hid (fun n ↦ ?_) fun n ↦ ?_
      · rw [trackMatchInactivity_endedAt]
        exact .endedAt checked stamped
      · rw [trackMatchInactivity_endedAt]
        exact MatchRecord.not_undecided (fun h ↦ by cases h) (fun h ↦ by cases h)
    · exact .refl db

theorem MessageOutcome.steady {q : MessageRequest} {t : MessageClock}
    {result : MessageCreationResult} (h : MessageOutcome db q t result db') : Steady T db db' := by
  cases h with
  | unavailable reason _ lockResult hlock => exact (LockOutcome.of_eq hlock).steady
  | answered m _ _ hlock hanswer => exact (LockOutcome.of_eq hlock).steady
  | stored m db₁ messages hlock hstatus hinsert =>
      obtain ⟨hm, hid, _, _, _⟩ := (LockOutcome.of_eq hlock).mem_of_available
      have hmessages : Steady T db₁ { db₁ with messages } := .of_same rfl rfl rfl rfl
      have hupdate : Steady T { db₁ with messages }
          (updateMatch { db₁ with messages } t.notified (fun m ↦ m.id = (q.row t.inserted).matchId)
            (fun m ↦ { m with lastMessageAt := some (q.row t.inserted).createdAt })
            fun _ ↦ rfl) := by
        refine Steady.updateMatch_of_mem (m := m) hm hid ?_
        rw [trackMatchInactivity_messagedAt]
        exact .messagedAt _ hstatus
      exact (((LockOutcome.of_eq hlock).steady.trans hmessages).trans hupdate).trans
        (.enqueueNotification nofun)

theorem steady_markMessageRead (db : Db) (matchId messageId userId : Uuid) (locked clock : ℤ) :
    Steady T db (markMessageRead db matchId messageId userId locked clock).2 := by
  unfold markMessageRead
  split
  · rename_i hlock
    exact (LockOutcome.of_eq hlock).steady
  · rename_i hlock
    exact (LockOutcome.of_eq hlock).steady.trans (.of_same rfl rfl rfl rfl)

theorem steady_markMessagesReadThrough (db : Db) (matchId messageId userId : Uuid)
    (locked clock : ℤ) :
    Steady T db (markMessagesReadThrough db matchId messageId userId locked clock).2 := by
  unfold markMessagesReadThrough
  split
  · rename_i hlock
    exact (LockOutcome.of_eq hlock).steady
  · rename_i hlock
    split
    · exact (LockOutcome.of_eq hlock).steady
    · exact (LockOutcome.of_eq hlock).steady.trans (.of_same rfl rfl rfl rfl)

theorem steady_block (db : Db) (blockerId blockedId : Uuid) (clock : ℤ) :
    Steady T db (block db blockerId blockedId clock).2 := by
  unfold block
  split
  · have hblocks : Steady T db { db with blocks := insertBlock db.blocks blockerId blockedId } :=
      .of_same rfl rfl rfl rfl
    refine hblocks.trans ?_
    dsimp only
    apply Steady.updateMatch
    intro m _ _
    rw [trackMatchInactivity_of_ne]
    · exact ⟨rfl, rfl, rfl, rfl, (fun h ↦ by cases h), fun h ↦ absurd h (MatchRecord.not_undecided (fun h ↦ by cases h) (fun h ↦ by cases h))⟩
    · exact fun h ↦ by cases h
  · exact .refl db

end Requests

section Maintenance

variable {T : ℤ}

theorem steady_openContinuationWindows (db : Db) (pass : Pass) :
    Steady T db (openContinuationWindows db pass).2 := by
  have hid : ∀ m : MatchRecord, m.opened.id = m.id := fun _ ↦ rfl
  apply Steady.updateMatch hid
  intro m hm hp
  obtain ⟨hstatus, _⟩ := due_of_mem_dueMatches hm (by simpa using hp)
  rw [trackMatchInactivity_opened]
  exact .opened hstatus

theorem steady_expireContinuationWindows (db : Db) (pass : Pass) :
    Steady T db (expireContinuationWindows db pass).2 := by
  have hid : ∀ m : MatchRecord,
      (m.expiredUntil (pass.now + days matchPurgeDays)).id = m.id := fun _ ↦ rfl
  apply Steady.updateMatch hid
  intro m _ _
  rw [trackMatchInactivity_expiredUntil]
  exact .expiredUntil _

theorem steady_closeInactiveMatches (db : Db) (pass : Pass) :
    Steady T db (closeInactiveMatches db pass).2 := by
  have hid : ∀ m : MatchRecord, (m.closedAt pass.now).id = m.id := fun _ ↦ rfl
  apply Steady.updateMatch hid
  intro m _ _
  rw [trackMatchInactivity_closedAt]
  exact .closedAt pass.now

theorem steady_enqueueDeadlines (intent : Uuid → ℤ → NotificationIntent)
    (hkind : ∀ id at_, (intent id at_).kind ≠ .photosRevealed) (clock : ℤ)
    (due : List MatchRecord) (db : Db) : Steady T db (enqueueDeadlines clock intent due db) := by
  induction due generalizing db with
  | nil => exact .refl db
  | cons m rest ih =>
      unfold enqueueDeadlines
      exact ((Steady.enqueueNotification (hkind _ _)).trans
        (Steady.enqueueNotification (hkind _ _))).trans (ih _)

theorem steady_deleteExpiredNotifications (db : Db) (pass : Pass)
    (chosen : List (NotificationType × NotificationSource × Uuid)) :
    Steady T db (deleteExpiredNotifications db pass chosen) :=
  ⟨fun m hm ↦ ⟨m, hm, .refl m⟩, fun _ _ _ ↦ rfl, fun _ hs ↦ hs, fun _ _ _ _ ↦ rfl,
    fun _ hr ↦ hr, fun _ hn _ ↦ (Table.mem_delete.mp hn).1⟩

theorem steady_purgeExpiredMatches (db : Db) (pass : Pass) (reported : Uuid → Bool) :
    Steady T db (purgeExpiredMatches db pass reported).2 := by
  unfold purgeExpiredMatches
  dsimp only
  refine ⟨fun m hm ↦ ⟨m, (Table.mem_delete.mp hm).1, .refl m⟩, fun m hm u ↦ ?_,
    fun s hs ↦ (Table.mem_delete.mp hs).1, fun m hm _ u ↦ ?_,
    fun r hr ↦ (Table.mem_delete.mp hr).1, fun _ hn _ ↦ hn⟩
  · have hkept : m.id ∉ purgeableMatches db pass reported := by
      simpa using (Table.mem_delete.mp hm).2
    rw [Table.find?_delete]
    cases hfind : db.matchState.find? (m.id, u) with
    | none => rfl
    | some s =>
        have hs : s.matchId = m.id := congrArg Prod.fst (Table.find?_eq_some_iff.mp hfind).2
        simp [Option.filter, hs, hkept]
  · have hkept : m.id ∉ purgeableMatches db pass reported := by
      simpa using (Table.mem_delete.mp hm).2
    rw [Table.find?_delete]
    cases hfind : db.reservations.find? (m.id, u) with
    | none => rfl
    | some r =>
        have hr : r.matchId = m.id := congrArg Prod.fst (Table.find?_eq_some_iff.mp hfind).2
        simp [Option.filter, hr, hkept]

end Maintenance

end Histae.Matches
