import Histae.Matches.Debits

/-!
# The decision window

A match has 24 hours to talk and 24 more to decide. Whichever of the four
writers moves the deadline, it depends only on the status, on the creation
and on the last renewal in the history of the run.
-/

namespace Histae.Matches

open Relational Systems

/-- The instant that last renewed the inactivity deadline of a match: its
newest message since the confirmation, or else the confirmation. -/
def lastRenewal (matchId : Uuid) : List Event → Option ℤ
  | [] => none
  | .stored message _ :: log =>
      if message.matchId = matchId then some message.createdAt else lastRenewal matchId log
  | .confirmed id _ trigger :: log =>
      if id = matchId then some trigger else lastRenewal matchId log
  | .created _ :: log => lastRenewal matchId log

theorem lastRenewal_append {matchId : Uuid} {events log : List Event}
    (h : ∀ event ∈ events, event.matchId ≠ matchId) :
    lastRenewal matchId (events ++ log) = lastRenewal matchId log := by
  induction events with
  | nil => rfl
  | cons event events ih =>
      have hne : event.matchId ≠ matchId := h event List.mem_cons_self
      have hrest := ih fun other hother ↦ h other (List.mem_cons_of_mem _ hother)
      cases event with
      | created m => exact hrest
      | confirmed id guard trigger =>
          exact (if_neg hne).trans hrest
      | stored message locked =>
          exact (if_neg hne).trans hrest

/-- The deadline of a row at the instant `clock`, after the history `log`. -/
structure Windowed (clock : ℤ) (log : List Event) (m : MatchRecord) : Prop where
  active : m.status = .active → m.expiresAt = m.createdAt + hours matchWindowHours
  awaiting : m.status = .awaitingContinuation →
    m.expiresAt = m.createdAt + 2 * hours matchWindowHours ∧
      m.createdAt + hours matchWindowHours ≤ clock
  confirmed : m.status = .confirmed → ∃ renewed, lastRenewal m.id log = some renewed ∧
    m.expiresAt = renewed + days matchInactivityDays ∧ renewed ≤ clock ∧
      ∀ at_, m.lastMessageAt = some at_ → at_ ≤ renewed
  messaged : ∀ at_, m.lastMessageAt = some at_ → at_ ≤ clock
  created : ∃ n, Event.created n ∈ log ∧ n.id = m.id ∧ n.createdAt = m.createdAt

namespace Windowed

variable {T T' : ℤ} {log events : List Event} {m m' : MatchRecord}

theorem mono (h : Windowed T log m) (hT : T ≤ T') : Windowed T' log m where
  active := h.active
  awaiting hstatus := ⟨(h.awaiting hstatus).1, (h.awaiting hstatus).2.trans hT⟩
  confirmed hstatus := by
    obtain ⟨renewed, hlast, hexpiry, hle, hmessage⟩ := h.confirmed hstatus
    exact ⟨renewed, hlast, hexpiry, hle.trans hT, hmessage⟩
  messaged at_ hat := (h.messaged at_ hat).trans hT
  created := h.created

theorem append (h : Windowed T log m) (hother : ∀ event ∈ events, event.matchId ≠ m.id) :
    Windowed T (events ++ log) m where
  active := h.active
  awaiting := h.awaiting
  confirmed hstatus := by
    rw [lastRenewal_append hother]
    exact h.confirmed hstatus
  messaged := h.messaged
  created := by
    obtain ⟨n, hn, hid, hcreated⟩ := h.created
    exact ⟨n, List.mem_append_right _ hn, hid, hcreated⟩

/-- A row whose status carries no deadline rule. -/
theorem of_finished (h : Windowed T log m) (hstatus : m'.status = .expired ∨ m'.status = .ended)
    (hmessage : m'.lastMessageAt = m.lastMessageAt) (hsame : SameIdentity m m') :
    Windowed T log m' := by
  refine ⟨fun h ↦ ?_, fun h ↦ ?_, fun h ↦ ?_, fun at_ hat ↦ h.messaged at_ (hmessage ▸ hat), ?_⟩
  · rcases hstatus with hs | hs <;> rw [hs] at h <;> cases h
  · rcases hstatus with hs | hs <;> rw [hs] at h <;> cases h
  · rcases hstatus with hs | hs <;> rw [hs] at h <;> cases h
  · rw [hsame.id, hsame.createdAt]
    exact h.created

theorem transition (h : Windowed T log m) (hstep : Transition T none m m') :
    Windowed T log m' := by
  have hsame := hstep.sameIdentity
  cases hstep with
  | opened hstatus hdue =>
      have hexpiry := h.active hstatus
      refine ⟨nofun, fun _ ↦ ⟨?_, hexpiry ▸ hdue⟩, nofun, h.messaged, h.created⟩
      change m.expiresAt + hours matchWindowHours = m.createdAt + 2 * hours matchWindowHours
      omega
  | expired purgeAfter hstatus hdue => exact h.of_finished (Or.inl rfl) rfl hsame
  | closed now hstatus hdue => exact h.of_finished (Or.inr rfl) rfl hsame
  | ended checked stamped hstatus => exact h.of_finished (Or.inr rfl) rfl hsame
  | revealed hstatus => exact ⟨h.active, h.awaiting, h.confirmed, h.messaged, h.created⟩
  | messaged at_ hsent hstatus => cases hsent

theorem path (h : Windowed T log m) (hpath : Path T none m m') : Windowed T log m' := by
  induction hpath with
  | refl => exact h
  | tail _ hstep ih => exact ih.transition hstep

/-- A stored message renews the deadline of a confirmed match and of no other. -/
theorem messagedAt {message : MessageRecord} {locked notified : ℤ} (h : Windowed locked log m)
    (hid : message.matchId = m.id) (hstatus : m.status = .active ∨ m.status = .confirmed)
    (hlocked : locked ≤ message.createdAt) (hnotified : message.createdAt ≤ notified) :
    Windowed notified (.stored message locked :: log) (m.messagedAt message.createdAt) := by
  refine ⟨fun hactive ↦ ?_, fun hawaiting ↦ ?_, fun hconfirmed ↦ ?_, fun at_ hat ↦ ?_, ?_⟩
  · have hne : ¬ (m.status = .confirmed ∧ m.lastMessageAt ≠ some message.createdAt) := by
      intro hboth
      rw [show m.status = .active from hactive] at hboth
      cases hboth.1
    rw [MatchRecord.messagedAt, if_neg hne]
    exact h.active hactive
  · have hawaiting : m.status = .awaitingContinuation := hawaiting
    rcases hstatus with hs | hs <;> rw [hs] at hawaiting <;> cases hawaiting
  · have hconfirmed : m.status = .confirmed := hconfirmed
    obtain ⟨renewed, hlast, hexpiry, hle, hmessage⟩ := h.confirmed hconfirmed
    refine ⟨message.createdAt, ?_, ?_, hnotified, ?_⟩
    · exact if_pos hid
    · by_cases hagain : m.lastMessageAt = some message.createdAt
      · have hrenewed := hmessage _ hagain
        have hsum : m.expiresAt = message.createdAt + days matchInactivityDays := by omega
        simpa [MatchRecord.messagedAt, hagain] using hsum
      · simp [MatchRecord.messagedAt, hconfirmed, hagain]
    · rintro at_ ⟨⟩
      exact le_rfl
  · obtain rfl : message.createdAt = at_ := Option.some.inj hat
    exact hnotified
  · obtain ⟨n, hn, hnid, hcreated⟩ := h.created
    exact ⟨n, List.mem_cons_of_mem _ hn, hnid, hcreated⟩

theorem confirmedAt {guard trigger : ℤ} (h : Windowed T log m) (htrigger : T ≤ trigger) :
    Windowed trigger (.confirmed m.id guard trigger :: log) (m.confirmedAt trigger) := by
  refine ⟨nofun, nofun, fun _ ↦ ?_, fun at_ hat ↦ (h.messaged at_ hat).trans htrigger, ?_⟩
  · refine ⟨trigger, ?_, rfl, le_rfl, fun at_ hat ↦ (h.messaged at_ hat).trans htrigger⟩
    exact if_pos rfl
  · obtain ⟨n, hn, hid, hcreated⟩ := h.created
    exact ⟨n, List.mem_cons_of_mem _ hn, hid, hcreated⟩

theorem mutualLikeRecord (id first second : Uuid) (now clock : ℤ) (log : List Event) :
    Windowed clock (.created (mutualLikeRecord id first second now) :: log)
      (mutualLikeRecord id first second now) :=
  ⟨fun _ ↦ rfl, nofun, nofun, nofun, ⟨_, List.mem_cons_self, rfl, rfl⟩⟩

end Windowed

section Steps

variable {w : World} {a : Action}

structure WindowInvariant (w : World) : Prop where
  issued : w.Issued
  windowed : ∀ m ∈ w.db.matchInit, Windowed w.clock w.log m

theorem WindowInvariant.next (h : WindowInvariant w) (henabled : a.Enabled w) :
    WindowInvariant (w.next a) := by
  refine ⟨h.issued.next henabled, fun m' hm' ↦ ?_⟩
  cases rowEffect h.issued henabled hm' with
  | evolved m hm hpath hother =>
      exact (((h.windowed m hm).mono henabled.clock_le).path hpath).append hother
  | messaged q t m n ha hm hpath hid hstatus hopen hrow hlog =>
      subst ha
      have ht : t.Ordered := henabled.ordered
      have hstart : w.clock ≤ t.locked := (henabled.start (t.locked, t.notified) rfl).1
      have hwindowed := ((h.windowed m hm).mono hstart).path hpath
      rw [hrow, hlog]
      exact hwindowed.messagedAt hid.symm hstatus ht.locked_le_inserted ht.inserted_le_notified
  | created id first second now clock ha hrow hlog =>
      rw [hlog, hrow]
      exact .mutualLikeRecord id first second now _ _
  | confirmed matchId userId legal cost t sourceId m n ha hm hpath hid hstatus hopen hrow hlog =>
      subst ha
      have hstart : w.clock ≤ t.now ∧ t.now ≤ t.trigger := henabled.start (t.now, t.trigger) rfl
      have hwindowed := ((h.windowed m hm).mono hstart.1).path hpath
      rw [hrow, hlog, ← hid]
      exact hwindowed.confirmedAt hstart.2

theorem windowInvariant_of_valid {w₀ : World} {as : List Action} (h₀ : Initial w₀)
    (hvalid : service.Valid w₀ as) : WindowInvariant (service.exec w₀ as) := by
  refine hvalid.invariant ⟨fun m hm ↦ ?_, fun m hm ↦ ?_⟩ fun _ _ hinv henabled ↦ hinv.next henabled
  · exact absurd (h₀.matchInit ▸ hm) (Table.notMem_empty m)
  · exact absurd (h₀.matchInit ▸ hm) (Table.notMem_empty m)

theorem Path.expiresAt_confirmed {T : ℤ} {m n : MatchRecord} (h : Path T none m n)
    (hstatus : n.status = .confirmed) : n.expiresAt = m.expiresAt := by
  induction h with
  | refl => rfl
  | tail _ hstep ih =>
      cases hstep with
      | opened hs hdue => cases hstatus
      | expired purgeAfter hs hdue => cases hstatus
      | closed now hs hdue => cases hstatus
      | ended checked stamped hs => cases hstatus
      | revealed hs => exact ih hstatus
      | messaged at_ hsent hs => cases hsent

/-- A match becomes confirmed while its window is open. -/
theorem WindowInvariant.confirmed (h : WindowInvariant w) (henabled : a.Enabled w)
    {m' : MatchRecord} (hm' : m' ∈ (w.next a).db.matchInit) (hstatus : m'.status = .confirmed) :
    (∃ m ∈ w.db.matchInit, m.id = m'.id ∧ m.status = .confirmed) ∨
      ∃ guard trigger, (w.next a).log = .confirmed m'.id guard trigger :: w.log ∧
        guard ≤ trigger ∧ m'.createdAt + hours matchWindowHours ≤ guard ∧
        guard < m'.createdAt + 2 * hours matchWindowHours := by
  cases rowEffect h.issued henabled hm' with
  | evolved m hm hpath hother =>
      exact Or.inl ⟨m, hm, hpath.sameIdentity.id.symm, hpath.status_confirmed hstatus⟩
  | messaged q t m n ha hm hpath hid hactive hopen hrow hlog =>
      subst hrow
      exact Or.inl ⟨m, hm, hpath.sameIdentity.id.symm, hpath.status_confirmed hstatus⟩
  | created id first second now clock ha hrow hlog =>
      rw [hrow] at hstatus
      cases hstatus
  | confirmed matchId userId legal cost t sourceId m n ha hm hpath hid hawaiting hopen hrow hlog =>
      subst ha hrow hid
      have ht : t.Ordered := henabled.ordered
      have hstart : w.clock ≤ t.now := (henabled.start (t.now, t.trigger) rfl).1
      obtain ⟨hexpiry, hpassed⟩ := (((h.windowed m hm).mono hstart).path hpath).awaiting hawaiting
      refine Or.inr ⟨t.guard, t.trigger, hlog, ht.guard_le_trigger, ?_, ?_⟩
      · exact hpassed.trans (ht.now_le_notice.trans ht.notice_le_guard)
      · exact hexpiry ▸ hopen

/-- The reading under which the match row was locked decides whether a
message is stored. -/
theorem WindowInvariant.stored (h : WindowInvariant w) (henabled : a.Enabled w)
    {message : MessageRecord} {locked : ℤ} (hstored : .stored message locked ∈ (a.apply w.db).2) :
    locked ≤ message.createdAt ∧ ∃ m ∈ w.db.matchInit, m.id = message.matchId ∧
      (m.status = .active ∧ locked < m.createdAt + hours matchWindowHours ∨
        m.status = .confirmed ∧ locked < m.expiresAt) := by
  cases stepEffect h.issued henabled with
  | quiet _ hshrinks hlog =>
      rw [events_eq [] hlog] at hstored
      cases hstored
  | stored q t n db₁ messages hlock hstatus hinsert hdb hlog =>
      rw [events_eq [_] hlog, List.mem_singleton] at hstored
      obtain ⟨rfl, rfl⟩ := Event.stored.inj hstored
      have ht : t.Ordered := henabled.ordered
      have hstart : w.clock ≤ t.locked := (henabled.start (t.locked, t.notified) rfl).1
      have hshrinks : Shrinks t.locked none w.db db₁ := (LockOutcome.of_eq hlock).shrinks
      obtain ⟨hn, hid, _, _, hopen⟩ := (LockOutcome.of_eq hlock).mem_of_available
      obtain ⟨m, hm, hpath⟩ := hshrinks.evolves n hn
      refine ⟨ht.locked_le_inserted, m, hm, hpath.sameIdentity.id.symm.trans hid, ?_⟩
      rcases hstatus with hactive | hconfirmed
      · have hexpiry := (((h.windowed m hm).mono hstart).path hpath).active hactive
        rw [hexpiry, hpath.sameIdentity.createdAt] at hopen
        exact Or.inl ⟨hpath.noReopening.active hactive, hopen⟩
      · rw [hpath.expiresAt_confirmed hconfirmed] at hopen
        exact Or.inr ⟨hpath.status_confirmed hconfirmed, hopen⟩
  | created id first second now clock hinserts hlog =>
      rw [events_eq [_] hlog, List.mem_singleton] at hstored
      cases hstored
  | reserved id userId legal cost t sourceId m db₁ r db₂ hdeciding hopen hreserves hafter hlog =>
      rw [events_eq [] hlog] at hstored
      cases hstored
  | confirmed id userId legal cost t sourceId m db₁ r db₂ charges db₃ hdeciding hopen hreserves
      hconfirms hdb hlog =>
      rw [events_eq [_] hlog, List.mem_singleton] at hstored
      cases hstored
  | granted userId now hdb hlog =>
      rw [events_eq [] hlog] at hstored
      cases hstored

/-- The match was issued, and its row, while it is stored, has a status in `Q`. -/
def Settled (Q : MatchStatus → Prop) (matchId : Uuid) (w : World) : Prop :=
  matchId ∈ w.createdIds ∧ ∀ m ∈ w.db.matchInit, m.id = matchId → Q m.status

/-- A set of statuses that no transition leaves. -/
structure Absorbing (Q : MatchStatus → Prop) : Prop where
  transition : ∀ {T m m'}, Transition T none m m' → Q m.status → Q m'.status
  awaiting : ¬ Q .awaitingContinuation

theorem Absorbing.path {Q : MatchStatus → Prop} (hQ : Absorbing Q) {T : ℤ} {m m' : MatchRecord}
    (h : Path T none m m') (hm : Q m.status) : Q m'.status := by
  induction h with
  | refl => exact hm
  | tail _ hstep ih => exact hQ.transition hstep ih

theorem Settled.next {Q : MatchStatus → Prop} (hQ : Absorbing Q) {matchId : Uuid}
    (h : Settled Q matchId w) (hissued : w.Issued) (henabled : a.Enabled w) :
    Settled Q matchId (w.next a) := by
  refine ⟨createdIds_mono w a h.1, fun m' hm' hid' ↦ ?_⟩
  cases rowEffect hissued henabled hm' with
  | evolved m hm hpath hother =>
      exact hQ.path hpath (h.2 m hm (hpath.sameIdentity.id.symm.trans hid'))
  | messaged q t m n ha hm hpath hid hstatus hopen hrow hlog =>
      subst hrow
      have hn : Q n.status := hQ.path hpath (h.2 m hm (hpath.sameIdentity.id.symm.trans hid'))
      exact hn
  | created id first second now clock ha hrow hlog =>
      subst hrow hid'
      exact absurd h.1 (henabled.fresh id first second now clock ha)
  | confirmed id userId legal cost t sourceId m n ha hm hpath hid hawaiting hopen hrow hlog =>
      subst hrow
      have hn := hQ.path hpath (h.2 m hm (hpath.sameIdentity.id.symm.trans hid'))
      exact absurd (hawaiting ▸ hn) hQ.awaiting

theorem absorbing_finished : Absorbing fun s ↦ s = .expired ∨ s = .ended := by
  refine ⟨fun h hm ↦ ?_, by simp⟩
  cases h with
  | opened hs hdue => simp [hs] at hm
  | expired purgeAfter hs hdue => exact Or.inl rfl
  | closed now hs hdue => exact Or.inr rfl
  | ended checked stamped hs => exact Or.inr rfl
  | revealed hs => exact hm
  | messaged at_ hsent hs => exact hm

theorem absorbing_ended : Absorbing fun s ↦ s = .ended := by
  refine ⟨fun h hm ↦ ?_, by simp⟩
  cases h with
  | opened hs hdue => simp [hs] at hm
  | expired purgeAfter hs hdue => simp [hs] at hm
  | closed now hs hdue => rfl
  | ended checked stamped hs => rfl
  | revealed hs => exact hm
  | messaged at_ hsent hs => exact hm

end Steps

section Runs

variable {w₀ : World}

theorem Absorbing.run {Q : MatchStatus → Prop} (hQ : Absorbing Q) {pre mid : List Action}
    (h₀ : Initial w₀) (hvalid : service.Valid w₀ (pre ++ mid)) {m m' : MatchRecord}
    (hm : m ∈ (service.exec w₀ pre).db.matchInit)
    (hm' : m' ∈ (service.exec w₀ (pre ++ mid)).db.matchInit) (hid : m'.id = m.id)
    (hstatus : Q m.status) : Q m'.status := by
  obtain ⟨hpre, hmid⟩ := System.valid_append.mp hvalid
  have hissued := (windowInvariant_of_valid h₀ hpre).issued
  have hstart : Settled Q m.id (service.exec w₀ pre) :=
    ⟨hissued m hm, fun n hn hnid ↦ Table.eq_of_key_eq hm hn hnid.symm ▸ hstatus⟩
  have hend := hmid.invariant (I := fun w ↦ Settled Q m.id w ∧ w.Issued) ⟨hstart, hissued⟩
    fun w a h henabled ↦ ⟨h.1.next hQ h.2 henabled, h.2.next henabled⟩
  rw [System.exec_append] at hm'
  exact hend.1.2 m' hm' hid

/-- The deadlines of every reachable row, the steps that confirm a match or
store a message, and the final statuses. A message is judged by the reading
taken when its match row was locked, a confirmation by the reading of its
guard; both precede the instant that is stored. -/
theorem decision_window (w₀ : World) (as : List Action) (h₀ : Initial w₀)
    (hvalid : service.Valid w₀ as) :
    (∀ m ∈ (service.exec w₀ as).db.matchInit,
      (∃ n, Event.created n ∈ (service.exec w₀ as).log ∧ n.id = m.id ∧
        n.createdAt = m.createdAt) ∧
      (m.status = .active → m.expiresAt = m.createdAt + hours 24) ∧
      (m.status = .awaitingContinuation → m.expiresAt = m.createdAt + hours 48) ∧
      (m.status = .confirmed → ∃ renewed,
        lastRenewal m.id (service.exec w₀ as).log = some renewed ∧
          m.expiresAt = renewed + days 30)) ∧
      (∀ pre a post, as = pre ++ a :: post →
        (∀ m' ∈ (service.exec w₀ (pre ++ [a])).db.matchInit, m'.status = .confirmed →
          (∃ m ∈ (service.exec w₀ pre).db.matchInit, m.id = m'.id ∧ m.status = .confirmed) ∨
            ∃ guard trigger, (service.exec w₀ (pre ++ [a])).log =
                .confirmed m'.id guard trigger :: (service.exec w₀ pre).log ∧
              guard ≤ trigger ∧ m'.createdAt + hours 24 ≤ guard ∧
              guard < m'.createdAt + hours 48) ∧
        (∀ message locked, .stored message locked ∈ (a.apply (service.exec w₀ pre).db).2 →
          locked ≤ message.createdAt ∧
            ∃ m ∈ (service.exec w₀ pre).db.matchInit, m.id = message.matchId ∧
              (m.status = .active ∧ locked < m.createdAt + hours 24 ∨
                m.status = .confirmed ∧ locked < m.expiresAt))) ∧
      ∀ pre mid post, as = pre ++ mid ++ post →
        ∀ m ∈ (service.exec w₀ pre).db.matchInit,
          ∀ m' ∈ (service.exec w₀ (pre ++ mid)).db.matchInit, m'.id = m.id →
            (m.status = .expired → m'.status = .expired ∨ m'.status = .ended) ∧
              (m.status = .ended → m'.status = .ended) := by
  refine ⟨fun m hm ↦ ?_, ?_, ?_⟩
  · have hwindowed := (windowInvariant_of_valid h₀ hvalid).windowed m hm
    refine ⟨hwindowed.created, hwindowed.active, fun hs ↦ (hwindowed.awaiting hs).1, fun hs ↦ ?_⟩
    obtain ⟨renewed, hlast, hexpiry, _, _⟩ := hwindowed.confirmed hs
    exact ⟨renewed, hlast, hexpiry⟩
  · rintro pre a post rfl
    have hinv := windowInvariant_of_valid h₀ (hvalid.of_prefix (List.prefix_append pre _))
    rw [System.exec_concat]
    exact ⟨fun m' hm' hs ↦ hinv.confirmed hvalid.enabled hm' hs,
      fun message locked hstored ↦ hinv.stored hvalid.enabled hstored⟩
  · rintro pre mid post rfl m hm m' hm' hid
    have hrun := hvalid.of_prefix (List.prefix_append (pre ++ mid) post)
    exact ⟨fun hs ↦ absorbing_finished.run h₀ hrun hm hm' hid (Or.inl hs),
      fun hs ↦ absorbing_ended.run h₀ hrun hm hm' hid hs⟩

end Runs

theorem decision_window_bothContinue :
    ∃ m ∈ (service.exec pairWorld bothContinue).db.matchInit, m.id = 7 ∧ m.status = .confirmed ∧
      ∃ renewed, lastRenewal 7 (service.exec pairWorld bothContinue).log = some renewed ∧
        m.expiresAt = renewed + days 30 := by
  have hrow : ∃ m ∈ (service.exec pairWorld bothContinue).db.matchInit.rows,
      m.id = 7 ∧ m.status = .confirmed := by decide +kernel
  obtain ⟨m, hm, hid, hstatus⟩ := hrow
  have hdeadline :=
    ((decision_window pairWorld bothContinue initial_pairWorld valid_bothContinue).1 m hm).2.2.2
      hstatus
  rw [hid] at hdeadline
  exact ⟨m, hm, hid, hstatus, hdeadline⟩

/-- A message whose match row is locked right before the window closes and
whose own row is dated right after. -/
def lateMessage : List Action :=
  [.createFromMutualLike 7 1 2 0 0,
    .createMessage ⟨50, 7, 1, "hello", 60⟩ ⟨hours 24 - 1, hours 24, hours 24⟩]

theorem valid_lateMessage : service.Valid pairWorld lateMessage := by
  refine ⟨⟨le_rfl, fun span hspan ↦ ?_, nofun, fun _ _ _ _ _ _ ↦ List.not_mem_nil⟩,
    ⟨⟨by decide, le_rfl⟩, fun span hspan ↦ ?_, nofun, nofun⟩, trivial⟩
  · obtain rfl := Option.some.inj hspan
    exact ⟨le_rfl, le_rfl⟩
  · obtain rfl := Option.some.inj hspan
    exact ⟨by decide, by decide⟩

/-- The date of a stored message can reach the end of the first 24 hours of a
match that is not confirmed. -/
theorem message_dated_after_first_window :
    ¬ ∀ (w₀ : World) (as : List Action), Initial w₀ → service.Valid w₀ as →
      ∀ message locked, Event.stored message locked ∈ (service.exec w₀ as).log →
        ∀ m ∈ (service.exec w₀ as).db.matchInit, m.id = message.matchId →
          message.createdAt < m.createdAt + hours 24 ∨ m.status = .confirmed := by
  intro hclaim
  have hrow : ∃ m ∈ (service.exec pairWorld lateMessage).db.matchInit.rows,
      m.id = 7 ∧ m.createdAt = 0 ∧ m.status = .active := by decide +kernel
  have hstored : Event.stored ⟨50, 7, 1, some 60, "hello", hours 24, none⟩ (hours 24 - 1) ∈
      (service.exec pairWorld lateMessage).log := by decide +kernel
  obtain ⟨m, hm, hid, hcreated, hstatus⟩ := hrow
  rcases hclaim pairWorld lateMessage initial_pairWorld valid_lateMessage _ _ hstored m hm hid with
    hlt | hconfirmed
  · rw [hcreated, Int.zero_add] at hlt
    exact lt_irrefl _ hlt
  · rw [hstatus] at hconfirmed
    cases hconfirmed

end Histae.Matches
