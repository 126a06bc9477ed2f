import Mathlib
import Histae.Outbox.Ownership

/-!
# Requested work is dispatched again

A row that is held says who claimed its event last, because every claim and
every request rewrites it; a worker that dispatched an event it still holds
therefore dispatched it after its own, last claim. Hence only the holder
completes an event, and only after such a dispatch.

A request leaves its event pending until the next claim, provided that no
unfinished `purge_resolved` had selected the event's row: the deletion looks
at nothing but the id.
-/

namespace Histae.Outbox

open Relational Systems

variable {s : State} {a : Action} {key : EventKey}

theorem Change.id_source {o : Option OutboxRow} {r' : OutboxRow} {touch : Option Entry}
    (h : Change s a key o (some r') touch) :
    (∃ r, o = some r ∧ r'.id = r.id) ∨ s.Fresh r'.id ∧ a.inserts = some key := by
  cases h with
  | keep => exact Or.inl ⟨r', rfl, rfl⟩
  | claim hid => exact Or.inl ⟨_, rfl, hid⟩
  | renew hid => exact Or.inl ⟨_, rfl, hid⟩
  | complete _ _ _ _ _ hid => exact Or.inl ⟨_, rfl, hid⟩
  | free hid => exact Or.inl ⟨_, rfl, hid⟩
  | expedite hid => exact Or.inl ⟨_, rfl, hid⟩
  | insert hfresh => exact Or.inr hfresh
  | request _ hid => exact hid

/-- A row that is held after a step was held before, or is being claimed. -/
theorem Change.held_source {o : Option OutboxRow} {r' : OutboxRow} {touch : Option Entry}
    {w : Uuid} (h : Change s a key o (some r') touch) (hheld : r'.heldBy w = true) :
    touch = none ∧ (∃ r, o = some r ∧ r'.id = r.id ∧ r.heldBy w = true) ∨
      touch = some (.claimed w key) ∧ ∀ t ∈ s.tasks, t.worker ≠ w := by
  cases h with
  | keep => exact Or.inl ⟨rfl, r', rfl, rfl, hheld⟩
  | claim _ hiff _ hidle =>
      rw [(hiff w).mp hheld]
      exact Or.inr ⟨rfl, hidle⟩
  | renew hid hsame => exact Or.inl ⟨rfl, _, rfl, hid, by rw [← hsame, hheld]⟩
  | complete _ _ _ _ _ _ hfree => simp [hfree w] at hheld
  | free _ _ hfree => simp [hfree w] at hheld
  | expedite _ hpending => simp [State.not_held_of_pending hpending w] at hheld
  | insert _ hpending => simp [State.not_held_of_pending hpending w] at hheld
  | request hpending => simp [State.not_held_of_pending hpending w] at hheld

/-- Ids are unique, tasks know the event of their row, and the holder of a row
is the last to have claimed its event. -/
structure Owned (s : State) : Prop where
  unique : ∀ {k k' r r'}, s.rows.find? k = some r → s.rows.find? k' = some r' →
    r.id = r'.id → k = k'
  tasks : ∀ t ∈ s.tasks, ∀ k r, s.rows.find? k = some r → r.id = t.event → k = t.key
  holders : ∀ k r w, s.rows.find? k = some r → r.heldBy w = true →
    lastTouch k s.log = some (.claimed w k)
  dispatches : ∀ t ∈ s.tasks, t.stage = .dispatched → ∀ k r, s.rows.find? k = some r →
    r.id = t.event → r.heldBy t.worker = true → DispatchedSinceClaim t.worker k s.log

theorem owned_empty : Owned .empty where
  unique h := by simp [State.empty] at h
  tasks _ ht := by simp [State.empty] at ht
  holders _ _ _ h := by simp [State.empty] at h
  dispatches _ ht := by simp [State.empty] at ht

namespace Owned

variable (hs : Owned s) (ha : s.Enabled a)

include ha

theorem find?_source {k : EventKey} {r' : OutboxRow} (h : (s.next a).rows.find? k = some r') :
    (∃ r, s.rows.find? k = some r ∧ r'.id = r.id) ∨ s.Fresh r'.id ∧ a.inserts = some k := by
  have hchange := State.change_of_enabled ha k
  rw [h] at hchange
  exact hchange.id_source

include hs

theorem unique_next {k k' : EventKey} {r r' : OutboxRow}
    (hr : (s.next a).rows.find? k = some r) (hr' : (s.next a).rows.find? k' = some r')
    (hid : r.id = r'.id) : k = k' := by
  rcases find?_source ha hr with ⟨q, hq, hqid⟩ | ⟨hfresh, hk⟩
  · rcases find?_source ha hr' with ⟨q', hq', hqid'⟩ | ⟨hfresh, _⟩
    · exact hs.unique hq hq' (by rw [← hqid, ← hqid', hid])
    · exact absurd (hqid.symm.trans hid) (hfresh.1 q (Table.find?_eq_some_iff.mp hq).1)
  · rcases find?_source ha hr' with ⟨q', hq', hqid'⟩ | ⟨_, hk'⟩
    · exact absurd (hqid'.symm.trans hid.symm) (hfresh.1 q' (Table.find?_eq_some_iff.mp hq').1)
    · exact Option.some.inj (hk.symm.trans hk')

theorem tasks_next {t : Task} (ht : t ∈ (s.next a).tasks) {k : EventKey} {r : OutboxRow}
    (hr : (s.next a).rows.find? k = some r) (hid : r.id = t.event) : k = t.key := by
  rcases find?_source ha hr with ⟨q, hq, hqid⟩ | ⟨hfresh, _⟩
  · rcases State.mem_tasks_next ha ht with ⟨t₀, ht₀, _, hevent, hkey, _⟩ | ⟨_, r₀, hr₀, hid₀, hkey⟩
    · rw [← hkey]
      exact hs.tasks t₀ ht₀ k q hq (by rw [← hqid, hid, hevent])
    · rw [← hkey]
      exact hs.unique hq (Table.find?_key hr₀) (by rw [← hqid, hid, hid₀])
  · rcases State.mem_tasks_next ha ht with ⟨t₀, ht₀, _, hevent, _⟩ | ⟨_, r₀, hr₀, hid₀, _⟩
    · exact absurd (hevent.trans hid.symm) (hfresh.2.1 t₀ ht₀)
    · exact absurd (hid₀.trans hid.symm) (hfresh.1 r₀ hr₀)

theorem holders_next {k : EventKey} {r : OutboxRow} {w : Uuid}
    (hr : (s.next a).rows.find? k = some r) (hheld : r.heldBy w = true) :
    lastTouch k (s.next a).log = some (.claimed w k) := by
  have hchange := State.change_of_enabled ha k
  rw [hr] at hchange
  rw [State.log_next, lastTouch_append]
  rcases hchange.held_source hheld with ⟨htouch, q, hq, _, hqheld⟩ | ⟨htouch, _⟩
  · rw [htouch, Option.none_or]
    exact hs.holders k q w hq hqheld
  · rw [htouch, Option.some_or]

theorem dispatches_next {t : Task} (ht : t ∈ (s.next a).tasks) (hstage : t.stage = .dispatched)
    {k : EventKey} {r : OutboxRow} (hr : (s.next a).rows.find? k = some r)
    (hid : r.id = t.event) (hheld : r.heldBy t.worker = true) :
    DispatchedSinceClaim t.worker k (s.next a).log := by
  rcases State.mem_tasks_next ha ht with ⟨t₀, ht₀, hworker, hevent, hkey, hsource⟩ | ⟨hclaimed, _⟩
  · have hchange := State.change_of_enabled ha k
    rw [hr] at hchange
    rcases hchange.held_source hheld with ⟨htouch, q, hq, hqid, hqheld⟩ | ⟨_, hidle⟩
    · rcases hsource hstage with rfl | rfl
      · rw [State.log_next]
        exact (hs.dispatches t₀ ht₀ hstage k q hq (by rw [← hqid, hid]) hqheld).append htouch
      · have hk : k = t₀.key := hs.tasks t₀ ht₀ k q hq (by rw [← hqid, hid, hevent])
        have hlast := hs.holders k q t.worker hq hqheld
        rw [State.log_next, State.news, hworker, ← hk]
        exact .of_lastTouch hlast
    · exact absurd hworker (hidle t₀ ht₀)
  · rw [hstage] at hclaimed
    exact absurd hclaimed (by simp)

theorem next : Owned (s.next a) where
  unique := hs.unique_next ha
  tasks _ ht _ _ := hs.tasks_next ha ht
  holders _ _ _ := hs.holders_next ha
  dispatches _ ht hstage _ _ := hs.dispatches_next ha ht hstage

end Owned

/-- No unfinished purge has selected the row of an event whose work the entry
requests. -/
def Entry.Spared (s : State) : Entry → Prop
  | .requested key => ∀ r ∈ s.rows.find? key, ∀ p ∈ s.purges, r.id ∉ p
  | _ => True

instance (s : State) : ∀ e : Entry, Decidable (e.Spared s)
  | .requested key =>
      inferInstanceAs (Decidable (∀ r ∈ s.rows.find? key, ∀ p ∈ s.purges, r.id ∉ p))
  | .claimed .. | .dispatched .. | .withdrawn _ => .isTrue trivial

/-- A step that requests an event's work does so while no unfinished purge has
selected the event's row. -/
def Spared (s : State) (a : Action) : Prop := ∀ e ∈ s.news a, e.Spared s

instance (s : State) (a : Action) : Decidable (Spared s a) :=
  inferInstanceAs (Decidable (∀ e ∈ s.news a, e.Spared s))

/-- Requested events wait for a claim, and no purge is about to delete them. -/
structure Waiting (s : State) : Prop where
  requests : ∀ k, lastTouch k s.log = some (.requested k) →
    ∃ r, s.rows.find? k = some r ∧ r.isPending = true
  purges : ∀ p ∈ s.purges, ∀ k r, s.rows.find? k = some r → r.id ∈ p →
    lastTouch k s.log ≠ some (.requested k)

theorem waiting_empty : Waiting .empty where
  requests k h := by simp [State.empty, lastTouch] at h
  purges p hp := by simp [State.empty] at hp

namespace Waiting

variable (hs : Waiting s) (ha : s.Enabled a)

include hs ha

theorem requests_next {k : EventKey}
    (hlast : lastTouch k (s.next a).log = some (.requested k)) :
    ∃ r, (s.next a).rows.find? k = some r ∧ r.isPending = true := by
  have hchange := State.change_of_enabled ha k
  rw [State.log_next, lastTouch_append] at hlast
  have hbefore : lastTouch k (s.news a) = none →
      ∃ r, s.rows.find? k = some r ∧ r.isPending = true := by
    intro hnone
    rw [hnone, Option.none_or] at hlast
    exact hs.requests k hlast
  generalize ho : s.rows.find? k = o at hchange hbefore
  generalize ho' : (s.next a).rows.find? k = o' at hchange
  generalize htouch : lastTouch k (s.news a) = touch at hchange hbefore hlast
  cases hchange with
  | keep => exact hbefore rfl
  | claim => simp at hlast
  | renew _ _ hnot =>
      obtain ⟨r, hr, hpending⟩ := hbefore rfl
      rw [← Option.some.inj hr, hnot] at hpending
      exact absurd hpending (by simp)
  | complete _ _ _ _ hheld =>
      obtain ⟨r, hr, hpending⟩ := hbefore rfl
      rw [← Option.some.inj hr, State.not_pending_of_held hheld] at hpending
      exact absurd hpending (by simp)
  | free _ hnot =>
      obtain ⟨r, hr, hpending⟩ := hbefore rfl
      rw [← Option.some.inj hr, hnot] at hpending
      exact absurd hpending (by simp)
  | expedite _ hpending => exact ⟨_, rfl, hpending⟩
  | insert _ hpending => exact ⟨_, rfl, hpending⟩
  | request hpending => exact ⟨_, rfl, hpending⟩
  | withdraw => simp at hlast
  | purge _ hmem hid =>
      rw [Option.none_or] at hlast
      exact absurd hlast (hs.purges _ hmem k _ ho hid)

theorem purges_next (hunique : Owned s) (hspared : Spared s a) {p : List Uuid}
    (hp : p ∈ (s.next a).purges) {k : EventKey} {r' : OutboxRow}
    (hr' : (s.next a).rows.find? k = some r') (hid : r'.id ∈ p) :
    lastTouch k (s.next a).log ≠ some (.requested k) := by
  intro hlast
  rcases State.mem_purges_next hp with hp | ⟨before, limit, rfl, rfl⟩
  · rw [State.log_next, lastTouch_append] at hlast
    rcases Owned.find?_source ha hr' with ⟨r, hr, hsame⟩ | ⟨hfresh, _⟩
    · rw [hsame] at hid
      cases hnews : lastTouch k (s.news a) with
      | none =>
          rw [hnews, Option.none_or] at hlast
          exact hs.purges p hp k r hr hid hlast
      | some e =>
          rw [hnews, Option.some_or] at hlast
          rw [Option.some.inj hlast] at hnews
          exact hspared _ (List.mem_of_find?_eq_some hnews) r hr p hp hid
    · exact hfresh.2.2 p hp hid
  · obtain ⟨r, hpending⟩ := hs.requests k hlast
    obtain ⟨q, hq, hqid, hresolved⟩ := mem_purgeable hid
    have hkey := hunique.unique (Table.find?_key hq) hr' hqid
    have heq : q = r := by
      have hfind := Table.find?_key hq
      rw [hkey, hpending.1] at hfind
      exact (Option.some.inj hfind).symm
    have hstatus := hpending.2
    rw [← heq] at hstatus
    cases hq' : q.status <;>
      simp_all [OutboxRow.isPending, OutboxRow.isCompleted, OutboxRow.isDiscarded]

theorem next (hunique : Owned s) (hspared : Spared s a) : Waiting (s.next a) where
  requests _ := hs.requests_next ha
  purges _ hp _ _ := hs.purges_next ha hunique hspared hp

end Waiting

/-- The row of `key` is `completed`. -/
def CompletedIn (s : State) (key : EventKey) : Prop :=
  ∃ r, s.rows.find? key = some r ∧ r.isCompleted = true

/-- The step is a completion by the worker that holds the event, after a
dispatch of the event by this worker since its claim. -/
def CompletedByHolder (s : State) (a : Action) (key : EventKey) : Prop :=
  ∃ task processedAt report r, a = .complete task processedAt report ∧ task ∈ s.tasks ∧
    s.rows.find? key = some r ∧ r.id = task.event ∧ r.heldBy task.worker = true ∧
    DispatchedSinceClaim task.worker key s.log

theorem completedByHolder_of_completes (hs : Owned s) (ha : s.Enabled a)
    (hbefore : ¬ CompletedIn s key) (hafter : CompletedIn (s.next a) key) :
    CompletedByHolder s a key := by
  obtain ⟨r', hr', hcompleted⟩ := hafter
  have hchange := State.change_of_enabled ha key
  generalize ho : s.rows.find? key = o at hchange
  generalize htouch : lastTouch key (s.news a) = touch at hchange
  rw [hr'] at hchange
  cases hchange with
  | keep => exact absurd ⟨r', ho, hcompleted⟩ hbefore
  | claim _ _ hopen => simp [hopen] at hcompleted
  | renew _ _ _ hopen => simp [hopen] at hcompleted
  | @complete r _ task t report ha hmem hstage hevent hheld =>
      refine ⟨task, t, report, r, ha, hmem, ho, hevent, hheld, ?_⟩
      exact hs.dispatches task hmem hstage key r ho hevent hheld
  | free _ _ _ hopen => simp [hopen] at hcompleted
  | expedite _ hpending => simp [State.not_completed_of_pending hpending] at hcompleted
  | insert _ hpending => simp [State.not_completed_of_pending hpending] at hcompleted
  | request hpending => simp [State.not_completed_of_pending hpending] at hcompleted

/-- Along a run: whatever completes an event is its holder's completion after
its own dispatch, and an event whose work was requested after its last claim
is pending. -/
def NoWorkLost (as : List Action) : Prop :=
  (∀ pre a post, as = pre ++ a :: post → ∀ key,
    ¬ CompletedIn (system.exec .empty pre) key →
    CompletedIn (system.exec .empty (pre ++ [a])) key →
    CompletedByHolder (system.exec .empty pre) a key) ∧
  ∀ pre, pre <+: as → ∀ key,
    lastTouch key (system.exec .empty pre).log = some (.requested key) →
    ∃ r, (system.exec .empty pre).rows.find? key = some r ∧ r.status = .pending

/-- In a run in which every requeue and every operator retry commits while no
unfinished purge has selected the event's row, no requested work is lost. -/
theorem requested_work_is_not_lost {as : List Action} (h : system.Valid .empty as)
    (hspared : system.Along Spared .empty as) : NoWorkLost as := by
  have howned : ∀ pre, pre <+: as → Owned (system.exec .empty pre) := by
    intro pre hpre
    exact (h.of_prefix hpre).invariant owned_empty fun s a hs ha ↦ hs.next ha
  refine ⟨?_, ?_⟩
  · rintro pre a post rfl key hbefore hafter
    rw [System.exec_concat] at hafter
    exact completedByHolder_of_completes (howned pre (List.prefix_append _ _)) h.enabled
      hbefore hafter
  · intro pre hpre key hlast
    have hinv : Owned (system.exec .empty pre) ∧ Waiting (system.exec .empty pre) := by
      obtain ⟨rest, rfl⟩ := hpre
      have hpast := (System.along_append.mp hspared).1
      refine (h.of_prefix (List.prefix_append _ _)).invariant_along hpast
        (I := fun s ↦ Owned s ∧ Waiting s) ⟨owned_empty, waiting_empty⟩ ?_
      rintro s a ⟨hs, hw⟩ ha hc
      exact ⟨hs.next ha, hw.next ha hs hc⟩
    obtain ⟨r, hr, hpending⟩ := hinv.2.requests key hlast
    exact ⟨r, hr, by simpa [OutboxRow.isPending] using hpending⟩

section Runs

def photoKey : EventKey := (.photoDelete, 7)

def photoTask (stage : Stage) : Task := ⟨1, 100, photoKey, stage⟩

/-- A photo is deleted, and the row of its event outlives the retention. -/
def processedPhoto : List Action :=
  [.enqueue 100 photoKey 0,
    .claim 1 ⟨0, -minutes 5⟩ 50 [] .answered,
    .renew (photoTask .claimed) 1 .answered,
    .dispatch (photoTask .renewed) .completed,
    .complete (photoTask .dispatched) 2 .answered]

/-- The purge has read its snapshot when a moderator requeues the deletion. -/
def requeueDuringPurge : List Action :=
  processedPhoto ++ [.purgeSelect 2 500, .requeue 101 photoKey (days 7), .purgeDelete [100]]

def requeueAfterPurge : List Action :=
  processedPhoto ++ [.purgeSelect 2 500, .purgeDelete [100], .requeue 101 photoKey (days 7)]

theorem requested_work_is_not_lost_requeueAfterPurge :
    system.Valid .empty requeueAfterPurge ∧ NoWorkLost requeueAfterPurge ∧
      (system.exec .empty requeueAfterPurge).rows.rows.map OutboxRow.status = [.pending] :=
  ⟨by decide +kernel, requested_work_is_not_lost (by decide +kernel) (by decide +kernel),
    by decide +kernel⟩

theorem requeue_during_purge_is_lost :
    system.Valid .empty requeueDuringPurge ∧ ¬ NoWorkLost requeueDuringPurge ∧
      (system.exec .empty requeueDuringPurge).rows.rows = [] := by
  refine ⟨by decide +kernel, ?_, by decide +kernel⟩
  intro h
  obtain ⟨r, hr, _⟩ := h.2 requeueDuringPurge List.prefix_rfl photoKey (by decide +kernel)
  have hnone : (system.exec .empty requeueDuringPurge).rows.find? photoKey = none := by
    decide +kernel
  rw [hnone] at hr
  exact absurd hr (by simp)

end Runs

end Histae.Outbox
