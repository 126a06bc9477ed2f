import Mathlib
import Histae.Outbox.Workers

/-!
# What one step does to one event

A step adds entries to the log and changes the row of each event in one of a
few ways. `Change` lists these ways once, with what the step's guards say
about the row before and after; the invariants of the outbox are read off
it. Tasks follow the events they were claimed for.
-/

namespace Histae.Outbox

open Relational Systems

def Entry.touches (key : EventKey) : Entry → Bool
  | .claimed _ k => k = key
  | .dispatched .. => false
  | .requested k => k = key
  | .withdrawn k => k = key

/-- The last claim, request or withdrawal of an event. -/
def lastTouch (key : EventKey) (log : List Entry) : Option Entry := log.find? (Entry.touches key)

/-- A dispatch by `worker` returned `Completed` after that worker's claim, and
the event was neither claimed nor requested since the claim. -/
def DispatchedSinceClaim (worker : Uuid) (key : EventKey) (log : List Entry) : Prop :=
  ∃ later earlier, log = later ++ .claimed worker key :: earlier ∧
    .dispatched worker key .completed ∈ later ∧ ∀ e ∈ later, e.touches key = false

theorem lastTouch_append {key : EventKey} {news log : List Entry} :
    lastTouch key (news ++ log) = (lastTouch key news).or (lastTouch key log) :=
  List.find?_append

theorem DispatchedSinceClaim.append {worker : Uuid} {key : EventKey} {news log : List Entry}
    (h : DispatchedSinceClaim worker key log) (hnews : lastTouch key news = none) :
    DispatchedSinceClaim worker key (news ++ log) := by
  obtain ⟨later, earlier, rfl, hmem, hlater⟩ := h
  refine ⟨news ++ later, earlier, by simp, List.mem_append_right _ hmem, ?_⟩
  intro e he
  rcases List.mem_append.mp he with he | he
  · simpa using List.find?_eq_none.mp hnews e he
  · exact hlater e he

theorem DispatchedSinceClaim.of_lastTouch {worker : Uuid} {key : EventKey} {log : List Entry}
    (h : lastTouch key log = some (.claimed worker key)) :
    DispatchedSinceClaim worker key (.dispatched worker key .completed :: log) := by
  obtain ⟨_, later, earlier, rfl, hlater⟩ := List.find?_eq_some_iff_append.mp h
  refine ⟨.dispatched worker key .completed :: later, earlier, rfl, List.mem_cons_self, ?_⟩
  intro e he
  rcases List.mem_cons.mp he with rfl | he
  · rfl
  · simpa using hlater e he

namespace State

variable {s : State}

/-- The entries a step adds to the log. -/
def news (s : State) : Action → List Entry
  | .claim worker window limit locked report =>
      if report = .failed then []
      else match claimBatch s.rows worker window limit locked with
        | none => []
        | some (_, selected) => selected.map fun r ↦ .claimed worker r.key
  | .dispatch task result => [.dispatched task.worker task.key result]
  | .requeue _ key _ => [.requested key]
  | .withdraw key restingOnly =>
      (s.rows.select (withdrawn key restingOnly)).map fun r ↦ .withdrawn r.key
  | .retry event _ => (s.rows.select (retried event)).map fun r ↦ .requested r.key
  | _ => []

theorem log_next (a : Action) : (s.next a).log = s.news a ++ s.log := by
  cases a with
  | claim worker window limit locked report =>
      cases report <;> simp only [next, State.claim, news] <;>
        cases claimBatch s.rows worker window limit locked <;> simp
  | discard event operator reason photoExists now =>
      simp only [next, State.discard, news]
      split <;> rfl
  | _ => rfl

end State

/-- The row of `key` before and after a step, and the touch the step logs. -/
inductive Change (s : State) (a : Action) (key : EventKey) :
    Option OutboxRow → Option OutboxRow → Option Entry → Prop
  | keep (o : Option OutboxRow) : Change s a key o o none
  | claim {r r' : OutboxRow} {w : Uuid} (hid : r'.id = r.id)
      (hheld : ∀ v, r'.heldBy v = true ↔ v = w) (hopen : r'.isCompleted = false)
      (hidle : ∀ t ∈ s.tasks, t.worker ≠ w) :
      Change s a key (some r) (some r') (some (.claimed w key))
  | renew {r r' : OutboxRow} (hid : r'.id = r.id) (hheld : ∀ v, r'.heldBy v = r.heldBy v)
      (hbefore : r.isPending = false) (hopen : r'.isCompleted = false) : Change s a key (some r) (some r') none
  | complete {r r' : OutboxRow} {task : Task} {t : ℤ} {report : Report}
      (ha : a = .complete task t report) (hmem : task ∈ s.tasks)
      (hstage : task.stage = .dispatched) (hevent : r.id = task.event)
      (hheld : r.heldBy task.worker = true) (hid : r'.id = r.id)
      (hfree : ∀ v, r'.heldBy v = false) : Change s a key (some r) (some r') none
  | free {r r' : OutboxRow} (hid : r'.id = r.id) (hbefore : r.isPending = false)
      (hfree : ∀ v, r'.heldBy v = false) (hopen : r'.isCompleted = false) :
      Change s a key (some r) (some r') none
  | expedite {r r' : OutboxRow} (hid : r'.id = r.id) (hpending : r'.isPending = true) :
      Change s a key (some r) (some r') none
  | insert {r' : OutboxRow} (hfresh : s.Fresh r'.id ∧ a.inserts = some key)
      (hpending : r'.isPending = true) : Change s a key none (some r') none
  | request {o : Option OutboxRow} {r' : OutboxRow} (hpending : r'.isPending = true)
      (hid : (∃ r, o = some r ∧ r'.id = r.id) ∨ s.Fresh r'.id ∧ a.inserts = some key) :
      Change s a key o (some r') (some (.requested key))
  | withdraw {r : OutboxRow} : Change s a key (some r) none (some (.withdrawn key))
  | purge {r : OutboxRow} {selected : List Uuid} (ha : a = .purgeDelete selected)
      (hmem : selected ∈ s.purges) (hid : r.id ∈ selected) : Change s a key (some r) none none

theorem lastTouch_map_of_mem {key : EventKey} {l : List OutboxRow} {g : EventKey → Entry}
    (hg : ∀ k, (g k).touches key = decide (k = key)) {r : OutboxRow} (hr : r ∈ l)
    (hkey : r.key = key) : lastTouch key (l.map fun r ↦ g r.key) = some (g key) := by
  cases h : lastTouch key (l.map fun r ↦ g r.key) with
  | none =>
      have hnone := List.find?_eq_none.mp h (g r.key) (List.mem_map_of_mem hr)
      simp [hg, hkey] at hnone
  | some e =>
      obtain ⟨q, _, rfl⟩ := List.mem_map.mp (List.mem_of_find?_eq_some h)
      have htouches := List.find?_some h
      rw [hg, decide_eq_true_eq] at htouches
      rw [htouches]

theorem lastTouch_map_eq_none {key : EventKey} {l : List OutboxRow} {g : EventKey → Entry}
    (hg : ∀ k, (g k).touches key = decide (k = key)) (h : ∀ r ∈ l, r.key ≠ key) :
    lastTouch key (l.map fun r ↦ g r.key) = none := by
  apply List.find?_eq_none.mpr
  intro e he
  obtain ⟨q, hq, rfl⟩ := List.mem_map.mp he
  simp [hg, h q hq]

section Select

variable {key : EventKey} {rows : OutboxTable} {p : OutboxRow → Bool} {g : EventKey → Entry}

theorem lastTouch_select_of_find?_none (hg : ∀ k, (g k).touches key = decide (k = key))
    (hfind : rows.find? key = none) :
    lastTouch key ((rows.select p).map fun r ↦ g r.key) = none := by
  refine lastTouch_map_eq_none hg fun r hr ↦ ?_
  exact Table.find?_eq_none_iff.mp hfind r (Table.mem_select.mp hr).1

theorem lastTouch_select_of_find?_some (hg : ∀ k, (g k).touches key = decide (k = key))
    {r : OutboxRow} (hfind : rows.find? key = some r) :
    lastTouch key ((rows.select p).map fun r ↦ g r.key) = if p r then some (g key) else none := by
  obtain ⟨hr, hkey⟩ := Table.find?_eq_some_iff.mp hfind
  by_cases hp : p r = true
  · rw [if_pos hp]
    exact lastTouch_map_of_mem hg (Table.mem_select.mpr ⟨hr, hp⟩) hkey
  · rw [if_neg hp]
    refine lastTouch_map_eq_none hg fun q hq hqkey ↦ ?_
    obtain ⟨hqrow, hqp⟩ := Table.mem_select.mp hq
    have heq := Table.eq_of_key_eq hqrow hr (hqkey.trans hkey.symm)
    exact hp (heq ▸ hqp)

end Select

namespace State

variable {s : State} {a : Action} {key : EventKey}

theorem change_of_modify {p : OutboxRow → Bool} {f : OutboxRow → OutboxRow}
    {hf : ∀ r, (f r).key = r.key} (hrows : (s.next a).rows = s.rows.modify p f hf)
    (hnews : s.news a = [])
    (h : ∀ r, p r = true → Change s a key (some r) (some (f r)) none) :
    Change s a key (s.rows.find? key) ((s.next a).rows.find? key) (lastTouch key (s.news a)) := by
  rw [hrows, hnews, Table.find?_modify]
  cases s.rows.find? key with
  | none => exact .keep none
  | some r =>
      by_cases hp : p r = true
      · simpa [hp, lastTouch] using h r hp
      · simpa [hp, lastTouch] using Change.keep (some r)

theorem change_of_write {task : Task} {report : Report} {f : OutboxRow → OutboxRow}
    {hf : ∀ r, (f r).key = r.key} (hrows : (s.next a).rows = s.write task report f hf)
    (hnews : s.news a = [])
    (h : ∀ r, r.id = task.event → r.heldBy task.worker = true →
      Change s a key (some r) (some (f r)) none) :
    Change s a key (s.rows.find? key) ((s.next a).rows.find? key) (lastTouch key (s.news a)) := by
  cases hcommits : report.commits with
  | false =>
      rw [hrows, hnews, write, hcommits]
      exact .keep _
  | true =>
      have hmodify : (s.next a).rows = s.rows.modify (held task.event task.worker) f hf := by
        rw [hrows, write, if_pos hcommits]
      refine change_of_modify hmodify hnews fun r hp ↦ ?_
      obtain ⟨hid, hheld⟩ := Bool.and_eq_true_iff.mp hp
      exact h r (of_decide_eq_true hid) hheld

theorem not_pending_of_held {r : OutboxRow} {w : Uuid} (h : r.heldBy w = true) :
    r.isPending = false := by
  cases hstatus : r.status <;> simp_all [OutboxRow.heldBy, OutboxRow.isPending]

theorem not_held_of_pending {r : OutboxRow} (h : r.isPending = true) (w : Uuid) :
    r.heldBy w = false := by
  cases hstatus : r.status <;> simp_all [OutboxRow.heldBy, OutboxRow.isPending]

theorem not_completed_of_pending {r : OutboxRow} (h : r.isPending = true) :
    r.isCompleted = false := by
  cases hstatus : r.status <;> simp_all [OutboxRow.isCompleted, OutboxRow.isPending]

theorem change_claim {worker : Uuid} {window : ClaimWindow} {limit : ℕ} {locked : List Uuid}
    {report : Report} (h : s.Enabled (.claim worker window limit locked report)) :
    Change s (.claim worker window limit locked report) key (s.rows.find? key)
      ((s.claim worker window limit locked report).rows.find? key)
      (lastTouch key (s.news (.claim worker window limit locked report))) := by
  by_cases hreport : report = .failed
  · subst hreport
    exact .keep _
  · cases hclaim : claimBatch s.rows worker window limit locked with
    | none =>
        have hrows : (s.claim worker window limit locked report).rows = s.rows := by
          cases report <;> simp [State.claim, hclaim]
        rw [hrows, news, if_neg hreport, hclaim]
        exact .keep _
    | some result =>
        obtain ⟨rows, selected⟩ := result
        have hresult : (s.claim worker window limit locked report).rows = rows := by
          cases report with
          | failed => exact absurd rfl hreport
          | answered => simp [State.claim, hclaim]
          | unanswered => simp [State.claim, hclaim]
        rw [hresult, news, if_neg hreport, hclaim]
        obtain ⟨hselected, hall, rfl⟩ := claimBatch_eq_some hclaim
        have hstored : ∀ r ∈ selected, r ∈ s.rows := by
          intro r hr
          rw [hselected] at hr
          exact (mem_candidates hr).1
        have htouch : ∀ k, (Entry.claimed worker k).touches key = decide (k = key) :=
          fun _ ↦ rfl
        rw [Table.find?_modify]
        cases hfind : s.rows.find? key with
        | none =>
            rw [lastTouch_map_eq_none htouch]
            · exact .keep none
            · intro r hr
              exact Table.find?_eq_none_iff.mp hfind r (hstored r hr)
        | some r =>
            obtain ⟨hr, hkey⟩ := Table.find?_eq_some_iff.mp hfind
            by_cases hsel : r ∈ selected
            · have hle := hall r hsel
              rw [lastTouch_map_of_mem htouch hsel hkey]
              simp only [hsel, decide_true, if_true, Option.map_some]
              refine .claim ?_ ?_ ?_ h
              · simp [OutboxRow.claim, hle]
              · intro v
                simp [OutboxRow.claim, hle, OutboxRow.heldBy, eq_comm]
              · simp [OutboxRow.claim, hle, OutboxRow.isCompleted]
            · rw [lastTouch_map_eq_none htouch]
              · simpa [hsel] using Change.keep (some r)
              · intro q hq hqkey
                have heq := Table.eq_of_key_eq (hstored q hq) hr (hqkey.trans hkey.symm)
                exact hsel (heq ▸ hq)

theorem find?_insert (row : OutboxRow) (p : OutboxRow → Bool) (availableAt : ℤ) :
    (s.insert row p availableAt).find? key =
      if key = row.key then
        some (((s.rows.find? key).map fun r ↦ if p r then r.reset availableAt else r).getD row)
      else s.rows.find? key :=
  Table.find?_upsert _

@[simp] theorem isPending_reset (r : OutboxRow) (t : ℤ) : (r.reset t).isPending = true := by
  simp [OutboxRow.isPending, OutboxRow.reset]

@[simp] theorem isPending_new (id : Uuid) (k : EventKey) (now t : ℤ) :
    (OutboxRow.new id k now t).isPending = true := by
  simp [OutboxRow.isPending, OutboxRow.new]

theorem change_insert {row : OutboxRow} {p : OutboxRow → Bool} {t : ℤ}
    (hrows : (s.next a).rows = s.insert row p t) (hnews : s.news a = [])
    (hp : ∀ r, p r = true → r.isPending = false ∧ ∀ v, r.heldBy v = false)
    (hfresh : s.Fresh row.id) (hinserts : a.inserts = some row.key)
    (hpending : row.isPending = true) :
    Change s a key (s.rows.find? key) ((s.next a).rows.find? key) (lastTouch key (s.news a)) := by
  rw [hrows, hnews, find?_insert]
  by_cases hkey : key = row.key
  · rw [if_pos hkey]
    cases s.rows.find? key with
    | none => exact .insert ⟨hfresh, by rw [hinserts, hkey]⟩ hpending
    | some r =>
        by_cases hpr : p r = true
        · obtain ⟨hbefore, _⟩ := hp r hpr
          simp only [Option.map_some, hpr, if_true, Option.getD_some]
          exact .free rfl hbefore (not_held_of_pending (isPending_reset r t))
            (not_completed_of_pending (isPending_reset r t))
        · simpa [hpr, lastTouch] using Change.keep (some r)
  · rw [if_neg hkey]
    exact .keep _

/-- Every step changes the row of an event in one of the listed ways. -/
theorem change_of_enabled (h : s.Enabled a) (key : EventKey) :
    Change s a key (s.rows.find? key) ((s.next a).rows.find? key) (lastTouch key (s.news a)) := by
  cases a with
  | claim worker window limit locked report => exact change_claim h
  | renew task now report =>
      refine change_of_write rfl rfl fun r hid hheld ↦
        .renew rfl ?_ (not_pending_of_held hheld) rfl
      intro v
      cases hstatus : r.status <;> simp_all [OutboxRow.heldBy, OutboxRow.renew]
  | dispatch task result => exact .keep _
  | complete task processedAt report =>
      refine change_of_write rfl rfl fun r hid hheld ↦ ?_
      exact .complete rfl h.1 h.2 hid hheld rfl fun _ ↦ rfl
  | reschedule task now availableAt errorCode report =>
      refine change_of_write rfl rfl fun r hid hheld ↦ ?_
      refine .free rfl (not_pending_of_held hheld) ?_ ?_
      · intro v
        simp only [OutboxRow.heldBy, OutboxRow.reschedule]
        split_ifs <;> rfl
      · simp only [OutboxRow.isCompleted, OutboxRow.reschedule]
        split_ifs <;> rfl
  | defer task now =>
      have hrows : (s.next (.defer task now)).rows = s.write task .answered (OutboxRow.defer now)
          fun r ↦ r.key_defer now := rfl
      refine change_of_write hrows rfl fun r hid hheld ↦ ?_
      exact .free rfl (not_pending_of_held hheld) (fun _ ↦ rfl) rfl
  | releaseForNextBatch task now delay =>
      have hrows : (s.next (.releaseForNextBatch task now delay)).rows =
          s.write task .answered (OutboxRow.releaseForNextBatch now delay)
            fun r ↦ r.key_releaseForNextBatch now delay := rfl
      refine change_of_write hrows rfl fun r hid hheld ↦ ?_
      exact .free rfl (not_pending_of_held hheld) (fun _ ↦ rfl) rfl
  | crash worker => exact .keep _
  | enqueue id key' now =>
      exact change_insert rfl rfl (fun r hr ↦ absurd hr (by simp)) h rfl
        (isPending_new id key' now now)
  | requeue id key' now =>
      change Change s _ key (s.rows.find? key)
        ((s.insert (.new id key' now now) (fun _ ↦ true) now).find? key)
        (lastTouch key [.requested key'])
      rw [find?_insert, OutboxRow.key_new]
      by_cases hkey : key = key'
      · subst hkey
        rw [if_pos rfl]
        have htouch : lastTouch key [.requested key] = some (.requested key) := by
          simp [lastTouch, Entry.touches]
        rw [htouch]
        cases s.rows.find? key with
        | none => exact .request (isPending_new id key now now) (Or.inr ⟨h, rfl⟩)
        | some r => exact .request (isPending_reset r now) (Or.inl ⟨r, rfl, rfl⟩)
      · rw [if_neg hkey]
        have htouch : lastTouch key [.requested key'] = none := by
          simp [lastTouch, Entry.touches, Ne.symm hkey]
        rw [htouch]
        exact .keep _
  | revive id key' now availableAt discardedToo =>
      refine change_insert rfl rfl (fun r hr ↦ ?_) h rfl
        (isPending_new id key' now availableAt)
      cases hstatus : r.status <;>
        simp_all [OutboxRow.isCompleted, OutboxRow.isDiscarded, OutboxRow.isPending,
          OutboxRow.heldBy]
  | expedite key' now =>
      have hrows : (s.next (.expedite key' now)).rows =
          s.rows.modify (fun r ↦ r.key = key' && r.isPending) (OutboxRow.expedite now)
            fun r ↦ r.key_expedite now := rfl
      refine change_of_modify hrows rfl fun r hp ↦ .expedite rfl ?_
      exact (Bool.and_eq_true_iff.mp hp).2
  | withdraw key' restingOnly =>
      change Change s _ key (s.rows.find? key)
        ((s.rows.delete (withdrawn key' restingOnly)).find? key)
        (lastTouch key ((s.rows.select (withdrawn key' restingOnly)).map
          fun r ↦ .withdrawn r.key))
      have htouch : ∀ k, (Entry.withdrawn k).touches key = decide (k = key) := fun _ ↦ rfl
      rw [Table.find?_delete]
      cases hfind : s.rows.find? key with
      | none =>
          rw [lastTouch_select_of_find?_none htouch hfind]
          exact .keep none
      | some r =>
          rw [lastTouch_select_of_find?_some htouch hfind]
          by_cases hp : withdrawn key' restingOnly r = true
          · simpa [Option.filter, hp] using Change.withdraw
          · simpa [Option.filter, hp] using Change.keep (some r)
  | retry event now =>
      change Change s _ key (s.rows.find? key)
        ((s.rows.modify (retried event) (OutboxRow.reset now) fun r ↦ r.key_reset now).find? key)
        (lastTouch key ((s.rows.select (retried event)).map fun r ↦ .requested r.key))
      have htouch : ∀ k, (Entry.requested k).touches key = decide (k = key) := fun _ ↦ rfl
      rw [Table.find?_modify]
      cases hfind : s.rows.find? key with
      | none =>
          rw [lastTouch_select_of_find?_none htouch hfind]
          exact .keep none
      | some r =>
          rw [lastTouch_select_of_find?_some htouch hfind]
          by_cases hp : retried event r = true
          · simpa [hp] using
              Change.request (isPending_reset r now) (Or.inl ⟨r, rfl, rfl⟩)
          · simpa [hp] using Change.keep (some r)
  | discard event operator reason photoExists now =>
      by_cases hreason : 3 ≤ reason.length ∧ reason.length ≤ 500
      · have hrows : (s.next (.discard event operator reason photoExists now)).rows =
            s.rows.modify (discardAllowed event photoExists)
              (OutboxRow.discard now operator reason)
              fun r ↦ r.key_discard now operator reason := by
          simp only [next, State.discard, if_pos hreason]
        refine change_of_modify hrows rfl fun r hp ↦ ?_
        have hdead : r.isDeadLetter = true :=
          (Bool.and_eq_true_iff.mp (Bool.and_eq_true_iff.mp hp).1).2
        cases hstatus : r.status with
        | deadLetter t =>
            refine .free ?_ ?_ ?_ ?_ <;>
              simp [OutboxRow.discard, OutboxRow.isPending, OutboxRow.heldBy,
                OutboxRow.isCompleted, hstatus]
        | _ => simp [OutboxRow.isDeadLetter, hstatus] at hdead
      · have hsame : s.next (.discard event operator reason photoExists now) = s := by
          simp only [next, State.discard, if_neg hreason]
        rw [hsame]
        exact .keep _
  | purgeSelect before limit => exact .keep _
  | purgeDelete selected =>
      change Change s _ key (s.rows.find? key)
        ((s.rows.delete fun r ↦ r.id ∈ selected).find? key) none
      rw [Table.find?_delete]
      cases hfind : s.rows.find? key with
      | none => exact .keep none
      | some r =>
          by_cases hid : r.id ∈ selected
          · simpa [Option.filter, hid] using Change.purge rfl h hid
          · simpa [Option.filter, hid] using Change.keep (some r)
  | purgeAbort selected => exact .keep _

/-- Where the tasks of the next state come from. -/
theorem mem_tasks_next {t : Task} (h : s.Enabled a) (ht : t ∈ (s.next a).tasks) :
    (∃ t₀ ∈ s.tasks, t₀.worker = t.worker ∧ t₀.event = t.event ∧ t₀.key = t.key ∧
      (t.stage = .dispatched → t₀ = t ∨ a = .dispatch t₀ .completed)) ∨
    t.stage = .claimed ∧ ∃ r ∈ s.rows, r.id = t.event ∧ r.key = t.key := by
  have hsame : t ∈ s.tasks → ∃ t₀ ∈ s.tasks, t₀.worker = t.worker ∧ t₀.event = t.event ∧
      t₀.key = t.key ∧ (t.stage = .dispatched → t₀ = t ∨ a = .dispatch t₀ .completed) :=
    fun hmem ↦ ⟨t, hmem, rfl, rfl, rfl, fun _ ↦ Or.inl rfl⟩
  have hleave : ∀ task, t ∈ s.leave task → t ∈ s.tasks := fun _ hmem ↦ List.mem_of_mem_erase hmem
  have hproceed : ∀ task stage, task ∈ s.tasks → t ∈ s.proceed task stage →
      (stage = .dispatched → a = .dispatch task .completed) →
      ∃ t₀ ∈ s.tasks, t₀.worker = t.worker ∧ t₀.event = t.event ∧ t₀.key = t.key ∧
        (t.stage = .dispatched → t₀ = t ∨ a = .dispatch t₀ .completed) := by
    intro task stage htask hmem hstage
    rcases List.mem_cons.mp hmem with rfl | hmem
    · exact ⟨task, htask, rfl, rfl, rfl, fun hd ↦ Or.inr (hstage hd)⟩
    · exact hsame (hleave task hmem)
  cases a with
  | claim worker window limit locked report =>
      simp only [next, State.claim] at ht
      split at ht
      · exact Or.inl (hsame ht)
      · exact Or.inl (hsame ht)
      · rename_i hclaim
        obtain ⟨hselected, _, _⟩ := claimBatch_eq_some hclaim
        dsimp only at ht
        split at ht
        · rcases List.mem_append.mp ht with ht | ht
          · obtain ⟨r, hr, rfl⟩ := List.mem_map.mp ht
            rw [hselected] at hr
            exact Or.inr ⟨rfl, r, (mem_candidates hr).1, rfl, rfl⟩
          · exact Or.inl (hsame ht)
        · exact Or.inl (hsame ht)
  | renew task now report =>
      refine Or.inl ?_
      cases report with
      | answered =>
          simp only [next, State.renew] at ht
          split at ht
          · exact hproceed task .renewed h.1 ht (by simp)
          · exact hsame (hleave task ht)
      | unanswered => exact hproceed task (.failed false) h.1 ht (by simp)
      | failed => exact hproceed task (.failed false) h.1 ht (by simp)
  | dispatch task result =>
      refine Or.inl ?_
      cases result with
      | completed => exact hproceed task .dispatched h.1 ht fun _ ↦ rfl
      | deferred => exact hsame (hleave task ht)
      | failed permanent => exact hproceed task (.failed permanent) h.1 ht (by simp)
  | complete task processedAt report =>
      refine Or.inl ?_
      simp only [next, State.complete] at ht
      split at ht
      · exact hsame (hleave task ht)
      · exact hproceed task (.failed false) h.1 ht (by simp)
  | reschedule task now availableAt errorCode report => exact Or.inl (hsame (hleave task ht))
  | crash worker => exact Or.inl (hsame (List.mem_of_mem_filter ht))
  | discard event operator reason photoExists now =>
      simp only [next, State.discard] at ht
      split at ht <;> exact Or.inl (hsame ht)
  | _ => exact Or.inl (hsame ht)

theorem mem_purges_next {p : List Uuid} (h : p ∈ (s.next a).purges) :
    p ∈ s.purges ∨
      ∃ before limit, a = .purgeSelect before limit ∧ p = purgeable s.rows before limit := by
  cases a with
  | claim worker window limit locked report =>
      simp only [next, State.claim] at h
      split at h <;> exact Or.inl h
  | discard event operator reason photoExists now =>
      simp only [next, State.discard] at h
      split at h <;> exact Or.inl h
  | purgeSelect before limit =>
      rcases List.mem_cons.mp h with rfl | h
      · exact Or.inr ⟨before, limit, rfl, rfl⟩
      · exact Or.inl h
  | purgeDelete selected => exact Or.inl (List.mem_of_mem_erase h)
  | purgeAbort selected => exact Or.inl (List.mem_of_mem_erase h)
  | _ => exact Or.inl h

end State

end Histae.Outbox
