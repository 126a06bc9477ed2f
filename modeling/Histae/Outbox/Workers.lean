import Mathlib
import Histae.Outbox.Events
import Histae.Systems.Run

/-!
# Workers, operators and purges over one outbox

Every statement on the outbox table is one action. A worker claims a batch
when nothing of its previous batch is left, and takes each claimed event
through `process_event`: renew the claim, dispatch, then complete or
reschedule. A statement may fail, or commit without its answer reaching the
worker; a worker may crash at any point, which forgets its events and leaves
their rows as they are.

`purge_resolved` is one `DELETE` whose subquery reads the statement's
snapshot without locking. It is two actions here: the selection, and the
deletion of the rows that carry a selected id in whatever status they have
been committed by then.

The log is not part of the program. It records who claimed and dispatched an
event, and when its work was requested anew.
-/

namespace Histae.Outbox

open Relational Systems

/-- How far `process_event` has come with one claimed event. -/
inductive Stage
  | claimed
  | renewed
  | dispatched
  | failed (permanent : Bool)
  deriving DecidableEq

structure Task where
  worker : Uuid
  event : Uuid
  key : EventKey
  stage : Stage
  deriving DecidableEq

inductive DispatchResult
  | completed
  | deferred
  | failed (permanent : Bool)
  deriving DecidableEq

/-- What became of a statement: committed and answered, committed without an
answer, or not committed. -/
inductive Report
  | answered
  | unanswered
  | failed
  deriving DecidableEq

def Report.commits : Report → Bool
  | .failed => false
  | _ => true

inductive Entry
  | claimed (worker : Uuid) (key : EventKey)
  | dispatched (worker : Uuid) (key : EventKey) (result : DispatchResult)
  | requested (key : EventKey)
  | withdrawn (key : EventKey)
  deriving DecidableEq

structure State where
  rows : OutboxTable
  tasks : List Task
  purges : List (List Uuid)
  log : List Entry

def State.empty : State := ⟨∅, [], [], []⟩

inductive Action
  | claim (worker : Uuid) (window : ClaimWindow) (limit : ℕ) (locked : List Uuid)
      (report : Report)
  | renew (task : Task) (now : ℤ) (report : Report)
  | dispatch (task : Task) (result : DispatchResult)
  | complete (task : Task) (processedAt : ℤ) (report : Report)
  | reschedule (task : Task) (now availableAt : ℤ) (errorCode : String) (report : Report)
  | defer (task : Task) (now : ℤ)
  | releaseForNextBatch (task : Task) (now delaySeconds : ℤ)
  | crash (worker : Uuid)
  | enqueue (id : Uuid) (key : EventKey) (now : ℤ)
  | requeue (id : Uuid) (key : EventKey) (now : ℤ)
  | revive (id : Uuid) (key : EventKey) (now availableAt : ℤ) (discardedToo : Bool)
  | expedite (key : EventKey) (now : ℤ)
  | withdraw (key : EventKey) (restingOnly : Bool)
  | retry (event : Uuid) (now : ℤ)
  | discard (event operator : Uuid) (reason : String) (photoExists : Bool) (now : ℤ)
  | purgeSelect (before : ℤ) (limit : ℕ)
  | purgeDelete (selected : List Uuid)
  | purgeAbort (selected : List Uuid)

/-- The event a step may insert. -/
def Action.inserts : Action → Option EventKey
  | .enqueue _ key _ => some key
  | .requeue _ key _ => some key
  | .revive _ key .. => some key
  | _ => none

def outboxMaxAttempts : ℕ := 10

namespace State

variable (s : State)

def held (event worker : Uuid) (r : OutboxRow) : Bool := r.id = event && r.heldBy worker

def leave (task : Task) : List Task := s.tasks.erase task

def proceed (task : Task) (stage : Stage) : List Task :=
  { task with stage := stage } :: s.leave task

def claim (worker : Uuid) (window : ClaimWindow) (limit : ℕ) (locked : List Uuid)
    (report : Report) : State :=
  match report, claimBatch s.rows worker window limit locked with
  | .failed, _ => s
  | _, none => s
  | report, some (rows, selected) =>
      { s with
        rows := rows
        tasks := if report = .answered then
            (selected.map fun r ↦ ⟨worker, r.id, r.key, .claimed⟩) ++ s.tasks
          else s.tasks
        log := (selected.map fun r ↦ .claimed worker r.key) ++ s.log }

/-- The row an event's own worker may write, written by a statement that may
not have committed. -/
def write (task : Task) (report : Report) (f : OutboxRow → OutboxRow)
    (hf : ∀ r, (f r).key = r.key) : OutboxTable :=
  if report.commits then s.rows.modify (held task.event task.worker) f hf else s.rows

def renew (task : Task) (now : ℤ) (report : Report) : State :=
  { s with
    rows := s.write task report (OutboxRow.renew now task.worker)
      fun r ↦ r.key_renew now task.worker
    tasks := match report with
      | .answered =>
          if 0 < s.rows.count (held task.event task.worker) then s.proceed task .renewed
          else s.leave task
      | _ => s.proceed task (.failed false) }

def dispatch (task : Task) (result : DispatchResult) : State :=
  { s with
    tasks := match result with
      | .completed => s.proceed task .dispatched
      | .deferred => s.leave task
      | .failed permanent => s.proceed task (.failed permanent)
    log := .dispatched task.worker task.key result :: s.log }

def complete (task : Task) (processedAt : ℤ) (report : Report) : State :=
  { s with
    rows := s.write task report (OutboxRow.complete processedAt)
      fun r ↦ r.key_complete processedAt
    tasks := if report = .answered then s.leave task else s.proceed task (.failed false) }

def reschedule (task : Task) (now availableAt : ℤ) (errorCode : String) (report : Report) :
    State :=
  let maxAttempts := if task.stage = .failed true then 1 else outboxMaxAttempts
  { s with
    rows := s.write task report (OutboxRow.reschedule now availableAt errorCode maxAttempts)
      fun r ↦ r.key_reschedule now availableAt errorCode maxAttempts
    tasks := s.leave task }

/-- `INSERT ... ON CONFLICT (event_type, aggregate_id) DO UPDATE ... WHERE`. -/
def insert (row : OutboxRow) (p : OutboxRow → Bool) (availableAt : ℤ) : OutboxTable :=
  s.rows.upsert row (fun r ↦ if p r then r.reset availableAt else r) fun r ↦ by
    split <;> simp

def retried (event : Uuid) (r : OutboxRow) : Bool := r.id = event && r.isDeadLetter

def discardAllowed (event : Uuid) (photoExists : Bool) (r : OutboxRow) : Bool :=
  retried event r &&
    (r.eventType = .notificationPush || r.eventType = .photoDelete && !photoExists)

def withdrawn (key : EventKey) (restingOnly : Bool) (r : OutboxRow) : Bool :=
  r.key = key && (!restingOnly || r.isPending || r.isCompleted || r.isDiscarded)

def retry (event : Uuid) (now : ℤ) : State :=
  { s with
    rows := s.rows.modify (retried event) (OutboxRow.reset now) fun r ↦ r.key_reset now
    log := ((s.rows.select (retried event)).map fun r ↦ .requested r.key) ++ s.log }

def discard (event operator : Uuid) (reason : String) (photoExists : Bool) (now : ℤ) : State :=
  if 3 ≤ reason.length ∧ reason.length ≤ 500 then
    { s with
      rows := s.rows.modify (discardAllowed event photoExists)
        (OutboxRow.discard now operator reason) fun r ↦ r.key_discard now operator reason }
  else s

def next : Action → State
  | .claim worker window limit locked report => s.claim worker window limit locked report
  | .renew task now report => s.renew task now report
  | .dispatch task result => s.dispatch task result
  | .complete task processedAt report => s.complete task processedAt report
  | .reschedule task now availableAt errorCode report =>
      s.reschedule task now availableAt errorCode report
  | .defer task now =>
      { s with
        rows := s.write task .answered (OutboxRow.defer now) fun r ↦ r.key_defer now }
  | .releaseForNextBatch task now delaySeconds =>
      { s with
        rows := s.write task .answered (OutboxRow.releaseForNextBatch now delaySeconds)
          fun r ↦ r.key_releaseForNextBatch now delaySeconds }
  | .crash worker => { s with tasks := s.tasks.filter fun t ↦ t.worker ≠ worker }
  | .enqueue id key now =>
      { s with rows := s.insert (.new id key now now) (fun _ ↦ false) now }
  | .requeue id key now =>
      { s with
        rows := s.insert (.new id key now now) (fun _ ↦ true) now
        log := .requested key :: s.log }
  | .revive id key now availableAt discardedToo =>
      { s with
        rows := s.insert (.new id key now availableAt)
          (fun r ↦ r.isCompleted || discardedToo && r.isDiscarded) availableAt }
  | .expedite key now =>
      { s with
        rows := s.rows.modify (fun r ↦ r.key = key && r.isPending) (OutboxRow.expedite now)
          fun r ↦ r.key_expedite now }
  | .withdraw key restingOnly =>
      { s with
        rows := s.rows.delete (withdrawn key restingOnly)
        log := ((s.rows.select (withdrawn key restingOnly)).map fun r ↦ .withdrawn r.key) ++
          s.log }
  | .retry event now => s.retry event now
  | .discard event operator reason photoExists now =>
      s.discard event operator reason photoExists now
  | .purgeSelect before limit =>
      { s with purges := purgeable s.rows before limit :: s.purges }
  | .purgeDelete selected =>
      { s with
        rows := s.rows.delete fun r ↦ r.id ∈ selected
        purges := s.purges.erase selected }
  | .purgeAbort selected => { s with purges := s.purges.erase selected }

/-- A version-4 identifier that nothing uses yet. -/
def Fresh (id : Uuid) : Prop :=
  (∀ r ∈ s.rows.rows, r.id ≠ id) ∧ (∀ t ∈ s.tasks, t.event ≠ id) ∧ ∀ p ∈ s.purges, id ∉ p

def Enabled : Action → Prop
  | .claim worker .. => ∀ t ∈ s.tasks, t.worker ≠ worker
  | .renew task .. => task ∈ s.tasks ∧ task.stage = .claimed
  | .dispatch task _ => task ∈ s.tasks ∧ task.stage = .renewed
  | .complete task .. => task ∈ s.tasks ∧ task.stage = .dispatched
  | .reschedule task .. =>
      task ∈ s.tasks ∧ (task.stage = .failed true ∨ task.stage = .failed false)
  | .defer task _ => task ∈ s.tasks ∧ task.stage = .renewed
  | .releaseForNextBatch task .. => task ∈ s.tasks ∧ task.stage = .renewed
  | .enqueue id .. => s.Fresh id
  | .requeue id .. => s.Fresh id
  | .revive id .. => s.Fresh id
  | .purgeDelete selected => selected ∈ s.purges
  | .purgeAbort selected => selected ∈ s.purges
  | _ => True

instance decidableEnabled : ∀ a, Decidable (s.Enabled a)
  | .claim worker .. => inferInstanceAs (Decidable (∀ t ∈ s.tasks, t.worker ≠ worker))
  | .renew task .. => inferInstanceAs (Decidable (task ∈ s.tasks ∧ task.stage = .claimed))
  | .dispatch task _ => inferInstanceAs (Decidable (task ∈ s.tasks ∧ task.stage = .renewed))
  | .complete task .. =>
      inferInstanceAs (Decidable (task ∈ s.tasks ∧ task.stage = .dispatched))
  | .reschedule task .. => inferInstanceAs (Decidable (task ∈ s.tasks ∧
      (task.stage = .failed true ∨ task.stage = .failed false)))
  | .defer task _ => inferInstanceAs (Decidable (task ∈ s.tasks ∧ task.stage = .renewed))
  | .releaseForNextBatch task .. =>
      inferInstanceAs (Decidable (task ∈ s.tasks ∧ task.stage = .renewed))
  | .enqueue id .. | .requeue id .. | .revive id .. =>
      inferInstanceAs (Decidable ((∀ r ∈ s.rows.rows, r.id ≠ id) ∧
        (∀ t ∈ s.tasks, t.event ≠ id) ∧ ∀ p ∈ s.purges, id ∉ p))
  | .purgeDelete selected | .purgeAbort selected =>
      inferInstanceAs (Decidable (selected ∈ s.purges))
  | .crash _ | .expedite .. | .withdraw .. | .retry .. | .discard .. | .purgeSelect .. =>
      .isTrue trivial

end State

def system : System State Action where
  Enabled := State.Enabled
  next := State.next

instance (s : State) (a : Action) : Decidable (system.Enabled s a) := s.decidableEnabled a

end Histae.Outbox
