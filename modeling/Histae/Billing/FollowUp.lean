import Mathlib
import Histae.Billing.StoreRuns
import Histae.Outbox.Workers

/-!
# Follow-up of store purchases

`schedule` and `apply` leave the work on a purchase to two outbox events,
`billing.store.reconcile` and `billing.store.acknowledge`, one of each for a
purchase. Their insertion arms a stored event again only when it is completed.
An event that is pending or processing is left as it is, and so is a dead
letter: after the last attempt, or a failure that no attempt can cure, the
event waits for an operator.

The store tables share the outbox with its workers, the operators and the
purge. Nothing but `StoreRepository` inserts the two kinds of events, and
nothing withdraws them.
-/

namespace Histae.Outbox.OutboxRow

/-- A worker has the event, or will claim it. -/
def isWatched (r : OutboxRow) : Bool :=
  match r.status with
  | .pending => true
  | .processing .. => true
  | _ => false

variable {r : OutboxRow}

theorem isWatched_of_isPending (h : r.isPending = true) : r.isWatched = true := by
  have hstatus : r.status = .pending := by simpa [isPending] using h
  simp [isWatched, hstatus]

theorem isWatched_or (h : r.isCompleted = false) :
    r.isWatched = true ∨ r.isDeadLetter = true ∨ r.isDiscarded = true := by
  cases hstatus : r.status with
  | pending => simp [isWatched, hstatus]
  | processing => simp [isWatched, hstatus]
  | completed => simp [isCompleted, hstatus] at h
  | deadLetter => simp [isDeadLetter, hstatus]
  | discarded => simp [isDiscarded, hstatus]

/-- Every window that is late enough can claim a watched event. -/
theorem claimable_of_isWatched (h : r.isWatched = true) :
    ∃ t, ∀ window : ClaimWindow, t ≤ window.now → t ≤ window.staleBefore →
      r.claimable window = true := by
  cases hstatus : r.status with
  | pending =>
      refine ⟨r.availableAt, fun window hnow _ ↦ ?_⟩
      simpa [claimable, hstatus] using hnow
  | processing lockedAt lockedBy =>
      refine ⟨lockedAt, fun window _ hstale ↦ ?_⟩
      simpa [claimable, hstatus] using hstale
  | completed => simp [isWatched, hstatus] at h
  | deadLetter => simp [isWatched, hstatus] at h
  | discarded => simp [isWatched, hstatus] at h

theorem not_held_of_isDeadLetter (h : r.isDeadLetter = true) (worker : Uuid) :
    r.heldBy worker = false := by
  cases hstatus : r.status with
  | deadLetter => simp [heldBy, hstatus]
  | pending | processing | completed | discarded => simp [isDeadLetter, hstatus] at h

theorem not_claimable_of_isDeadLetter (h : r.isDeadLetter = true) (window : ClaimWindow) :
    r.claimable window = false := by
  cases hstatus : r.status with
  | deadLetter => simp [claimable, hstatus]
  | pending | processing | completed | discarded => simp [isDeadLetter, hstatus] at h

theorem not_isPending_of_isDeadLetter (h : r.isDeadLetter = true) : r.isPending = false := by
  cases hstatus : r.status with
  | deadLetter => simp [isPending, hstatus]
  | pending | processing | completed | discarded => simp [isDeadLetter, hstatus] at h

theorem not_isDiscarded_of_isPending (h : r.isPending = true) : r.isDiscarded = false := by
  have hstatus : r.status = .pending := by simpa [isPending] using h
  simp [isDiscarded, hstatus]

end Histae.Outbox.OutboxRow

namespace Histae.Billing

open Relational Systems Outbox

/-- The store tables and the outbox behind them. -/
structure FollowUp where
  shop : Shop
  tasks : List Outbox.Task
  purges : List (List Uuid)
  log : List Outbox.Entry

inductive FollowUpStep
  | store (step : ShopStep)
  | outbox (action : Outbox.Action)

def followsUp (eventType : OutboxEventType) : Bool :=
  eventType = .storeReconcile || eventType = .storeAcknowledge

/-- The event on which another module's statement works. -/
def addressed : Outbox.Action → Option EventKey
  | .enqueue _ key _ => some key
  | .requeue _ key _ => some key
  | .revive _ key .. => some key
  | .expedite key _ => some key
  | .withdraw key _ => some key
  | _ => none

namespace FollowUp

def empty : FollowUp := ⟨.opening ∅ ∅ ∅, [], [], []⟩

def outbox (f : FollowUp) : Outbox.State := ⟨f.shop.db.outbox, f.tasks, f.purges, f.log⟩

def next (googleId : Uuid → String) (f : FollowUp) : FollowUpStep → FollowUp
  | .store step => { f with shop := Shop.next googleId f.shop step }
  | .outbox action =>
      let s := f.outbox.next action
      { shop := { f.shop with db := { f.shop.db with outbox := s.rows } }
        tasks := s.tasks, purges := s.purges, log := s.log }

/-- New events carry new identifiers. -/
def StoreEnabled (f : FollowUp) : ShopStep → Prop
  | .apply _ _ _ _ _ eventId _ => f.outbox.Fresh eventId
  | .schedule now locked eventIds =>
      (∀ id ∈ f.shop.db.dueSubscriptions now locked, f.outbox.Fresh (eventIds id)) ∧
        ((f.shop.db.dueSubscriptions now locked).map eventIds).Nodup
  | _ => True

def Enabled (f : FollowUp) : FollowUpStep → Prop
  | .store step => f.StoreEnabled step
  | .outbox action =>
      f.outbox.Enabled action ∧ (addressed action).all fun key ↦ !followsUp key.1

instance (f : FollowUp) (id : Uuid) : Decidable (f.outbox.Fresh id) :=
  inferInstanceAs (Decidable ((∀ r ∈ f.shop.db.outbox.rows, r.id ≠ id) ∧
    (∀ t ∈ f.tasks, t.event ≠ id) ∧ ∀ p ∈ f.purges, id ∉ p))

instance decidableStoreEnabled (f : FollowUp) : ∀ step, Decidable (f.StoreEnabled step)
  | .apply _ _ _ _ _ eventId _ => inferInstanceAs (Decidable (f.outbox.Fresh eventId))
  | .schedule now locked eventIds =>
      have : Decidable (∀ id ∈ f.shop.db.dueSubscriptions now locked,
        f.outbox.Fresh (eventIds id)) := List.decidableBAll _ _
      inferInstanceAs (Decidable
        ((∀ id ∈ f.shop.db.dueSubscriptions now locked, f.outbox.Fresh (eventIds id)) ∧
          ((f.shop.db.dueSubscriptions now locked).map eventIds).Nodup))
  | .account .. | .acknowledged _ | .register _ | .restrict .. | .anonymize .. => .isTrue trivial

instance decidableEnabled (f : FollowUp) : ∀ step, Decidable (f.Enabled step)
  | .store step => inferInstanceAs (Decidable (f.StoreEnabled step))
  | .outbox action => inferInstanceAs (Decidable (f.outbox.Enabled action ∧
      (addressed action).all (fun key ↦ !followsUp key.1) = true))

end FollowUp

def followUps (googleId : Uuid → String) : System FollowUp FollowUpStep where
  Enabled := FollowUp.Enabled
  next := FollowUp.next googleId

instance (googleId : Uuid → String) (f : FollowUp) (step : FollowUpStep) :
    Decidable ((followUps googleId).Enabled f step) := f.decidableEnabled step

section Enqueued

/-- What the insertion of the events `keys` does to the outbox. -/
structure Enqueued (rows rows' : OutboxTable) (keys : List EventKey) : Prop where
  kept : ∀ k r, rows.find? k = some r → r.isCompleted = false → rows'.find? k = some r
  source : ∀ k r, rows'.find? k = some r → rows.find? k = some r ∨ r.isPending = true
  stored : ∀ k ∈ keys, ∃ r, rows'.find? k = some r ∧ r.isCompleted = false

variable {rows rows' rows'' : OutboxTable} {keys keys' : List EventKey} {key : EventKey}

theorem Enqueued.refl (rows : OutboxTable) : Enqueued rows rows [] :=
  ⟨fun _ _ h _ ↦ h, fun _ _ h ↦ Or.inl h, fun _ h ↦ absurd h List.not_mem_nil⟩

theorem Enqueued.trans (h : Enqueued rows rows' keys) (h' : Enqueued rows' rows'' keys') :
    Enqueued rows rows'' (keys ++ keys') where
  kept k r hr hopen := h'.kept k r (h.kept k r hr hopen) hopen
  source k r hr := by
    rcases h'.source k r hr with hr | hpending
    · exact h.source k r hr
    · exact Or.inr hpending
  stored k hk := by
    rcases List.mem_append.mp hk with hk | hk
    · obtain ⟨r, hr, hopen⟩ := h.stored k hk
      exact ⟨r, h'.kept k r hr hopen, hopen⟩
    · exact h'.stored k hk

theorem enqueued_enqueue (db : StoreDb) (eventType : OutboxEventType) (id eventId : Uuid)
    (clock : ℤ) :
    Enqueued db.outbox (db.enqueue eventType id eventId clock).outbox [(eventType, id)] := by
  have hfind : ∀ k, (db.enqueue eventType id eventId clock).outbox.find? k =
      if k = (eventType, id) then
        some (((db.outbox.find? k).map fun event ↦
          if event.isCompleted then event.reset clock else event).getD
            (.new eventId (eventType, id) clock clock))
      else db.outbox.find? k := by
    intro k
    exact Table.find?_upsert _
  have hreset : ∀ r : OutboxRow, (r.reset clock).isPending = true := fun _ ↦ by
    simp [OutboxRow.isPending, OutboxRow.reset]
  have hnew : (OutboxRow.new eventId (eventType, id) clock clock).isPending = true := by
    simp [OutboxRow.isPending, OutboxRow.new]
  have hopen : ∀ r : OutboxRow, r.isPending = true → r.isCompleted = false := by
    intro r hpending
    have hstatus : r.status = .pending := by simpa [OutboxRow.isPending] using hpending
    simp [OutboxRow.isCompleted, hstatus]
  refine ⟨fun k r hr hcompleted ↦ ?_, fun k r hr ↦ ?_, fun k hk ↦ ?_⟩
  · rw [hfind k, hr]
    simp [hcompleted]
  · rw [hfind k] at hr
    split at hr
    · cases hstored : db.outbox.find? k with
      | none =>
          rw [hstored] at hr
          obtain rfl := Option.some.inj hr
          exact Or.inr hnew
      | some event =>
          rw [hstored] at hr
          obtain rfl := Option.some.inj hr
          rw [Option.map_some, Option.getD_some]
          split
          · exact Or.inr (hreset event)
          · exact Or.inl rfl
    · exact Or.inl hr
  · obtain rfl := List.mem_singleton.mp hk
    rw [hfind, if_pos rfl]
    refine ⟨_, rfl, ?_⟩
    cases hstored : db.outbox.find? (eventType, id) with
    | none => exact hopen _ hnew
    | some event =>
        rw [Option.map_some, Option.getD_some]
        split
        · exact hopen _ (hreset event)
        · rename_i hcompleted
          simpa using hcompleted

theorem enqueued_schedule (db : StoreDb) (ids : List Uuid) (eventIds : Uuid → Uuid) (now : ℤ) :
    Enqueued db.outbox
      (ids.foldl (fun db id ↦ db.enqueue .storeReconcile id (eventIds id) now) db).outbox
      (ids.map fun id ↦ (.storeReconcile, id)) := by
  induction ids generalizing db with
  | nil => exact .refl db.outbox
  | cons id ids ih => exact (enqueued_enqueue db .storeReconcile id (eventIds id) now).trans (ih _)

/-- The event is watched, or it is the dead letter that it was before. -/
def Followed (rows rows' : OutboxTable) (key : EventKey) : Prop :=
  ∃ r, rows'.find? key = some r ∧
    (r.isWatched = true ∨ r.isDeadLetter = true ∧ rows.find? key = some r)

/-- The operators cannot discard the follow-up of a purchase. -/
def NoneDiscarded (rows : OutboxTable) : Prop :=
  ∀ r ∈ rows, followsUp r.eventType = true → r.isDiscarded = false

theorem NoneDiscarded.enqueued (h : NoneDiscarded rows) (henqueued : Enqueued rows rows' keys) :
    NoneDiscarded rows' := by
  intro r hr hfollows
  rcases henqueued.source r.key r (Table.find?_key hr) with hstored | hpending
  · exact h r (Table.find?_eq_some_iff.mp hstored).1 hfollows
  · exact OutboxRow.not_isDiscarded_of_isPending hpending

theorem Enqueued.followed (henqueued : Enqueued rows rows' keys) (h : NoneDiscarded rows)
    (hkey : key ∈ keys) (hfollows : followsUp key.1 = true) : Followed rows rows' key := by
  obtain ⟨r, hr, hopen⟩ := henqueued.stored key hkey
  obtain ⟨hmem, rfl⟩ := Table.find?_eq_some_iff.mp hr
  refine ⟨r, hr, ?_⟩
  rcases henqueued.source r.key r hr with hstored | hpending
  · rcases OutboxRow.isWatched_or hopen with hwatched | hdead | hdiscarded
    · exact Or.inl hwatched
    · exact Or.inr ⟨hdead, hstored⟩
    · have hkept := h.enqueued henqueued r hmem hfollows
      rw [hdiscarded] at hkept
      exact absurd hkept (by simp)
  · exact Or.inl (OutboxRow.isWatched_of_isPending hpending)

end Enqueued

section Outbox

variable {s : Outbox.State} {a : Outbox.Action} {r r' : OutboxRow}

theorem mem_of_modify {rows : OutboxTable} {p : OutboxRow → Bool} {f : OutboxRow → OutboxRow}
    (hf : ∀ r, (f r).key = r.key) (h : r' ∈ rows.modify p f hf) :
    r' ∈ rows ∨ ∃ r ∈ rows, p r = true ∧ r' = f r := by
  obtain ⟨r, hr, rfl⟩ := (Table.mem_modify hf).mp h
  split
  · rename_i hp
    exact Or.inr ⟨r, hr, hp, rfl⟩
  · exact Or.inl hr

theorem mem_modify_of_false {rows : OutboxTable} {p : OutboxRow → Bool}
    {f : OutboxRow → OutboxRow} (hf : ∀ r, (f r).key = r.key) (h : r ∈ rows) (hp : p r = false) :
    r ∈ rows.modify p f hf :=
  (Table.mem_modify hf).mpr ⟨r, h, by simp [hp]⟩

theorem mem_write {task : Outbox.Task} {report : Report} {f : OutboxRow → OutboxRow}
    {hf : ∀ r, (f r).key = r.key} (h : r' ∈ s.write task report f hf) :
    r' ∈ s.rows ∨ ∃ r ∈ s.rows, r' = f r := by
  unfold Outbox.State.write at h
  split at h
  · rcases mem_of_modify _ h with h | ⟨r, hr, _, rfl⟩
    · exact Or.inl h
    · exact Or.inr ⟨r, hr, rfl⟩
  · exact Or.inl h

theorem mem_write_of_isDeadLetter {task : Outbox.Task} {report : Report}
    {f : OutboxRow → OutboxRow} {hf : ∀ r, (f r).key = r.key} (h : r ∈ s.rows)
    (hdead : r.isDeadLetter = true) : r ∈ s.write task report f hf := by
  unfold Outbox.State.write
  split
  · refine mem_modify_of_false _ h ?_
    simp [Outbox.State.held, OutboxRow.not_held_of_isDeadLetter hdead]
  · exact h

theorem mem_insert_of_ne {row : OutboxRow} {p : OutboxRow → Bool} {availableAt : ℤ}
    (hkey : r.key ≠ row.key) : r ∈ s.insert row p availableAt ↔ r ∈ s.rows := by
  have hfind : (s.insert row p availableAt).find? r.key = s.rows.find? r.key := by
    unfold Outbox.State.insert
    rw [Table.find?_upsert, if_neg hkey]
  constructor
  · intro h
    have hr := Table.find?_key h
    rw [hfind] at hr
    exact (Table.find?_eq_some_iff.mp hr).1
  · intro h
    have hr := Table.find?_key h
    rw [← hfind] at hr
    exact (Table.find?_eq_some_iff.mp hr).1

theorem ne_of_addressed {key : EventKey} (hfollows : followsUp r.eventType = true)
    (haddressed : (some key).all (fun key ↦ !followsUp key.1) = true) : r.key ≠ key := by
  rintro rfl
  simp [OutboxRow.key, hfollows] at haddressed

theorem mem_claim {worker : Uuid} {window : ClaimWindow} {limit : ℕ} {locked : List Uuid}
    {report : Report} (h : r' ∈ (s.claim worker window limit locked report).rows) :
    r' ∈ s.rows ∨ ∃ r ∈ s.rows, r.attempts + 1 ≤ 100 ∧ r' = r.claim window.now worker := by
  unfold Outbox.State.claim at h
  split at h
  · exact Or.inl h
  · exact Or.inl h
  · rename_i rows selected hclaim
    obtain ⟨rfl, hbound, rfl⟩ := claimBatch_eq_some hclaim
    rcases mem_of_modify (fun r ↦ r.key_claim window.now worker) h with h | ⟨r, hr, hselected, rfl⟩
    · exact Or.inl h
    · exact Or.inr ⟨r, hr, hbound r (by simpa using hselected), rfl⟩

theorem mem_claim_of_isDeadLetter {worker : Uuid} {window : ClaimWindow} {limit : ℕ}
    {locked : List Uuid} {report : Report} (h : r ∈ s.rows) (hdead : r.isDeadLetter = true) :
    r ∈ (s.claim worker window limit locked report).rows := by
  unfold Outbox.State.claim
  split
  · exact h
  · exact h
  · rename_i rows selected hclaim
    obtain ⟨rfl, _, rfl⟩ := claimBatch_eq_some hclaim
    refine mem_modify_of_false (fun r ↦ r.key_claim window.now worker) h ?_
    rw [decide_eq_false_iff_not]
    intro hselected
    have hclaimable := (Outbox.mem_candidates hselected).2
    rw [OutboxRow.not_claimable_of_isDeadLetter hdead] at hclaimable
    exact absurd hclaimable (by simp)

/-- Nothing discards the follow-up of a purchase. -/
theorem NoneDiscarded.next (h : NoneDiscarded s.rows)
    (haddressed : (addressed a).all (fun key ↦ !followsUp key.1) = true) :
    NoneDiscarded (s.next a).rows := by
  intro r' hr' hfollows
  have hbefore : r' ∈ s.rows → r'.isDiscarded = false := fun hr ↦ h r' hr hfollows
  cases a with
  | claim worker window limit locked report =>
      rcases mem_claim hr' with hr | ⟨r, hr, hbound, rfl⟩
      · exact hbefore hr
      · simp [OutboxRow.claim, hbound, OutboxRow.isDiscarded]
  | renew task now report =>
      rcases mem_write hr' with hr | ⟨r, hr, rfl⟩
      · exact hbefore hr
      · simp [OutboxRow.renew, OutboxRow.isDiscarded]
  | complete task processedAt report =>
      rcases mem_write hr' with hr | ⟨r, hr, rfl⟩
      · exact hbefore hr
      · simp [OutboxRow.complete, OutboxRow.isDiscarded]
  | reschedule task now availableAt errorCode report =>
      rcases mem_write hr' with hr | ⟨r, hr, rfl⟩
      · exact hbefore hr
      · simp only [OutboxRow.reschedule]
        split
        · by_cases hmax : 1 ≤ r.attempts <;> simp [OutboxRow.isDiscarded, hmax]
        · by_cases hmax : outboxMaxAttempts ≤ r.attempts <;> simp [OutboxRow.isDiscarded, hmax]
  | defer task now =>
      rcases mem_write hr' with hr | ⟨r, hr, rfl⟩
      · exact hbefore hr
      · simp [OutboxRow.defer, OutboxRow.isDiscarded]
  | releaseForNextBatch task now delaySeconds =>
      rcases mem_write hr' with hr | ⟨r, hr, rfl⟩
      · exact hbefore hr
      · simp [OutboxRow.releaseForNextBatch, OutboxRow.reset, OutboxRow.isDiscarded]
  | enqueue id key now =>
      have hne : r'.key ≠ key := ne_of_addressed hfollows haddressed
      exact hbefore ((mem_insert_of_ne hne).mp hr')
  | requeue id key now =>
      have hne : r'.key ≠ key := ne_of_addressed hfollows haddressed
      exact hbefore ((mem_insert_of_ne hne).mp hr')
  | revive id key now availableAt discardedToo =>
      have hne : r'.key ≠ key := ne_of_addressed hfollows haddressed
      exact hbefore ((mem_insert_of_ne hne).mp hr')
  | expedite key now =>
      rcases mem_of_modify (fun r ↦ r.key_expedite now) hr' with hr | ⟨r, hr, hpending, rfl⟩
      · exact hbefore hr
      · exact OutboxRow.not_isDiscarded_of_isPending (Bool.and_eq_true_iff.mp hpending).2
  | withdraw key restingOnly => exact hbefore (Table.mem_delete.mp hr').1
  | retry event now =>
      rcases mem_of_modify (fun r ↦ r.key_reset now) hr' with hr | ⟨r, hr, _, rfl⟩
      · exact hbefore hr
      · simp [OutboxRow.reset, OutboxRow.isDiscarded]
  | discard event operator reason photoExists now =>
      simp only [Outbox.State.next, Outbox.State.discard] at hr'
      split at hr'
      · rcases mem_of_modify (fun r ↦ r.key_discard now operator reason) hr' with
          hr | ⟨r, hr, hallowed, rfl⟩
        · exact hbefore hr
        · have htype : r.eventType = .notificationPush ∨ r.eventType = .photoDelete := by
            simp only [Outbox.State.discardAllowed, Bool.and_eq_true, Bool.or_eq_true,
              decide_eq_true_eq] at hallowed
            exact hallowed.2.imp id And.left
          have hsame : (r.discard now operator reason).eventType = r.eventType :=
            congrArg Prod.fst (r.key_discard now operator reason)
          rw [hsame] at hfollows
          rcases htype with htype | htype <;> simp [htype, followsUp] at hfollows
      · exact hbefore hr'
  | purgeDelete selected => exact hbefore (Table.mem_delete.mp hr').1
  | dispatch | crash | purgeSelect | purgeAbort => exact hbefore hr'

/-- A dead letter of a purchase stays until an operator retries it, or a purge
that had selected the event while it was completed. -/
theorem deadLetter_next (hr : r ∈ s.rows) (hfollows : followsUp r.eventType = true)
    (hdead : r.isDeadLetter = true)
    (haddressed : (addressed a).all (fun key ↦ !followsUp key.1) = true) :
    r ∈ (s.next a).rows ∨
      (∃ now, a = .retry r.id now ∧ r.reset now ∈ (s.next a).rows) ∨
      ∃ selected, a = .purgeDelete selected ∧ r.id ∈ selected := by
  cases a with
  | claim worker window limit locked report => exact Or.inl (mem_claim_of_isDeadLetter hr hdead)
  | renew | complete | reschedule | defer | releaseForNextBatch =>
      exact Or.inl (mem_write_of_isDeadLetter hr hdead)
  | enqueue id key now =>
      have hne : r.key ≠ key := ne_of_addressed hfollows haddressed
      exact Or.inl ((mem_insert_of_ne hne).mpr hr)
  | requeue id key now =>
      have hne : r.key ≠ key := ne_of_addressed hfollows haddressed
      exact Or.inl ((mem_insert_of_ne hne).mpr hr)
  | revive id key now availableAt discardedToo =>
      have hne : r.key ≠ key := ne_of_addressed hfollows haddressed
      exact Or.inl ((mem_insert_of_ne hne).mpr hr)
  | expedite key now =>
      refine Or.inl (mem_modify_of_false (fun r ↦ r.key_expedite now) hr ?_)
      simp [OutboxRow.not_isPending_of_isDeadLetter hdead]
  | withdraw key restingOnly =>
      have hne : r.key ≠ key := ne_of_addressed hfollows haddressed
      refine Or.inl (Table.mem_delete.mpr ⟨hr, ?_⟩)
      simp [Outbox.State.withdrawn, hne]
  | retry event now =>
      by_cases hid : r.id = event
      · refine Or.inr (Or.inl ⟨now, by rw [hid], ?_⟩)
        refine (Table.mem_modify fun r ↦ r.key_reset now).mpr ⟨r, hr, ?_⟩
        simp [Outbox.State.retried, hid, hdead]
      · refine Or.inl (mem_modify_of_false (fun r ↦ r.key_reset now) hr ?_)
        simp [Outbox.State.retried, hid]
  | discard event operator reason photoExists now =>
      left
      simp only [Outbox.State.next, Outbox.State.discard]
      split
      · refine mem_modify_of_false (fun r ↦ r.key_discard now operator reason) hr ?_
        have htype : r.eventType ≠ .notificationPush ∧ r.eventType ≠ .photoDelete := by
          constructor <;> intro htype <;> simp [htype, followsUp] at hfollows
        simp [Outbox.State.discardAllowed, htype.1, htype.2]
      · exact hr
  | purgeDelete selected =>
      by_cases hid : r.id ∈ selected
      · exact Or.inr (Or.inr ⟨selected, rfl, hid⟩)
      · exact Or.inl (Table.mem_delete.mpr ⟨hr, by simpa using hid⟩)
  | dispatch | crash | purgeSelect | purgeAbort => exact Or.inl hr

end Outbox

section Runs

variable {googleId : Uuid → String} {f : FollowUp} {step : FollowUpStep} {db db' : StoreDb}

/-- The row that carries a snapshot once it is accepted. -/
theorem stored_of_applySubscription {s : StoreSnapshot} {owner account newId id : Uuid}
    {encrypted : String} {observedAt : ℤ} {applied : StoreDb}
    (h : db.applySubscription owner account newId encrypted observedAt s =
      .ok (some (applied, id))) :
    applied.outbox = db.outbox ∧
      ∃ row ∈ applied.purchases, row.purchase = s.purchase ∧ row.id = id := by
  unfold StoreDb.applySubscription at h
  split at h
  · rename_i row hrow
    split at h
    · obtain ⟨rfl, rfl⟩ := Prod.mk.inj (Option.some.inj (Except.ok.inj h))
      obtain ⟨hmem, hpurchase⟩ := Table.find?_eq_some_iff.mp hrow
      have hkey : ∀ row : StoreSubscription, (row.refresh encrypted observedAt s).purchase =
        row.purchase := fun _ ↦ rfl
      refine ⟨rfl, row.refresh encrypted observedAt s, ?_, hpurchase, rfl⟩
      exact (Table.mem_modify hkey).mpr ⟨row, hmem, by rw [decide_eq_true hpurchase, if_pos rfl]⟩
    · exact absurd h (by simp)
  · split at h
    · exact absurd h (by simp)
    split at h
    · rename_i purchases hinsert
      obtain ⟨rfl, rfl⟩ := Prod.mk.inj (Option.some.inj (Except.ok.inj h))
      exact ⟨rfl, _, (Table.mem_insert hinsert).mpr (Or.inl rfl), rfl, rfl⟩
    · exact absurd h (by simp)

/-- An applied snapshot that requires an acknowledgement enqueues it for the
row it is stored in. -/
theorem enqueued_apply {s : StoreSnapshot} {encrypted : String} {expectedUser : Option Uuid}
    {observedAt : ℤ} {newId eventId owner : Uuid} {clock : ℤ}
    (h : db.apply s encrypted expectedUser observedAt newId eventId clock = .ok (db', some owner)) :
    ∃ row ∈ db'.purchases, row.purchase = s.purchase ∧
      Enqueued db.outbox db'.outbox
        (if s.acknowledgementRequired then [(.storeAcknowledge, row.id)] else []) := by
  unfold StoreDb.apply at h
  split at h
  · exact absurd h (by simp)
  rename_i owner' howner
  split at h
  · exact absurd h (by simp)
  split at h
  · exact absurd h (by simp)
  split at h
  · exact absurd h (by simp)
  rename_i account haccount
  split at h
  · exact absurd h (by simp)
  split at h
  · exact absurd h (by simp)
  · split at h
    · exact absurd (Prod.mk.inj (Except.ok.inj h)).2 (by simp)
    · exact absurd h (by simp)
  · rename_i applied id hsubscription
    obtain ⟨houtbox, row, hrow, hpurchase, rfl⟩ := stored_of_applySubscription hsubscription
    have hsame : (applied.supersedeLinked owner' account observedAt s).outbox = db.outbox := houtbox
    have hkept : ∃ row' ∈ (applied.supersedeLinked owner' account observedAt s).purchases,
        row'.purchase = s.purchase ∧ row'.id = row.id := by
      refine ⟨_, mem_supersedeLinked.mpr ⟨row, hrow, rfl⟩, ?_⟩
      rw [StoreSubscription.isReplaced_eq_false hpurchase, if_neg Bool.false_ne_true]
      exact ⟨hpurchase, rfl⟩
    obtain ⟨row', hrow', hpurchase', hid⟩ := hkept
    simp only at h
    split at h
    · rename_i hrequired
      obtain ⟨rfl, -⟩ := Prod.mk.inj (Except.ok.inj h)
      refine ⟨row', hrow', hpurchase', ?_⟩
      rw [if_pos hrequired, hid, ← hsame]
      exact enqueued_enqueue _ .storeAcknowledge row.id eventId clock
    · rename_i hrequired
      obtain ⟨rfl, -⟩ := Prod.mk.inj (Except.ok.inj h)
      refine ⟨row', hrow', hpurchase', ?_⟩
      rw [if_neg hrequired, hsame]
      exact .refl db.outbox

theorem outbox_account {userId newId : Uuid} {clock : ℤ} {account : StoreAccount}
    (h : db.account googleId userId newId clock = .ok (db', account)) :
    db'.outbox = db.outbox := by
  unfold StoreDb.account at h
  split at h
  · split at h
    · rw [← (Prod.mk.inj (Except.ok.inj h)).1]
    · split at h
      · exact absurd h (by simp)
      split at h
      · rw [← (Prod.mk.inj (Except.ok.inj h)).1]
      · exact absurd h (by simp)
  · exact absurd h (by simp)

/-- The store tables reach the outbox through their insertions only. -/
theorem enqueued_next (googleId : Uuid → String) (w : Shop) (a : ShopStep) :
    ∃ keys, Enqueued w.db.outbox (Shop.next googleId w a).db.outbox keys := by
  cases a with
  | apply s encrypted expectedUser observedAt newId eventId clock =>
      simp only [Shop.next]
      split
      · rename_i db' owner happly
        obtain ⟨row, _, _, henqueued⟩ := enqueued_apply happly
        exact ⟨_, henqueued⟩
      · rename_i db' happly
        rcases apply_eq_ok happly with ⟨_, rfl, _⟩ | ⟨owner, account, hsome, _⟩
        · exact ⟨[], .refl _⟩
        · exact absurd hsome (by simp)
      · exact ⟨[], .refl _⟩
  | account userId newId clock =>
      refine ⟨[], ?_⟩
      simp only [Shop.next]
      split
      · rename_i db' account haccount
        rw [outbox_account haccount]
        exact .refl _
      · exact .refl _
  | schedule now locked eventIds => exact ⟨_, enqueued_schedule w.db _ eventIds now⟩
  | acknowledged | register | restrict | anonymize => exact ⟨[], .refl _⟩

theorem noneDiscarded_next (h : NoneDiscarded f.shop.db.outbox)
    (henabled : (followUps googleId).Enabled f step) :
    NoneDiscarded ((followUps googleId).next f step).shop.db.outbox := by
  cases step with
  | store a =>
      obtain ⟨keys, henqueued⟩ := enqueued_next googleId f.shop a
      exact h.enqueued henqueued
  | outbox a => exact NoneDiscarded.next (s := f.outbox) h henabled.2

theorem noneDiscarded_of_reachable (h : (followUps googleId).Reachable (· = .empty) f) :
    NoneDiscarded f.shop.db.outbox := by
  refine h.invariant ?_ fun _ _ hs henabled ↦ noneDiscarded_next hs henabled
  rintro _ rfl
  intro r hr
  exact absurd hr (Table.notMem_empty r)

/-- Once a purchase was selected or a snapshot recorded, its event is watched
unless it was a dead letter already; a dead letter waits for an operator, or for
a purge, which has selected the event while it was completed. -/
theorem follow_up_watched_or_dead_letter (h : (followUps googleId).Reachable (· = .empty) f) :
    (∀ now locked eventIds, ∀ id ∈ f.shop.db.dueSubscriptions now locked,
      Followed f.shop.db.outbox
        ((followUps googleId).next f (.store (.schedule now locked eventIds))).shop.db.outbox
        (.storeReconcile, id)) ∧
    (∀ s encrypted expectedUser observedAt newId eventId clock db' owner,
      f.shop.db.apply s encrypted expectedUser observedAt newId eventId clock =
        .ok (db', some owner) → s.acknowledgementRequired = true →
      ((followUps googleId).next f (.store
        (.apply s encrypted expectedUser observedAt newId eventId clock))).shop.db = db' ∧
      ∃ row ∈ db'.purchases, row.purchase = s.purchase ∧
        Followed f.shop.db.outbox db'.outbox (.storeAcknowledge, row.id)) ∧
    (∀ r ∈ f.shop.db.outbox, r.isWatched = true → ∃ t, ∀ window : ClaimWindow,
      t ≤ window.now → t ≤ window.staleBefore → r.claimable window = true) ∧
    (∀ r ∈ f.shop.db.outbox, followsUp r.eventType = true → r.isDeadLetter = true →
      ∀ step, (followUps googleId).Enabled f step →
        r ∈ ((followUps googleId).next f step).shop.db.outbox ∨
        (∃ now, step = .outbox (.retry r.id now) ∧
          ∃ r' ∈ ((followUps googleId).next f step).shop.db.outbox,
            r'.key = r.key ∧ r'.isPending = true) ∨
        ∃ selected, step = .outbox (.purgeDelete selected) ∧ r.id ∈ selected ∧
          selected ∈ f.purges) ∧
    ∀ before limit, ∀ id ∈ purgeable f.shop.db.outbox before limit,
      ∃ r ∈ f.shop.db.outbox, r.id = id ∧
        (followsUp r.eventType = true → r.isCompleted = true) := by
  have hnone := noneDiscarded_of_reachable h
  refine ⟨fun now locked eventIds id hid ↦ ?_, ?_, fun r _ hwatched ↦ ?_, ?_,
    fun before limit id hid ↦ ?_⟩
  · have henqueued := enqueued_schedule f.shop.db (f.shop.db.dueSubscriptions now locked) eventIds now
    exact henqueued.followed hnone (List.mem_map_of_mem hid) rfl
  · intro s encrypted expectedUser observedAt newId eventId clock db' owner happly hrequired
    refine ⟨by simp [followUps, FollowUp.next, Shop.next, happly], ?_⟩
    obtain ⟨row, hrow, hpurchase, henqueued⟩ := enqueued_apply happly
    rw [if_pos hrequired] at henqueued
    exact ⟨row, hrow, hpurchase, henqueued.followed hnone (List.mem_singleton_self _) rfl⟩
  · exact OutboxRow.claimable_of_isWatched hwatched
  · intro r hr hfollows hdead step henabled
    cases step with
    | store a =>
        left
        obtain ⟨keys, henqueued⟩ := enqueued_next googleId f.shop a
        have hopen : r.isCompleted = false := by
          cases hstatus : r.status with
          | deadLetter => simp [OutboxRow.isCompleted, hstatus]
          | pending | processing | completed | discarded =>
              simp [OutboxRow.isDeadLetter, hstatus] at hdead
        have hkept := henqueued.kept r.key r (Table.find?_key hr) hopen
        exact (Table.find?_eq_some_iff.mp hkept).1
    | outbox a =>
        rcases deadLetter_next (s := f.outbox) hr hfollows hdead henabled.2 with
          hstays | ⟨now, rfl, hreset⟩ | ⟨selected, rfl, hselected⟩
        · exact Or.inl hstays
        · refine Or.inr (Or.inl ⟨now, rfl, r.reset now, hreset, r.key_reset now, ?_⟩)
          simp [OutboxRow.isPending, OutboxRow.reset]
        · exact Or.inr (Or.inr ⟨selected, rfl, hselected, henabled.1⟩)
  · obtain ⟨r, hr, hrid, hcompleted | hdiscarded⟩ := mem_purgeable hid
    · exact ⟨r, hr, hrid, fun _ ↦ hcompleted⟩
    · refine ⟨r, hr, hrid, fun hfollows ↦ ?_⟩
      rw [hnone r hr hfollows] at hdiscarded
      exact absurd hdiscarded (by simp)

end Runs

/-- A purchase is scheduled for its check, the verification fails for good, and
the next check comes due. -/
def unverifiable : List FollowUpStep :=
  let task : Outbox.Task := ⟨20, 10, (.storeReconcile, 6), .claimed⟩
  (sampleShop.map .store) ++
    [.store (sampleApply (samplePurchaseOf "first" (uuidText 5) none (days 30)) 0 6),
      .store (.schedule (hours 7) [] fun _ ↦ 10),
      .outbox (.claim 20 ⟨hours 7, hours 6⟩ 10 [] .answered),
      .outbox (.renew task (hours 7) .answered),
      .outbox (.dispatch { task with stage := .renewed } (.failed true)),
      .outbox (.reschedule { task with stage := .failed true } (hours 7) (hours 7)
        "invalid_store_purchase" .answered)]

theorem valid_unverifiable : (followUps uuidText).Valid .empty unverifiable := by decide +kernel

theorem due_check_is_swallowed :
    ¬ ∀ f, (followUps uuidText).Reachable (· = .empty) f → ∀ now locked eventIds,
      (followUps uuidText).Enabled f (.store (.schedule now locked eventIds)) →
      ∀ id ∈ f.shop.db.dueSubscriptions now locked, ∃ r,
        ((followUps uuidText).next f
          (.store (.schedule now locked eventIds))).shop.db.outbox.find? (.storeReconcile, id) =
            some r ∧ r.isWatched = true := by
  intro h
  obtain ⟨r, hr, hwatched⟩ := h _ ⟨.empty, unverifiable, rfl, valid_unverifiable, rfl⟩ (hours 14) []
    (fun _ ↦ 11) (by decide +kernel) 6 (by decide +kernel)
  have hdead : (((followUps uuidText).next ((followUps uuidText).exec .empty unverifiable)
      (.store (.schedule (hours 14) [] fun _ ↦ 11))).shop.db.outbox.find?
        (.storeReconcile, 6)).map OutboxRow.isWatched = some false := by decide +kernel
  rw [hr, Option.map_some, hwatched] at hdead
  exact absurd hdead (by simp)

theorem follow_up_watched_or_dead_letter_unverifiable :
    Followed ((followUps uuidText).exec .empty unverifiable).shop.db.outbox
      ((followUps uuidText).next ((followUps uuidText).exec .empty unverifiable)
        (.store (.schedule (hours 14) [] fun _ ↦ 11))).shop.db.outbox (.storeReconcile, 6) :=
  (follow_up_watched_or_dead_letter
    ⟨.empty, unverifiable, rfl, valid_unverifiable, rfl⟩).1 (hours 14) [] (fun _ ↦ 11) 6
      (by decide +kernel)

end Histae.Billing
