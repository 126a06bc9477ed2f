import Mathlib
import Histae.Relational.Table
import Histae.Shared.Time

/-!
# Rows of the outbox

A row is stored under its event type and aggregate, the conflict target of
every insertion. The columns that the table's checks tie to a status
(`locked_at`, `locked_by`, `processed_at`, `dead_lettered_at`, `resolved_at`,
`resolved_by`, `resolution_reason`) are carried by that status, so that a row
which violates one of these checks cannot be built; the bound on `attempts`
is a field of the row, and the one statement that increments the column
fails where the bound would be broken. The payload is opaque to the outbox
and is left out.
-/

namespace Histae.Outbox

open Relational

inductive OutboxEventType
  | mobileOtpSend
  | photoDelete
  | notificationPush
  | accountErase
  | billingSubscriptionReconcile
  | billingCustomerReconcile
  | storeNotification
  | storeReconcile
  | storeAcknowledge
  | unsupported (value : String)
  deriving DecidableEq

inductive OutboxStatus
  | pending
  | processing (lockedAt : ℤ) (lockedBy : Uuid)
  | completed (processedAt : ℤ)
  | deadLetter (deadLetteredAt : ℤ)
  | discarded (deadLetteredAt resolvedAt : ℤ) (resolvedBy : Option Uuid)
      (resolutionReason : String)
  deriving DecidableEq

structure OutboxRow where
  id : Uuid
  eventType : OutboxEventType
  aggregateId : Uuid
  status : OutboxStatus
  attempts : ℕ
  availableAt : ℤ
  lastErrorCode : Option String
  createdAt : ℤ
  attempts_le : attempts ≤ 100
  deriving DecidableEq

abbrev EventKey := OutboxEventType × Uuid

namespace OutboxRow

def key (r : OutboxRow) : EventKey := (r.eventType, r.aggregateId)

/-- A new row with the defaults of the table. -/
def new (id : Uuid) (key : EventKey) (now availableAt : ℤ) : OutboxRow where
  id := id
  eventType := key.1
  aggregateId := key.2
  status := .pending
  attempts := 0
  availableAt := availableAt
  lastErrorCode := none
  createdAt := now
  attempts_le := Nat.zero_le 100

/-- The assignments shared by `requeue`, the operator's retry and the
insertions of the billing modules that meet a stored event. -/
def reset (availableAt : ℤ) (r : OutboxRow) : OutboxRow :=
  { r with
    status := .pending, attempts := 0, availableAt := availableAt, lastErrorCode := none
    attempts_le := Nat.zero_le 100 }

def claim (now : ℤ) (worker : Uuid) (r : OutboxRow) : OutboxRow :=
  if h : r.attempts + 1 ≤ 100 then
    { r with status := .processing now worker, attempts := r.attempts + 1, attempts_le := h }
  else r

def renew (now : ℤ) (worker : Uuid) (r : OutboxRow) : OutboxRow :=
  { r with status := .processing now worker }

def complete (processedAt : ℤ) (r : OutboxRow) : OutboxRow :=
  { r with status := .completed processedAt, lastErrorCode := none }

def reschedule (now availableAt : ℤ) (errorCode : String) (maxAttempts : ℕ) (r : OutboxRow) :
    OutboxRow :=
  { r with
    status := if maxAttempts ≤ r.attempts then .deadLetter now else .pending
    availableAt := availableAt, lastErrorCode := some errorCode }

def defer (now : ℤ) (r : OutboxRow) : OutboxRow :=
  { r with
    status := .pending, attempts := r.attempts - 1, availableAt := now + seconds 5
    attempts_le := (Nat.sub_le _ _).trans r.attempts_le }

def releaseForNextBatch (now delaySeconds : ℤ) (r : OutboxRow) : OutboxRow :=
  r.reset (now + seconds delaySeconds)

def expedite (now : ℤ) (r : OutboxRow) : OutboxRow := { r with availableAt := now }

def discard (now : ℤ) (operator : Uuid) (reason : String) (r : OutboxRow) : OutboxRow :=
  match r.status with
  | .deadLetter deadLetteredAt =>
      { r with status := .discarded deadLetteredAt now (some operator) reason }
  | _ => r

def heldBy (worker : Uuid) (r : OutboxRow) : Bool :=
  match r.status with
  | .processing _ lockedBy => lockedBy = worker
  | _ => false

def isPending (r : OutboxRow) : Bool := r.status = .pending

def isCompleted (r : OutboxRow) : Bool :=
  match r.status with
  | .completed _ => true
  | _ => false

def isDiscarded (r : OutboxRow) : Bool :=
  match r.status with
  | .discarded .. => true
  | _ => false

def isDeadLetter (r : OutboxRow) : Bool :=
  match r.status with
  | .deadLetter _ => true
  | _ => false

/-- The instant by which `purge_resolved` selects a row. -/
def cleanupAt (r : OutboxRow) : Option ℤ :=
  match r.status with
  | .completed processedAt => some processedAt
  | .discarded _ resolvedAt .. => some resolvedAt
  | _ => none

section Keys

variable (r : OutboxRow)

@[simp] theorem key_new (id : Uuid) (key : EventKey) (now availableAt : ℤ) :
    (new id key now availableAt).key = key := rfl

@[simp] theorem key_reset (t : ℤ) : (r.reset t).key = r.key := rfl

@[simp] theorem key_claim (now : ℤ) (w : Uuid) : (r.claim now w).key = r.key := by
  unfold claim
  split <;> rfl

@[simp] theorem key_renew (now : ℤ) (w : Uuid) : (r.renew now w).key = r.key := rfl

@[simp] theorem key_complete (t : ℤ) : (r.complete t).key = r.key := rfl

@[simp] theorem key_reschedule (now t : ℤ) (code : String) (n : ℕ) :
    (r.reschedule now t code n).key = r.key := rfl

@[simp] theorem key_defer (now : ℤ) : (r.defer now).key = r.key := rfl

@[simp] theorem key_releaseForNextBatch (now t : ℤ) :
    (r.releaseForNextBatch now t).key = r.key := rfl

@[simp] theorem key_expedite (now : ℤ) : (r.expedite now).key = r.key := rfl

@[simp] theorem key_discard (now : ℤ) (w : Uuid) (reason : String) :
    (r.discard now w reason).key = r.key := by
  unfold discard
  split <;> rfl

end Keys

end OutboxRow

structure ClaimWindow where
  now : ℤ
  staleBefore : ℤ

def OutboxRow.claimable (window : ClaimWindow) (r : OutboxRow) : Bool :=
  match r.status with
  | .pending => r.availableAt ≤ window.now
  | .processing lockedAt _ => lockedAt ≤ window.staleBefore
  | _ => false

/-- `ORDER BY available_at, created_at, id`. -/
def OutboxRow.before (r s : OutboxRow) : Bool :=
  r.availableAt < s.availableAt || r.availableAt = s.availableAt &&
    (r.createdAt < s.createdAt || r.createdAt = s.createdAt && r.id ≤ s.id)

abbrev OutboxTable := Table OutboxRow.key

/-- The rows `claim_batch` selects and locks; `locked` are the rows that other
transactions hold, which it skips. -/
def candidates (rows : OutboxTable) (window : ClaimWindow) (limit : ℕ) (locked : List Uuid) :
    List OutboxRow :=
  ((rows.select fun r ↦ r.claimable window && !decide (r.id ∈ locked)).insertionSort
    fun r s ↦ r.before s).take limit

/-- The statement fails as a whole when one increment violates the check. -/
def claimBatch (rows : OutboxTable) (worker : Uuid) (window : ClaimWindow) (limit : ℕ)
    (locked : List Uuid) : Option (OutboxTable × List OutboxRow) :=
  let selected := candidates rows window limit locked
  if selected.all fun r ↦ r.attempts + 1 ≤ 100 then
    some (rows.modify (fun r ↦ r ∈ selected) (OutboxRow.claim window.now worker)
        fun r ↦ r.key_claim window.now worker,
      selected)
  else none

/-- The ids `purge_resolved` selects: the oldest completed and the oldest
discarded rows, at most `limit` of each and of both. -/
def purgeable (rows : OutboxTable) (before : ℤ) (limit : ℕ) : List Uuid :=
  let oldest (p : OutboxRow → Bool) : List (ℤ × Uuid) :=
    ((rows.select fun r ↦ p r && r.cleanupAt.any (· ≤ before)).filterMap
      fun r ↦ r.cleanupAt.map fun t ↦ (t, r.id)).insertionSort
      (fun x y ↦ earlier x y) |>.take limit
  (((oldest OutboxRow.isCompleted ++ oldest OutboxRow.isDiscarded).insertionSort
      (fun x y ↦ earlier x y)).take
    limit).map Prod.snd
where
  earlier (x y : ℤ × Uuid) : Bool := x.1 < y.1 || x.1 = y.1 && x.2 ≤ y.2

theorem mem_candidates {rows : OutboxTable} {window : ClaimWindow} {limit : ℕ}
    {locked : List Uuid} {r : OutboxRow} (h : r ∈ candidates rows window limit locked) :
    r ∈ rows ∧ r.claimable window = true := by
  have hmem := (List.mem_insertionSort _).mp (List.mem_of_mem_take h)
  obtain ⟨hr, hclaimable⟩ := Table.mem_select.mp hmem
  exact ⟨hr, (Bool.and_eq_true_iff.mp hclaimable).1⟩

section ClaimBatch

variable {rows rows' : OutboxTable} {worker : Uuid} {window : ClaimWindow} {limit : ℕ}
  {locked : List Uuid} {selected : List OutboxRow}

theorem claimBatch_eq_some
    (h : claimBatch rows worker window limit locked = some (rows', selected)) :
    selected = candidates rows window limit locked ∧ (∀ r ∈ selected, r.attempts + 1 ≤ 100) ∧
      rows' = rows.modify (fun r ↦ r ∈ selected) (OutboxRow.claim window.now worker)
        fun r ↦ r.key_claim window.now worker := by
  simp only [claimBatch] at h
  split at h
  · rename_i hall
    simp only [Option.some.injEq, Prod.mk.injEq] at h
    obtain ⟨rfl, rfl⟩ := h
    refine ⟨rfl, ?_, rfl⟩
    intro r hr
    simpa using List.all_eq_true.mp hall r hr
  · exact absurd h (by simp)

theorem claimBatch_isSome_iff :
    (claimBatch rows worker window limit locked).isSome ↔
      ∀ r ∈ candidates rows window limit locked, r.attempts + 1 ≤ 100 := by
  simp only [claimBatch]
  split
  · rename_i hall
    simpa using hall
  · rename_i hall
    simpa using hall

end ClaimBatch

theorem mem_purgeable {rows : OutboxTable} {before : ℤ} {limit : ℕ} {id : Uuid}
    (h : id ∈ purgeable rows before limit) :
    ∃ r ∈ rows, r.id = id ∧ (r.isCompleted = true ∨ r.isDiscarded = true) := by
  have holdest : ∀ p : OutboxRow → Bool, ∀ x ∈ ((rows.select fun r ↦
      p r && r.cleanupAt.any (· ≤ before)).filterMap
        fun r ↦ r.cleanupAt.map fun t ↦ (t, r.id)).insertionSort
          (fun x y ↦ purgeable.earlier x y) |>.take limit,
      ∃ r ∈ rows, r.id = x.2 ∧ p r = true := by
    intro p x hx
    have hx := (List.mem_insertionSort _).mp (List.mem_of_mem_take hx)
    obtain ⟨r, hr, hmap⟩ := List.mem_filterMap.mp hx
    obtain ⟨hrow, hp⟩ := Table.mem_select.mp hr
    obtain ⟨t, _, rfl⟩ := Option.map_eq_some_iff.mp hmap
    exact ⟨r, hrow, rfl, (Bool.and_eq_true_iff.mp hp).1⟩
  obtain ⟨x, hx, rfl⟩ := List.mem_map.mp h
  rcases List.mem_append.mp ((List.mem_insertionSort _).mp (List.mem_of_mem_take hx)) with hx | hx
  · obtain ⟨r, hr, hid, hp⟩ := holdest _ x hx
    exact ⟨r, hr, hid, Or.inl hp⟩
  · obtain ⟨r, hr, hid, hp⟩ := holdest _ x hx
    exact ⟨r, hr, hid, Or.inr hp⟩

end Histae.Outbox
