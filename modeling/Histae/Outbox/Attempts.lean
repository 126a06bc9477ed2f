import Mathlib
import Histae.Outbox.Workers

/-!
# The attempts of an event

Rescheduling retires an event long before its hundredth attempt, and every
other way back to `pending` lowers the counter or resets it. A pending row
can therefore always be claimed once more. The reclaim of a stale
`processing` row increments the counter as well, and nothing bounds how
often an event is reclaimed in this way; it is the only way in which a claim
can meet the check of the column.
-/

namespace Histae.Outbox

open Relational Systems

/-- A pending row has not used its last attempt. -/
def OutboxRow.Claimable (r : OutboxRow) : Prop := r.isPending = true → r.attempts < 100

/-- A row that was claimed for the hundredth time and not given back. -/
def OutboxRow.Exhausted (r : OutboxRow) : Prop :=
  (∃ lockedAt lockedBy, r.status = .processing lockedAt lockedBy) ∧ r.attempts = 100

namespace OutboxRow

variable {r : OutboxRow}

theorem claimable_of_not_pending (h : r.isPending = false) : r.Claimable := by
  intro hpending
  rw [h] at hpending
  exact absurd hpending (by simp)

theorem Claimable.claim (h : r.Claimable) (now : ℤ) (w : Uuid) : (r.claim now w).Claimable := by
  unfold OutboxRow.claim
  split
  · exact claimable_of_not_pending (by simp [isPending])
  · exact h

theorem claimable_reset (t : ℤ) : (r.reset t).Claimable := fun _ ↦ by simp [reset]

theorem claimable_reschedule (now t : ℤ) (code : String) {n : ℕ} (hn : n ≤ 100) :
    (r.reschedule now t code n).Claimable := by
  intro hpending
  by_cases hle : n ≤ r.attempts
  · simp [isPending, reschedule, hle] at hpending
  · exact lt_of_lt_of_le (not_le.mp hle) hn

theorem claimable_defer (now : ℤ) : (r.defer now).Claimable := by
  intro _
  have hle := r.attempts_le
  simp only [defer]
  omega

theorem Claimable.discard (h : r.Claimable) (now : ℤ) (w : Uuid) (reason : String) :
    (r.discard now w reason).Claimable := by
  unfold OutboxRow.discard
  split
  · exact claimable_of_not_pending (by simp [isPending])
  · exact h

end OutboxRow

def Claimable (rows : OutboxTable) : Prop := ∀ r ∈ rows, r.Claimable

namespace Claimable

variable {rows : OutboxTable} {p : OutboxRow → Bool} {f : OutboxRow → OutboxRow}

theorem modify (h : Claimable rows) (hf : ∀ r, (f r).key = r.key)
    (hclaimable : ∀ r, r.Claimable → (f r).Claimable) : Claimable (rows.modify p f hf) := by
  intro r hr
  obtain ⟨q, hq, rfl⟩ := (Table.mem_modify hf).mp hr
  by_cases hp : p q = true
  · simpa [hp] using hclaimable q (h q hq)
  · simpa [hp] using h q hq

theorem delete (h : Claimable rows) : Claimable (rows.delete p) := by
  intro r hr
  exact h r (Table.mem_delete.mp hr).1

variable {s : State}

theorem write (h : Claimable s.rows) {task : Task} {report : Report}
    (hf : ∀ r, (f r).key = r.key) (hclaimable : ∀ r, r.Claimable → (f r).Claimable) :
    Claimable (s.write task report f hf) := by
  unfold State.write
  split
  · exact h.modify hf hclaimable
  · exact h

theorem insert (h : Claimable s.rows) {row : OutboxRow} (hrow : row.Claimable) (t : ℤ) :
    Claimable (s.insert row p t) := by
  intro r hr
  have hfind := Table.find?_key hr
  rw [State.insert, Table.find?_upsert] at hfind
  split at hfind
  · cases hold : s.rows.find? r.key with
    | none =>
        rw [hold, Option.map_none, Option.getD_none] at hfind
        exact Option.some.inj hfind ▸ hrow
    | some q =>
        rw [hold, Option.map_some, Option.getD_some] at hfind
        rw [← Option.some.inj hfind]
        split
        · exact OutboxRow.claimable_reset t
        · exact h q (Table.find?_eq_some_iff.mp hold).1
  · exact h r (Table.find?_eq_some_iff.mp hfind).1

theorem next (h : Claimable s.rows) (a : Action) : Claimable (s.next a).rows := by
  have hnew : ∀ id key now t, (OutboxRow.new id key now t).Claimable := fun _ _ _ _ _ ↦ by
    simp [OutboxRow.new]
  cases a with
  | claim worker window limit locked report =>
      simp only [State.next, State.claim]
      split
      · exact h
      · exact h
      · rename_i hclaim
        obtain ⟨_, _, rfl⟩ := claimBatch_eq_some hclaim
        exact h.modify (fun r ↦ r.key_claim window.now worker)
          fun r hr ↦ hr.claim window.now worker
  | renew task now report =>
      exact h.write _ fun r _ ↦ OutboxRow.claimable_of_not_pending
        (by simp [OutboxRow.isPending, OutboxRow.renew])
  | complete task processedAt report =>
      exact h.write _ fun r _ ↦ OutboxRow.claimable_of_not_pending
        (by simp [OutboxRow.isPending, OutboxRow.complete])
  | reschedule task now availableAt errorCode report =>
      refine h.write _ fun r _ ↦ OutboxRow.claimable_reschedule now availableAt errorCode ?_
      split <;> decide
  | defer task now => exact h.write _ fun r _ ↦ OutboxRow.claimable_defer now
  | releaseForNextBatch task now delay => exact h.write _ fun r _ ↦ OutboxRow.claimable_reset _
  | enqueue id key now => exact h.insert (hnew id key now now) now
  | requeue id key now => exact h.insert (hnew id key now now) now
  | revive id key now availableAt discardedToo =>
      exact h.insert (hnew id key now availableAt) availableAt
  | expedite key now => exact h.modify (fun r ↦ r.key_expedite now) fun r hr ↦ hr
  | withdraw key restingOnly => exact h.delete
  | retry event now => exact h.modify (fun r ↦ r.key_reset now) fun r _ ↦ OutboxRow.claimable_reset now
  | discard event operator reason photoExists now =>
      simp only [State.next, State.discard]
      split
      · exact h.modify (fun r ↦ r.key_discard now operator reason)
          fun r hr ↦ hr.discard now operator reason
      · exact h
  | purgeDelete selected => exact h.delete
  | dispatch | crash | purgeSelect | purgeAbort => exact h

end Claimable

/-- In every reachable state a claim fails exactly when its selection meets a
stale `processing` row that was already claimed a hundred times. -/
theorem claimBatch_succeeds_iff {as : List Action} (h : system.Valid .empty as) (worker : Uuid)
    (window : ClaimWindow) (limit : ℕ) (locked : List Uuid) :
    (claimBatch (system.exec .empty as).rows worker window limit locked).isSome ↔
      ∀ r ∈ candidates (system.exec .empty as).rows window limit locked, ¬ r.Exhausted := by
  have hclaimable : Claimable (system.exec .empty as).rows :=
    h.invariant (I := fun s ↦ Claimable s.rows) (fun r hr ↦ absurd hr (Table.notMem_empty r))
      fun s a hs _ ↦ hs.next a
  rw [claimBatch_isSome_iff]
  refine forall₂_congr fun r hr ↦ ?_
  obtain ⟨hrow, hselected⟩ := mem_candidates hr
  have hle := r.attempts_le
  constructor
  · rintro hlt ⟨_, hfull⟩
    omega
  · intro hnot
    cases hstatus : r.status with
    | pending =>
        have hlt := hclaimable r hrow (by simp [OutboxRow.isPending, hstatus])
        omega
    | processing lockedAt lockedBy =>
        by_contra hfull
        exact hnot ⟨⟨lockedAt, lockedBy, hstatus⟩, by omega⟩
    | completed t => simp [OutboxRow.claimable, hstatus] at hselected
    | deadLetter t => simp [OutboxRow.claimable, hstatus] at hselected
    | discarded t t' w reason => simp [OutboxRow.claimable, hstatus] at hselected

section Runs

def pollAt (now : ℤ) : ClaimWindow := ⟨now, now - minutes 5⟩

/-- A worker claims and crashes, and once the lock is stale the next worker
does the same. -/
def crashLoop (n : ℕ) : List Action :=
  .enqueue 100 (.accountErase, 7) 0 :: (List.range n).flatMap fun i ↦
    [.claim (.ofNat 128 i) (pollAt (minutes (6 * i))) 50 [] .answered, .crash (.ofNat 128 i)]

theorem claimBatch_succeeds_iff_crashLoop :
    system.Valid .empty (crashLoop 3) ∧
      (claimBatch (system.exec .empty (crashLoop 3)).rows 3 (pollAt (minutes 18)) 50 []).isSome :=
  ⟨by decide +kernel, (claimBatch_succeeds_iff (by decide +kernel) 3 (pollAt (minutes 18)) 50 []).mpr
    (by
      intro r hr hfull
      have hall : ∀ r ∈ candidates (system.exec .empty (crashLoop 3)).rows
          (pollAt (minutes 18)) 50 [], r.attempts ≠ 100 := by decide +kernel
      exact hall r hr hfull.2)⟩

/-- The 101st claim of an event whose workers keep crashing fails, and with it
the claim of every other event of the batch. -/
theorem crashLoop_blocks_claimBatch :
    system.Valid .empty (crashLoop 100) ∧
      claimBatch (system.exec .empty (crashLoop 100)).rows 100 (pollAt (minutes 600)) 50 [] =
        none := by
  refine ⟨by decide +kernel, ?_⟩
  rw [← Option.not_isSome_iff_eq_none]
  decide +kernel

end Runs

end Histae.Outbox
