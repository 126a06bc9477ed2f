import Histae.Matches.Listing
import Histae.Matches.Lifecycle

/-!
# The ageing of matches

The list, the lock of a request and the maintenance statements each let a
match age. `agedAt` states the common rule: the list shows it, the lock writes
it, and maintenance that ran earlier does not change it.
-/

namespace Histae.Matches

open Relational Paging

/-- The status and the deadline of a match at the instant `t`. -/
def MatchRecord.agedAt (t : ℤ) (m : MatchRecord) : MatchStatus × ℤ :=
  match m.status with
  | .active =>
      if t < m.expiresAt then (.active, m.expiresAt)
      else if t < m.expiresAt + hours matchWindowHours then
        (.awaitingContinuation, m.expiresAt + hours matchWindowHours)
      else (.expired, m.expiresAt + hours matchWindowHours)
  | .awaitingContinuation =>
      if t < m.expiresAt then (.awaitingContinuation, m.expiresAt) else (.expired, m.expiresAt)
  | .confirmed => if t < m.expiresAt then (.confirmed, m.expiresAt) else (.ended, m.expiresAt)
  | .expired => (.expired, m.expiresAt)
  | .ended => (.ended, m.expiresAt)

section Rule

variable {T t : ℤ} {m m' : MatchRecord}

/-- What a maintenance statement with the captured time `T` does to a row. -/
inductive Ages (T : ℤ) (m : MatchRecord) : MatchRecord → Prop
  | kept : Ages T m m
  | opened (hstatus : m.status = .active) (hdue : m.expiresAt ≤ T) : Ages T m m.opened
  | expired (purgeAfter : ℤ) (hstatus : m.status = .awaitingContinuation)
      (hdue : m.expiresAt ≤ T) : Ages T m (m.expiredUntil purgeAfter)
  | closed (now : ℤ) (hstatus : m.status = .confirmed) (hdue : m.expiresAt ≤ T) :
      Ages T m (m.closedAt now)

theorem Ages.agedAt (h : Ages T m m') (hT : T ≤ t) : m'.agedAt t = m.agedAt t := by
  cases h with
  | kept => rfl
  | opened hstatus hdue =>
      have hlate : ¬ t < m.expiresAt := by omega
      by_cases hwait : t < m.expiresAt + hours matchWindowHours <;>
        simp [MatchRecord.agedAt, MatchRecord.opened, hstatus, hlate, hwait]
  | expired purgeAfter hstatus hdue =>
      have hlate : ¬ t < m.expiresAt := by omega
      simp [MatchRecord.agedAt, MatchRecord.expiredUntil, hstatus, hlate]
  | closed now hstatus hdue =>
      have hlate : ¬ t < m.expiresAt := by omega
      simp [MatchRecord.agedAt, MatchRecord.closedAt, hstatus, hlate]

theorem Ages.sameIdentity (h : Ages T m m') : SameIdentity m m' := by
  cases h <;> exact ⟨rfl, rfl, rfl, rfl⟩

/-- The projection of the list follows the rule for every row it shows. -/
theorem projectedAt_eq_agedAt (h : (m.agedAt t).1 ≠ .ended) :
    ((m.projectedAt t).status, (m.projectedAt t).expiresAt) = m.agedAt t := by
  have hwindow : 0 < hours matchWindowHours := by decide
  cases hstatus : m.status with
  | active =>
      by_cases hopen : t < m.expiresAt
      · simp [MatchRecord.projectedAt, MatchRecord.agedAt, hstatus, hopen, not_le.mpr hopen]
      · by_cases hwait : t < m.expiresAt + hours matchWindowHours
        · simp [MatchRecord.projectedAt, MatchRecord.agedAt, hstatus, hopen, not_lt.mp hopen, hwait,
            not_le.mpr hwait]
        · simp [MatchRecord.projectedAt, MatchRecord.agedAt, hstatus, hopen, not_lt.mp hopen, hwait,
            not_lt.mp hwait]
  | awaitingContinuation =>
      by_cases hopen : t < m.expiresAt
      · simp [MatchRecord.projectedAt, MatchRecord.agedAt, hstatus, hopen, not_le.mpr hopen]
      · simp [MatchRecord.projectedAt, MatchRecord.agedAt, hstatus, hopen, not_lt.mp hopen]
  | confirmed =>
      by_cases hopen : t < m.expiresAt
      · simp [MatchRecord.projectedAt, MatchRecord.agedAt, hstatus, hopen]
      · simp [MatchRecord.agedAt, hstatus, hopen] at h
  | expired => simp [MatchRecord.projectedAt, MatchRecord.agedAt, hstatus]
  | ended => simp [MatchRecord.agedAt, hstatus] at h

theorem agedAt_ne_ended_iff : (m.agedAt t).1 ≠ .ended ↔
    m.status ≠ .ended ∧ (m.status ≠ .confirmed ∨ t < m.expiresAt) := by
  cases hstatus : m.status with
  | active =>
      by_cases hopen : t < m.expiresAt
      · simp [MatchRecord.agedAt, hstatus, hopen]
      · by_cases hwait : t < m.expiresAt + hours matchWindowHours <;>
          simp [MatchRecord.agedAt, hstatus, hopen, hwait]
  | awaitingContinuation =>
      by_cases hopen : t < m.expiresAt <;> simp [MatchRecord.agedAt, hstatus, hopen]
  | confirmed => by_cases hopen : t < m.expiresAt <;> simp [MatchRecord.agedAt, hstatus, hopen]
  | expired => simp [MatchRecord.agedAt, hstatus]
  | ended => simp [MatchRecord.agedAt, hstatus]

end Rule

section Lock

variable {db : Db} {userId : Uuid} {t : ℤ} {m : MatchRecord}

/-- The row of a match after an update of that match. -/
theorem find?_updateMatch {clock : ℤ} {f : MatchRecord → MatchRecord} (hf : ∀ m, (f m).id = m.id)
    (hm : m ∈ db.matchInit) (htrack : trackMatchInactivity clock m (f m) = f m) :
    (updateMatch db clock (fun n ↦ n.id = m.id) f hf).matchInit.find? m.id = some (f m) := by
  refine Table.find?_eq_some_iff.mpr ⟨(mem_updateMatch hf).mpr ⟨m, hm, ?_⟩, hf m⟩
  rw [if_pos (by simp), htrack]

/-- The lock leaves the aged row in the table. -/
theorem lockAvailableMatch_agedAt (h : accessibleMatch db m.id userId = some m) :
    ∃ n, (lockAvailableMatch db m.id userId t).2.matchInit.find? m.id = some n ∧
      (n.status, n.expiresAt) = m.agedAt t := by
  obtain ⟨hm, _, _, _⟩ := accessibleMatch_eq_some h
  have hwindow : 0 < hours matchWindowHours := by decide
  have hfind : db.matchInit.find? m.id = some m := Table.find?_key hm
  have hkept : ∀ n : MatchRecord, (n.expiredUntil (t + days matchPurgeDays)).id = n.id :=
    fun _ ↦ rfl
  have houtcome := lockAvailableMatch_outcome db m.id userId t
  generalize (lockAvailableMatch db m.id userId t).1 = result at houtcome
  generalize (lockAvailableMatch db m.id userId t).2 = db' at houtcome ⊢
  cases houtcome with
  | notFound hnone =>
      rw [h] at hnone
      cases hnone
  | closed n hn hstatus hdue =>
      obtain rfl : m = n := Option.some.inj (h.symm.trans hn)
      refine ⟨m.closedAt t, find?_updateMatch _ hm (trackMatchInactivity_closedAt ..), ?_⟩
      simp [MatchRecord.agedAt, MatchRecord.closedAt, hstatus, not_lt.mpr hdue]
  | openedExpired n hn hstatus hdue =>
      obtain rfl : m = n := Option.some.inj (h.symm.trans hn)
      have hopened : m.opened ∈ (openWindow db m.id t).matchInit := mem_openWindow hm rfl
      refine ⟨m.opened.expiredUntil (t + days matchPurgeDays),
        find?_updateMatch hkept hopened (trackMatchInactivity_expiredUntil ..), ?_⟩
      have hexpiry : m.opened.expiresAt = m.expiresAt + hours matchWindowHours := rfl
      have hfirst : ¬ t < m.expiresAt := by omega
      simp [MatchRecord.agedAt, MatchRecord.expiredUntil, MatchRecord.opened, hstatus, hfirst,
        not_lt.mpr (hexpiry ▸ hdue)]
  | opened n hn hstatus hdue hopen =>
      obtain rfl : m = n := Option.some.inj (h.symm.trans hn)
      refine ⟨m.opened, Table.find?_eq_some_iff.mpr ⟨mem_openWindow hm rfl, rfl⟩, ?_⟩
      have hwait : t < m.expiresAt + hours matchWindowHours := hopen
      simp [MatchRecord.agedAt, MatchRecord.opened, hstatus, not_lt.mpr hdue, hwait]
  | expired n hn hstatus hdue =>
      obtain rfl : m = n := Option.some.inj (h.symm.trans hn)
      refine ⟨m.expiredUntil (t + days matchPurgeDays),
        find?_updateMatch hkept hm (trackMatchInactivity_expiredUntil ..), ?_⟩
      simp [MatchRecord.agedAt, MatchRecord.expiredUntil, hstatus, not_lt.mpr hdue]
  | finished n hn hstatus =>
      obtain rfl : m = n := Option.some.inj (h.symm.trans hn)
      refine ⟨m, hfind, ?_⟩
      cases hs : m.status <;> simp_all [MatchRecord.agedAt, isLive]
  | live n hn hstatus hopen =>
      obtain rfl : m = n := Option.some.inj (h.symm.trans hn)
      refine ⟨m, hfind, ?_⟩
      cases hs : m.status <;> simp_all [MatchRecord.agedAt, isLive]

end Lock

/-- The maintenance statements that let matches age. -/
inductive AgeingStep
  | openContinuationWindows (pass : Pass)
  | expireContinuationWindows (pass : Pass)
  | closeInactiveMatches (pass : Pass)

namespace AgeingStep

def pass : AgeingStep → Pass
  | openContinuationWindows pass | expireContinuationWindows pass | closeInactiveMatches pass => pass

def apply (db : Db) : AgeingStep → Db
  | openContinuationWindows pass => (Matches.openContinuationWindows db pass).2
  | expireContinuationWindows pass => (Matches.expireContinuationWindows db pass).2
  | closeInactiveMatches pass => (Matches.closeInactiveMatches db pass).2

def run (db : Db) (steps : List AgeingStep) : Db := steps.foldl apply db

/-- Everything an ageing statement changes is the match table. -/
theorem apply_frame (db : Db) (step : AgeingStep) :
    (step.apply db).accounts = db.accounts ∧ (step.apply db).blocks = db.blocks := by
  cases step <;> exact ⟨rfl, rfl⟩

theorem mem_apply {db : Db} {step : AgeingStep} {m : MatchRecord} (hm : m ∈ db.matchInit) :
    ∃ m' ∈ (step.apply db).matchInit, Ages step.pass.now m m' := by
  cases step with
  | openContinuationWindows pass =>
      have hid : ∀ m : MatchRecord, m.opened.id = m.id := fun _ ↦ rfl
      refine ⟨_, (mem_updateMatch hid).mpr ⟨m, hm, rfl⟩, ?_⟩
      split
      · rename_i hp
        obtain ⟨hstatus, hdue⟩ := due_of_mem_dueMatches hm (by simpa using hp)
        rw [trackMatchInactivity_opened]
        exact .opened hstatus hdue
      · exact .kept
  | expireContinuationWindows pass =>
      have hid : ∀ m : MatchRecord,
          (m.expiredUntil (pass.now + days matchPurgeDays)).id = m.id := fun _ ↦ rfl
      refine ⟨_, (mem_updateMatch hid).mpr ⟨m, hm, rfl⟩, ?_⟩
      split
      · rename_i hp
        obtain ⟨hstatus, hdue⟩ := due_of_mem_dueMatches hm (by simpa using hp)
        rw [trackMatchInactivity_expiredUntil]
        exact .expired _ hstatus hdue
      · exact .kept
  | closeInactiveMatches pass =>
      have hid : ∀ m : MatchRecord, (m.closedAt pass.now).id = m.id := fun _ ↦ rfl
      refine ⟨_, (mem_updateMatch hid).mpr ⟨m, hm, rfl⟩, ?_⟩
      split
      · rename_i hp
        obtain ⟨hstatus, hdue⟩ := due_of_mem_dueMatches hm (by simpa using hp)
        rw [trackMatchInactivity_closedAt]
        exact .closed _ hstatus hdue
      · exact .kept

end AgeingStep

/-- The match is stored, the user takes part in it, and neither accounts nor
blocks hide it. -/
structure Open (db : Db) (userId : Uuid) (m : MatchRecord) : Prop where
  mem : m ∈ db.matchInit
  participant : m.isParticipant userId = true
  first : (db.accounts.find? m.user1Id).any (fun a ↦ a.deletedAt.isNone) = true
  second : (db.accounts.find? m.user2Id).any (fun a ↦ a.deletedAt.isNone) = true
  unblocked : db.blocked m.user1Id m.user2Id = false

/-- The list and the lock at `t` agree that the match has aged to `aged`. -/
structure AgedTo (db : Db) (userId matchId : Uuid) (t : ℤ) (aged : MatchStatus × ℤ) : Prop where
  locked : ∃ n, (lockAvailableMatch db matchId userId t).2.matchInit.find? matchId = some n ∧
    (n.status, n.expiresAt) = aged
  hidden : (¬ ∃ row ∈ visibleRows db userId t, row.1.id = matchId) ↔ aged.1 = .ended
  reported : ∀ codec urlForKey profiles limit offset raw answer,
    list codec urlForKey profiles db userId limit offset raw t t = .ok answer →
      ∀ item ∈ answer.items, item.id = matchId →
        item.status = aged.1 ∧ item.expiresAt = wireTimestamp aged.2

section Agreement

variable {db : Db} {userId : Uuid} {t : ℤ} {m : MatchRecord}

theorem Db.blocked_comm (db : Db) (first second : Uuid) :
    db.blocked first second = db.blocked second first := Bool.or_comm _ _

theorem not_isSome_deletedAt {db : Db} {user : Uuid}
    (h : (db.accounts.find? user).any (fun a ↦ a.deletedAt.isNone) = true) :
    ((db.accounts.find? user).any fun a ↦ a.deletedAt.isSome) = false := by
  cases hfind : db.accounts.find? user with
  | none => rfl
  | some a =>
      rw [hfind] at h
      simpa using h

theorem Open.accessible (h : Open db userId m) : accessibleMatch db m.id userId = some m := by
  refine Option.filter_eq_some_iff.mpr ⟨Table.find?_key h.mem, ?_⟩
  have hdeleted : db.anyDeleted [m.user1Id, m.user2Id] = false := by
    simp [Db.anyDeleted, not_isSome_deletedAt h.first, not_isSome_deletedAt h.second]
  simp [h.participant, h.unblocked, hdeleted]

theorem isListed_iff {otherId : Uuid}
    (haccount : (db.accounts.find? otherId).any (fun a ↦ a.deletedAt.isNone) = true)
    (hblock : db.blocked userId otherId = false) :
    isListed db userId t otherId m = true ↔ (m.agedAt t).1 ≠ .ended := by
  rw [agedAt_ne_ended_iff]
  simp [isListed, haccount, hblock]

/-- An open match is visible exactly when it has not aged to its end. -/
theorem Open.visible_iff (h : Open db userId m) :
    (∃ row ∈ visibleRows db userId t, row.1.id = m.id) ↔ (m.agedAt t).1 ≠ .ended := by
  constructor
  · rintro ⟨row, hrow, hid⟩
    rw [visibleRows, List.mem_append, mem_firstBranch, mem_secondBranch] at hrow
    rcases hrow with ⟨⟨hmem, huser, hother⟩, hlisted, _⟩ | ⟨⟨hmem, huser, hother⟩, hlisted, _⟩
    · obtain hm := Table.eq_of_key_eq hmem h.mem hid
      rw [hother, hm] at hlisted
      rw [hm] at huser
      exact (isListed_iff h.second (huser ▸ h.unblocked)).mp hlisted
    · obtain hm := Table.eq_of_key_eq hmem h.mem hid
      rw [hother, hm] at hlisted
      rw [hm] at huser
      exact (isListed_iff h.first (huser ▸ (db.blocked_comm _ _).trans h.unblocked)).mp hlisted
  · intro hne
    have hparticipant : m.user1Id = userId ∨ m.user2Id = userId := by
      simpa [MatchRecord.isParticipant] using h.participant
    rcases hparticipant with huser | huser
    · refine ⟨(m, m.user2Id), List.mem_append_left _ (mem_firstBranch.mpr ?_), rfl⟩
      exact ⟨⟨h.mem, huser, rfl⟩,
        (isListed_iff h.second (huser ▸ h.unblocked)).mpr hne, rfl⟩
    · refine ⟨(m, m.user1Id), List.mem_append_right _ (mem_secondBranch.mpr ?_), rfl⟩
      exact ⟨⟨h.mem, huser, rfl⟩, (isListed_iff h.first
        (huser ▸ (db.blocked_comm _ _).trans h.unblocked)).mpr hne, rfl⟩

theorem Open.agedTo (h : Open db userId m) : AgedTo db userId m.id t (m.agedAt t) where
  locked := lockAvailableMatch_agedAt h.accessible
  hidden := by
    rw [h.visible_iff]
    exact not_not
  reported codec urlForKey profiles limit offset raw answer hlist item hitem hid := by
    obtain ⟨row, hrow, hrowId, hstatus, hexpiry⟩ := row_of_list hlist hitem
    have hvisible := h.visible_iff.mp ⟨row, hrow, hrowId.symm.trans hid⟩
    have hmem : row.1 ∈ db.matchInit := by
      rw [visibleRows, List.mem_append, mem_firstBranch, mem_secondBranch] at hrow
      rcases hrow with ⟨⟨hmem, _⟩, _⟩ | ⟨⟨hmem, _⟩, _⟩ <;> exact hmem
    rw [Table.eq_of_key_eq hmem h.mem (hrowId.symm.trans hid)] at hstatus hexpiry
    have hprojected := projectedAt_eq_agedAt hvisible
    rw [hstatus, hexpiry, ← hprojected]
    exact ⟨rfl, rfl⟩

theorem Open.run (h : Open db userId m) {steps : List AgeingStep}
    (hsteps : ∀ step ∈ steps, step.pass.now ≤ t) :
    ∃ m', Open (AgeingStep.run db steps) userId m' ∧ m'.id = m.id ∧ m'.agedAt t = m.agedAt t := by
  induction steps generalizing db m with
  | nil => exact ⟨m, h, rfl, rfl⟩
  | cons step rest ih =>
      obtain ⟨haccounts, hblocks⟩ := step.apply_frame db
      obtain ⟨m₁, hm₁, hages⟩ := (AgeingStep.mem_apply h.mem : ∃ m' ∈ (step.apply db).matchInit, Ages step.pass.now m m')
      have hsame := hages.sameIdentity
      have hopen : Open (step.apply db) userId m₁ := by
        refine ⟨hm₁, ?_, ?_, ?_, ?_⟩
        · rw [MatchRecord.isParticipant, hsame.user1Id, hsame.user2Id]
          exact h.participant
        · rw [haccounts, hsame.user1Id]
          exact h.first
        · rw [haccounts, hsame.user2Id]
          exact h.second
        · rw [Db.blocked, hblocks, hsame.user1Id, hsame.user2Id]
          exact h.unblocked
      obtain ⟨m', hm', hid, haged⟩ :=
        ih hopen fun step hstep ↦ hsteps step (List.mem_cons_of_mem _ hstep)
      have hstep := hages.agedAt (hsteps step List.mem_cons_self)
      exact ⟨m', hm', hid.trans hsame.id, haged.trans hstep⟩

/-- The list and the lock agree on every open match at every instant, and no
maintenance that ran before changes their answer. -/
theorem ageing_agrees (db : Db) (userId : Uuid) (m : MatchRecord) (h : Open db userId m) (t : ℤ) :
    ∃ aged, AgedTo db userId m.id t aged ∧
      ∀ steps : List AgeingStep, (∀ step ∈ steps, step.pass.now ≤ t) →
        AgedTo (AgeingStep.run db steps) userId m.id t aged := by
  refine ⟨m.agedAt t, h.agedTo, fun steps hsteps ↦ ?_⟩
  obtain ⟨m', hm', hid, haged⟩ := h.run hsteps
  rw [← hid, ← haged]
  exact hm'.agedTo

end Agreement

/-- One match of the two accounts, six hours into its decision window. -/
theorem ageing_agrees_pair :
    ∃ aged, AgedTo { pairDb with matchInit := ⟨[mutualLikeRecord 7 1 2 0], by decide⟩ } 1 7
      (hours 30) aged := by
  have hopen : Open { pairDb with matchInit := ⟨[mutualLikeRecord 7 1 2 0], by decide⟩ } 1
      (mutualLikeRecord 7 1 2 0) :=
    ⟨List.mem_singleton.mpr rfl, by decide, by decide, by decide, by decide⟩
  obtain ⟨aged, haged, _⟩ := ageing_agrees _ _ _ hopen (hours 30)
  exact ⟨aged, haged⟩

end Histae.Matches
