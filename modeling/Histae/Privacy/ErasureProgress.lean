import Mathlib
import Histae.Privacy.ErasureRuns

/-!
# An erasure moves forward

A batch that is not full has selected everything that is left, and nothing is
added to a deleted account. The end of the photo and of the swipe step is read
off the number of rows that a statement has changed: the number is right when
every selected row was still there, or when nothing else was left.
-/

namespace Histae.Privacy

open Relational Outbox Systems

def ErasureStep.following : ErasureStep → Option ErasureStep
  | .stripe => some .photos
  | .photos => some .swipes
  | .swipes => some .postgres
  | .postgres => some .completed
  | .completed => none

namespace PrivacyDb

variable {db db' : PrivacyDb} {userId : Uuid} {limit : ℕ}

section Batches

theorem take_eq_self {α : Type} {l : List α} {n : ℕ} (h : (l.take n).length < n) :
    l.take n = l := by
  rw [List.length_take] at h
  exact List.take_of_length_le (by omega)

theorem mem_photoBatch (h : (db.photoBatch userId limit).length < limit) {p : UserPhoto}
    (hp : p ∈ db.photos) (huser : p.userId = userId) : p.id ∈ db.photoBatch userId limit := by
  unfold photoBatch at h ⊢
  rw [List.length_map] at h
  rw [take_eq_self h]
  refine List.mem_map_of_mem ((List.perm_insertionSort _ _).mem_iff.mpr ?_)
  exact Table.mem_select.mpr ⟨hp, by simpa using huser⟩

theorem nodup_photoBatch : (db.photoBatch userId limit).Nodup := by
  have hkeys : ((db.photos.select fun p ↦ p.userId = userId).map UserPhoto.id).Nodup :=
    db.photos.nodup.sublist (List.filter_sublist.map _)
  have hsorted := ((List.perm_insertionSort (fun p p' : UserPhoto ↦ p.id ≤ p'.id)
    (db.photos.select fun p ↦ p.userId = userId)).map UserPhoto.id).nodup_iff.mpr hkeys
  exact hsorted.sublist ((List.take_sublist _ _).map _)

theorem mem_swipeBatch (h : (db.swipeBatch userId limit).length < limit) {w : SwipeDecision}
    (hw : w ∈ db.swipes) (hconcerns : w.concerns userId = true) :
    w.pair ∈ db.swipeBatch userId limit := by
  simp only [swipeBatch, List.length_map] at h ⊢
  have hboth := take_eq_self h
  rw [hboth] at h ⊢
  rw [List.length_append] at h
  rw [take_eq_self (by omega), take_eq_self (by omega)]
  refine List.mem_map_of_mem (List.mem_append.mpr ?_)
  rw [(List.perm_insertionSort _ _).mem_iff, (List.perm_insertionSort _ _).mem_iff, Table.mem_select,
    Table.mem_select]
  rw [SwipeDecision.concerns, Bool.or_eq_true] at hconcerns
  exact hconcerns.imp (fun hactor ↦ ⟨hw, hactor⟩) fun htarget ↦ ⟨hw, htarget⟩

theorem nodup_swipeBatch : (db.swipeBatch userId limit).Nodup := by
  have hkeys : ∀ (q : SwipeDecision → Bool) (le : SwipeDecision → SwipeDecision → Prop)
      [DecidableRel le],
      ((((db.swipes.select q).insertionSort le).take limit).map SwipeDecision.pair).Nodup := by
    intro q le _
    have hselected : ((db.swipes.select q).map SwipeDecision.pair).Nodup :=
      db.swipes.nodup.sublist (List.filter_sublist.map _)
    have hsorted := ((List.perm_insertionSort le (db.swipes.select q)).map
      SwipeDecision.pair).nodup_iff.mpr hselected
    exact hsorted.sublist ((List.take_sublist _ _).map _)
  simp only [swipeBatch]
  refine List.Nodup.sublist ((List.take_sublist _ _).map _) ?_
  rw [List.map_append]
  refine List.Nodup.append (hkeys _ _) (hkeys _ _) ?_
  intro pair hmade hreceived
  obtain ⟨w, hw, rfl⟩ := List.mem_map.mp hmade
  obtain ⟨w', hw', hpair⟩ := List.mem_map.mp hreceived
  have hactor := (Table.mem_select.mp ((List.perm_insertionSort _ _).mem_iff.mp
    (List.mem_of_mem_take hw))).2
  have htarget := (Table.mem_select.mp ((List.perm_insertionSort _ _).mem_iff.mp
    (List.mem_of_mem_take hw'))).2
  rw [decide_eq_true_eq] at hactor htarget
  exact w.distinct (hactor.trans (htarget.symm.trans (Prod.mk.inj hpair).2))

/-- As many rows as keys, when every key is stored. -/
theorem length_le_count {κ ρ : Type} {key : ρ → κ} {t : Table key} {keys : List κ} {q : ρ → Bool}
    (hq : ∀ r, q r = true ↔ key r ∈ keys) (hkeys : keys.Nodup)
    (h : ∀ k ∈ keys, ∃ r ∈ t, key r = k) : keys.length ≤ t.count q := by
  have hsubset : keys ⊆ (t.rows.filter q).map key := by
    intro k hk
    obtain ⟨r, hr, rfl⟩ := h k hk
    exact List.mem_map_of_mem (List.mem_filter.mpr ⟨hr, (hq r).mpr hk⟩)
  have hlength := (hkeys.subperm hsubset).length_le
  rwa [List.length_map, ← List.countP_eq_length_filter] at hlength

end Batches

section Moves

/-- What a decision rests on. -/
def Decides (db : PrivacyDb) (current : ClaimedErasure) : ErasureStep → Prop
  | .stripe => current.step = .stripe
  | .photos => current.step = .stripe ∨ current.step = .photos
  | .swipes => current.step = .photos ∧ db.NoPhotos current.userId
  | .postgres => False
  | .completed => current.step = .postgres

/-- A step of the worker that holds an event, on the erasure of a request. -/
structure Moves (db db' : PrivacyDb) (eventId workerId requestId : Uuid) : Prop where
  settles : Settles db db'
  consistent : Consistent db'
  erasures : ∀ e ∈ db.erasures, ∃ e' ∈ db'.erasures, e'.requestId = e.requestId ∧
    e'.userId = e.userId ∧ (e'.step = e.step ∨ e.requestId = requestId ∧
      e.step.following = some e'.step ∧ ∃ r ∈ db.events, r.id = eventId ∧ r.heldBy workerId = true)

variable {eventId workerId : Uuid} {current : ClaimedErasure} {next : ErasureStep} {now : ℤ}

theorem Consistent.moves (h : Consistent db) {requestId : Uuid} :
    Moves db db eventId workerId requestId :=
  ⟨Settles.refl db, h, fun e he ↦ ⟨e, he, rfl, rfl, Or.inl rfl⟩⟩

theorem mem_of_ownedEvent (h : ¬ (db.ownedEvent eventId workerId).isNone = true) :
    ∃ r ∈ db.events, r.id = eventId ∧ r.heldBy workerId = true := by
  rw [Option.isNone_iff_eq_none, ← ne_eq, Option.ne_none_iff_exists'] at h
  obtain ⟨r, hr⟩ := h
  have hheld := List.find?_some hr
  rw [Bool.and_eq_true, decide_eq_true_eq] at hheld
  exact ⟨r, List.mem_of_find?_eq_some hr, hheld⟩

theorem mem_setStep {requestId : Uuid} {step : ErasureStep} {e : AccountErasure}
    (he : e ∈ db.erasures) :
    (if (decide (e.requestId = requestId) && decide (e.step = step)) = true then
      { e with step := next } else e) ∈ (db.setStep requestId step next).erasures :=
  List.mem_map_of_mem (f := fun e : AccountErasure ↦
    if (decide (e.requestId = requestId) && decide (e.step = step)) = true then
      { e with step := next } else e) he

theorem erasures_of_setStep {requestId : Uuid} {step : ErasureStep}
    (howned : ∃ r ∈ db.events, r.id = eventId ∧ r.heldBy workerId = true)
    (hnext : next = step ∨ step.following = some next)
    (herasures : db'.erasures = (db.setStep requestId step next).erasures) :
    ∀ e ∈ db.erasures, ∃ e' ∈ db'.erasures, e'.requestId = e.requestId ∧
      e'.userId = e.userId ∧ (e'.step = e.step ∨ e.requestId = requestId ∧
        e.step.following = some e'.step ∧
        ∃ r ∈ db.events, r.id = eventId ∧ r.heldBy workerId = true) := by
  intro e he
  refine ⟨_, herasures ▸ mem_setStep he, ?_⟩
  split
  · rename_i hsame
    rw [Bool.and_eq_true, decide_eq_true_eq, decide_eq_true_eq] at hsame
    obtain ⟨hid, rfl⟩ := hsame
    refine ⟨rfl, rfl, ?_⟩
    rcases hnext with rfl | hfollowing
    · exact Or.inl rfl
    · exact Or.inr ⟨hid, hfollowing, howned⟩
  · exact ⟨rfl, rfl, Or.inl rfl⟩

theorem following_of_decides (h : db.Decides current next) :
    next = current.step ∨ current.step.following = some next := by
  cases next with
  | stripe => exact Or.inl h.symm
  | photos => rcases h with h | h <;> simp [h, ErasureStep.following]
  | swipes => simp [h.1, ErasureStep.following]
  | postgres => exact h.elim
  | completed => exact Or.inr (by rw [show current.step = .postgres from h]; rfl)

theorem cleared_of_decides (h : db.Decides current next) (hnext : next ≠ .completed) :
    db.Cleared current.userId next := by
  cases next with
  | stripe | photos => trivial
  | swipes => exact h.2
  | postgres => exact h.elim
  | completed => exact absurd rfl hnext

/-- The checks of the last step pass, and it empties the request. -/
theorem complete_eq_ok (h : Consistent db) {e : AccountErasure} (he : e ∈ db.erasures)
    (hid : e.requestId = current.requestId) (huser : e.userId = current.userId)
    (hstep : e.step = .postgres) (hcurrent : current.step = .postgres) :
    db.complete current now = .ok (db.anonymize current now) := by
  obtain ⟨r, hr, hrid, hruser, hstatus, htype⟩ := h.request e he (by rw [hstep]; decide)
  have hcleared := h.cleared e he
  rw [hstep] at hcleared
  have hrequest : ∃ r ∈ db.requests.rows, r.id = current.requestId ∧ r.userId = current.userId ∧
      r.status = .inProgress ∧ r.type = .erasure :=
    ⟨r, hr, hrid.trans hid, hruser.trans huser, hstatus, htype⟩
  have hphotos : ¬ ∃ p ∈ db.photos.rows, p.userId = current.userId := by
    rintro ⟨p, hp, hpuser⟩
    exact hcleared.1 p hp (hpuser.trans huser.symm)
  have hswipes : ¬ ∃ w ∈ db.swipes.rows, w.concerns current.userId := by
    rintro ⟨w, hw, hconcerns⟩
    exact absurd (hcleared.2 w hw) (by rw [huser, hconcerns]; decide)
  unfold complete
  rw [if_neg (by simpa using hcurrent), if_neg (by simpa using hrequest), if_neg hphotos,
    if_neg hswipes]

theorem settles_anonymize : Settles db (db.anonymize current now) := by
  refine Settles.of_deletedAt ?_ (fun _ ↦ or_some_ne_none now) rfl rfl rfl
  exact fun _ ↦ rfl

theorem moves_anonymize (h : Consistent db) {e : AccountErasure} (he : e ∈ db.erasures)
    (hid : e.requestId = current.requestId) (hstep : e.step = .postgres) (hcurrent : current.step = .postgres)
    (howned : ∃ r ∈ db.events, r.id = eventId ∧ r.heldBy workerId = true) :
    Moves db ((db.anonymize current now).setStep current.requestId current.step .completed)
      eventId workerId current.requestId := by
  have hsettles : Settles db
      ((db.anonymize current now).setStep current.requestId current.step .completed) :=
    settles_anonymize.trans (Settles.of_eq rfl rfl rfl)
  have hsame : ∀ e' ∈ db.erasures, e'.requestId = current.requestId → e' = e := fun e' he' hid' ↦
    Table.eq_of_key_eq he' he (hid'.trans hid.symm)
  refine ⟨hsettles, ?_, ?_⟩
  · refine h.setStep hsettles current.requestId current.step .completed rfl ?_ ?_ ?_ ?_ ?_
    · exact fun _ _ _ hne ↦ absurd rfl hne
    · rintro e' he' hne ⟨r, hr, hrid, hruser, hstatus, htype⟩
      refine ⟨_, List.mem_map_of_mem hr, ?_⟩
      have hother : ¬ (decide (r.id = current.requestId) &&
          decide (r.status = .inProgress)) = true := by
        simp [hrid, hne]
      rw [if_neg hother]
      exact ⟨hrid, hruser, hstatus, htype⟩
    · intro e' he' hid'
      rw [hsame e' he' hid', hstep, hcurrent]
    · intro r' hr'
      obtain ⟨r, hr, rfl⟩ := List.mem_map.mp hr'
      obtain ⟨a, ha, haid⟩ := h.owner r hr
      refine ⟨a, ha, ?_⟩
      split <;> exact haid
    · intro e' he' hid'
      have hcleared := h.cleared e he
      rw [hstep] at hcleared
      rw [hsame e' he' hid']
      exact ⟨hsettles.noPhotos (h.gone e he) hcleared.1, hsettles.noSwipes (h.gone e he) hcleared.2⟩
  · refine erasures_of_setStep howned (Or.inr ?_) rfl
    rw [hcurrent]
    rfl

/-- The step that a worker has decided on never fails, and moves its erasure
at most one step. -/
theorem advance_moves (eventId workerId : Uuid) (now : ℤ) (h : Consistent db)
    (herasure : ∃ e ∈ db.erasures, e.requestId = current.requestId ∧ e.userId = current.userId)
    (hdecides : db.Decides current next) :
    ∃ db' moved, db.advance eventId workerId current next now = .ok (db', moved) ∧
      Moves db db' eventId workerId current.requestId := by
  unfold advance
  split
  · exact ⟨db, false, rfl, h.moves⟩
  rename_i howned
  replace howned := mem_of_ownedEvent howned
  split
  · exact ⟨db, false, rfl, h.moves⟩
  rename_i hstored
  rw [not_not] at hstored
  obtain ⟨e, he, hid, hstep⟩ := hstored
  obtain ⟨e₀, he₀, hid₀, huser₀⟩ := herasure
  obtain rfl := Table.eq_of_key_eq he he₀ (hid.trans hid₀.symm)
  split
  · rename_i hnext
    subst hnext
    have hcurrent : current.step = .postgres := hdecides
    rw [complete_eq_ok h he hid huser₀ (hstep.trans hcurrent) hcurrent]
    exact ⟨_, true, rfl,
      moves_anonymize h he hid (hstep.trans hcurrent) hcurrent howned⟩
  · rename_i hnext
    refine ⟨_, true, rfl, Settles.of_eq rfl rfl rfl, ?_,
      erasures_of_setStep howned (following_of_decides hdecides) rfl⟩
    have hsame : ∀ e' ∈ db.erasures, e'.requestId = current.requestId → e' = e :=
      fun e' he' hid' ↦ Table.eq_of_key_eq he' he (hid'.trans hid.symm)
    have hcompleted : current.step ≠ .completed := by
      intro hcompleted
      rcases following_of_decides hdecides with rfl | hfollowing
      · exact hnext hcompleted
      · rw [hcompleted] at hfollowing
        exact absurd hfollowing (by simp [ErasureStep.following])
    refine h.setStep (Settles.of_eq rfl rfl rfl) current.requestId current.step next rfl
      ?_ ?_ ?_ h.owner ?_
    · intro e' he' hid' _
      rw [hsame e' he' hid']
      exact h.request e he (by rw [hstep]; exact hcompleted)
    · exact fun _ _ _ hrequest ↦ hrequest
    · intro e' he' hid'
      rw [hsame e' he' hid', hstep]
    · intro e' he' hid'
      rw [hsame e' he' hid', huser₀]
      exact cleared_of_decides hdecides hnext

/-- The deletion of a batch of swipes, when the number of deleted rows tells
whether any are left. -/
theorem deleteSwipes_moves (h : Consistent db) {doomed : List (Uuid × Uuid)} {batchSize : ℕ}
    (herasure : ∃ e ∈ db.erasures, e.requestId = current.requestId ∧ e.userId = current.userId)
    (hcount : (db.swipes.count fun w ↦ w.pair ∈ doomed) < batchSize →
      ∀ w ∈ db.swipes, w.concerns current.userId = true → w.pair ∈ doomed) :
    Moves db (db.deleteSwipes eventId workerId current doomed batchSize now).1 eventId workerId
      current.requestId := by
  unfold deleteSwipes
  split
  · exact h.moves
  rename_i howned
  replace howned := mem_of_ownedEvent howned
  split
  · exact h.moves
  rename_i hstored
  rw [not_not] at hstored
  obtain ⟨e, he, hid, hstep⟩ := hstored
  obtain ⟨e₀, he₀, hid₀, huser₀⟩ := herasure
  obtain rfl := Table.eq_of_key_eq he he₀ (hid.trans hid₀.symm)
  have hsettles : Settles db { db with swipes := db.swipes.delete fun w ↦ w.pair ∈ doomed } :=
    settles_swipes_delete
  have hsame : ∀ e' ∈ db.erasures, e'.requestId = current.requestId → e' = e :=
    fun e' he' hid' ↦ Table.eq_of_key_eq he' he (hid'.trans hid.symm)
  have hphotos : db.NoPhotos e.userId := by
    have hcleared := h.cleared e he
    rwa [hstep] at hcleared
  dsimp only
  generalize hnext : (if (db.swipes.count fun w ↦ w.pair ∈ doomed) < batchSize then
    ErasureStep.postgres else .swipes) = next
  have hchoice : next = .swipes ∨ next = .postgres ∧
      (db.swipes.count fun w ↦ w.pair ∈ doomed) < batchSize := by
    split at hnext
    · rename_i hlt
      exact Or.inr ⟨hnext.symm, hlt⟩
    · exact Or.inl hnext.symm
  refine ⟨hsettles.trans (Settles.of_eq rfl rfl rfl), ?_, ?_⟩
  · refine h.setStep (hsettles.trans (Settles.of_eq rfl rfl rfl)) current.requestId .swipes next
      rfl ?_ ?_ ?_ h.owner ?_
    · intro e' he' hid' _
      rw [hsame e' he' hid']
      exact h.request e he (by rw [hstep]; decide)
    · exact fun _ _ _ hrequest ↦ hrequest
    · intro e' he' hid'
      rw [hsame e' he' hid', hstep]
    · intro e' he' hid'
      rw [hsame e' he' hid']
      rcases hchoice with rfl | ⟨rfl, hlt⟩
      · exact hphotos
      · refine ⟨hphotos, ?_⟩
        intro w hw
        obtain ⟨hw, hkept⟩ := Table.mem_delete.mp hw
        by_contra hconcerns
        rw [Bool.not_eq_false, huser₀] at hconcerns
        exact absurd (hcount hlt w hw hconcerns) (by simpa using hkept)
  · refine erasures_of_setStep howned ?_ rfl
    rcases hchoice with rfl | ⟨rfl, -⟩
    · exact Or.inl rfl
    · exact Or.inr rfl

end Moves

/-- What a worker knows at a stage. -/
def StageSound (db : PrivacyDb) (current : ClaimedErasure) : Stage → Prop
  | .claimed => True
  | .photosSelected selected => current.step = .photos ∧ selected.Nodup ∧
      (selected.length < photoErasureBatchSize →
        ∀ p ∈ db.photos, p.userId = current.userId → p.id ∈ selected)
  | .photosMarked marked remaining => current.step = .photos ∧
      (marked < photoErasureBatchSize →
        ∀ p ∈ db.photos, p.userId = current.userId → p.id ∈ remaining ∧ p.status = .deleting)
  | .swipesSelected doomed => doomed.Nodup ∧
      (doomed.length < swipeErasureBatchSize →
        ∀ w ∈ db.swipes, w.concerns current.userId = true → w.pair ∈ doomed)
  | .decided next => db.Decides current next

theorem StageSound.settles {current : ClaimedErasure} {stage : Stage}
    (h : db.StageSound current stage) (hsettles : Settles db db') (hgone : db.Gone current.userId) :
    db'.StageSound current stage := by
  cases stage with
  | claimed => trivial
  | photosSelected selected =>
      refine ⟨h.1, h.2.1, fun hlt p' hp' huser ↦ ?_⟩
      obtain ⟨p, hp, hid, hpuser, -⟩ := hsettles.photos p' hp' (huser ▸ hgone)
      exact hid ▸ h.2.2 hlt p hp (hpuser.trans huser)
  | photosMarked marked remaining =>
      refine ⟨h.1, fun hlt p' hp' huser ↦ ?_⟩
      obtain ⟨p, hp, hid, hpuser, hstatus⟩ := hsettles.photos p' hp' (huser ▸ hgone)
      obtain ⟨hmem, hdeleting⟩ := h.2 hlt p hp (hpuser.trans huser)
      exact ⟨hid ▸ hmem, hstatus hdeleting⟩
  | swipesSelected doomed =>
      refine ⟨h.1, fun hlt w' hw' hconcerns ↦ ?_⟩
      obtain ⟨w, hw, hpair⟩ := hsettles.swipes w' hw' _ hgone hconcerns
      exact hpair ▸ h.2 hlt w hw ((concerns_congr hpair _).trans hconcerns)
  | decided next =>
      cases next with
      | swipes => exact ⟨h.1, hsettles.noPhotos hgone h.2⟩
      | stripe | photos | postgres | completed => exact h

end PrivacyDb

section Runs

variable {keyOf : Uuid → EventKey} {s : State} {a : Action}

structure Sound (keyOf : Uuid → EventKey) (db : PrivacyDb) (task : Task) : Prop where
  erasure : ∃ e ∈ db.erasures, e.requestId = task.current.requestId ∧
    e.userId = task.current.userId
  event : keyOf task.eventId = (.accountErase, task.current.requestId)
  stage : db.StageSound task.current task.stage

structure Invariant (keyOf : Uuid → EventKey) (s : State) : Prop where
  consistent : s.db.Consistent
  keyed : s.Keyed keyOf
  tasks : ∀ task ∈ s.tasks, Sound keyOf s.db task

/-- A batch statement still finds every row that it has selected, or nothing
else is left of the account. -/
def Undisturbed (s : State) : Action → Prop
  | .markPhotos task => ∀ selected, task.stage = .photosSelected selected →
      (∀ id ∈ selected, ∃ p ∈ s.db.photos, p.id = id) ∨
      ∀ p ∈ s.db.photos, p.userId = task.current.userId → p.id ∈ selected
  | .deleteSwipes task _ => ∀ doomed, task.stage = .swipesSelected doomed →
      (∀ pair ∈ doomed, ∃ w ∈ s.db.swipes, w.pair = pair) ∨
      ∀ w ∈ s.db.swipes, w.concerns task.current.userId = true → w.pair ∈ doomed
  | _ => True

/-- The worker whose step the action is. -/
def Action.task? : Action → Option Task
  | .customerDeleted task _ | .selectPhotos task | .markPhotos task | .deletePhoto task
  | .selectSwipes task | .deleteSwipes task _ | .advance task _ | .stop task => some task
  | _ => none

/-- What one step does to the tables. -/
def Step (s : State) (a : Action) : Prop :=
  PrivacyDb.Follows s.db (s.next a).db ∨
    ∃ task, a.task? = some task ∧ task ∈ s.tasks ∧
      PrivacyDb.Moves s.db (s.next a).db task.eventId task.workerId task.current.requestId

theorem Sound.mono {db db' : PrivacyDb} {task : Task} (h : Sound keyOf db task)
    (hconsistent : db.Consistent) (hsettles : PrivacyDb.Settles db db')
    (herasures : ∀ e ∈ db.erasures, ∃ e' ∈ db'.erasures, e'.requestId = e.requestId ∧
      e'.userId = e.userId) : Sound keyOf db' task := by
  obtain ⟨e, he, hid, huser⟩ := h.erasure
  obtain ⟨e', he', hid', huser'⟩ := herasures e he
  have hgone : db.Gone task.current.userId := huser ▸ hconsistent.gone e he
  exact ⟨⟨e', he', hid'.trans hid, huser'.trans huser⟩, h.event, h.stage.settles hsettles hgone⟩

theorem Step.sound (h : Step s a) (hs : Invariant keyOf s) {task : Task} (htask : task ∈ s.tasks) :
    Sound keyOf (s.next a).db task := by
  rcases h with hfollows | ⟨_, _, _, hmoves⟩
  · exact (hs.tasks task htask).mono hs.consistent hfollows.settles
      fun e he ↦ ⟨e, hfollows.erasures e he, rfl, rfl⟩
  · refine (hs.tasks task htask).mono hs.consistent hmoves.settles fun e he ↦ ?_
    obtain ⟨e', he', hid, huser, -⟩ := hmoves.erasures e he
    exact ⟨e', he', hid, huser⟩

theorem follows_attempt (hs : Invariant keyOf s) {result : Except DatabaseError PrivacyDb}
    (h : ∀ db, result = .ok db → PrivacyDb.Follows s.db db) :
    PrivacyDb.Follows s.db (s.attempt result).db := by
  cases result with
  | ok db => exact h db rfl
  | error e => exact hs.consistent.follows

theorem follows_createAccount (hs : Invariant keyOf s) (userId : Uuid) :
    PrivacyDb.Follows s.db (s.next (.createAccount userId)).db := by
  simp only [State.next]
  cases hinsert : s.db.accounts.insert? ⟨userId, none, none⟩ with
  | none => exact hs.consistent.follows
  | some accounts =>
      refine hs.consistent.frame_requests ⟨⟨?_, ?_, ?_⟩, rfl, rfl⟩
      · exact fun a ha ↦ ⟨a, (Table.mem_insert hinsert).mpr (Or.inr ha), rfl, id⟩
      · exact fun p hp _ ↦ ⟨p, hp, rfl, rfl, id⟩
      · exact fun w hw _ _ _ ↦ ⟨w, hw, rfl⟩

theorem State.begin_db (eventId workerId : Uuid) (current : ClaimedErasure) :
    (s.begin eventId workerId current).db = s.db := by
  unfold State.begin
  split <;> rfl

theorem step_deleteSwipes (hs : Invariant keyOf s) {task : Task} {now : ℤ}
    (hready : s.Ready (.deleteSwipes task now))
    (hundisturbed : Undisturbed s (.deleteSwipes task now)) : Step s (.deleteSwipes task now) := by
  obtain ⟨htask, doomed, hstage⟩ := hready
  have hsound := hs.tasks task htask
  have hknows := hsound.stage
  rw [hstage] at hknows
  refine Or.inr ⟨task, rfl, htask, ?_⟩
  simp only [State.next, hstage]
  refine PrivacyDb.deleteSwipes_moves hs.consistent hsound.erasure fun hcount ↦ ?_
  rcases hundisturbed doomed hstage with hthere | hnothing
  · have hlength := PrivacyDb.length_le_count (fun _ ↦ decide_eq_true_iff) hknows.1 hthere
    exact hknows.2 (hlength.trans_lt hcount)
  · exact hnothing

theorem step_advance (hs : Invariant keyOf s) {task : Task} {now : ℤ}
    (hready : s.Ready (.advance task now)) : Step s (.advance task now) := by
  obtain ⟨htask, next, hstage⟩ := hready
  have hsound := hs.tasks task htask
  have hknows := hsound.stage
  rw [hstage] at hknows
  obtain ⟨db', moved, hadvance, hmoves⟩ := PrivacyDb.advance_moves task.eventId
    task.workerId now hs.consistent hsound.erasure hknows
  refine Or.inr ⟨task, rfl, htask, ?_⟩
  simp only [State.next, hstage, hadvance]
  exact hmoves

theorem step_of_ready (hs : Invariant keyOf s) (hready : s.Ready a) (hundisturbed : Undisturbed s a) :
    Step s a := by
  have hrefl := hs.consistent.follows
  cases a with
  | createAccount userId => exact Or.inl (follows_createAccount hs userId)
  | createRequest id userId type =>
      exact Or.inl (follows_attempt hs fun db h ↦ hs.consistent.createRequest h)
  | updateRequest requestId transition response eventId now =>
      exact Or.inl (follows_attempt hs fun db h ↦ hs.consistent.updateRequest h)
  | accept userId consumed newId eventId now =>
      exact Or.inl (follows_attempt hs fun db h ↦ hs.consistent.accept h)
  | createProcessing photoId userId =>
      exact Or.inl (follows_attempt hs fun db h ↦
        hs.consistent.frame_requests (PrivacyDb.settles_createProcessing h))
  | updatePhoto photoId status =>
      exact Or.inl (follows_attempt hs fun db h ↦
        hs.consistent.frame_requests (PrivacyDb.settles_updatePhoto h))
  | swipe decision renew =>
      exact Or.inl (follows_attempt hs fun db h ↦
        hs.consistent.frame_requests (PrivacyDb.settles_swipe h))
  | discardProcessing photoId userId | completeDeletion photoId =>
      exact Or.inl (hs.consistent.frame_requests ⟨PrivacyDb.settles_photos_delete, rfl, rfl⟩)
  | purgeSwipes selected =>
      exact Or.inl (hs.consistent.frame_requests ⟨PrivacyDb.settles_swipes_delete, rfl, rfl⟩)
  | outbox events =>
      exact Or.inl (hs.consistent.frame_requests ⟨PrivacyDb.Settles.of_eq rfl rfl rfl, rfl, rfl⟩)
  | claim eventId workerId =>
      refine Or.inl ?_
      simp only [State.next]
      split
      · rw [State.begin_db]
        exact hrefl
      · exact hrefl
  | customerDeleted task finished | selectPhotos task | selectSwipes task | stop task =>
      exact Or.inl hrefl
  | markPhotos task =>
      obtain ⟨_, selected, hstage⟩ := hready
      refine Or.inl ?_
      simp only [State.next, hstage]
      exact hs.consistent.frame_requests ⟨PrivacyDb.settles_markPhotos, rfl, rfl⟩
  | deletePhoto task =>
      obtain ⟨_, marked, remaining, hstage⟩ := hready
      refine Or.inl ?_
      cases remaining with
      | nil =>
          simp only [State.next, hstage]
          exact hrefl
      | cons photoId remaining =>
          simp only [State.next, hstage]
          exact hs.consistent.frame_requests ⟨PrivacyDb.settles_photos_delete, rfl, rfl⟩
  | deleteSwipes task now => exact step_deleteSwipes hs hready hundisturbed
  | advance task now => exact step_advance hs hready

/-- The photos that a worker knows of, once it has marked those it selected. -/
theorem stage_markPhotos (hs : Invariant keyOf s) {task : Task} (htask : task ∈ s.tasks)
    {selected : List Uuid} (hstage : task.stage = .photosSelected selected)
    (hundisturbed : Undisturbed s (.markPhotos task)) :
    (s.db.markPhotos selected).1.StageSound task.current
      (.photosMarked (s.db.markPhotos selected).2.length (s.db.markPhotos selected).2) := by
  have hknows := (hs.tasks task htask).stage
  rw [hstage] at hknows
  obtain ⟨hstep, hnodup, hall⟩ := hknows
  refine ⟨hstep, fun hlt p' hp' huser ↦ ?_⟩
  have hselected : ∀ p ∈ s.db.photos, p.userId = task.current.userId → p.id ∈ selected := by
    rcases hundisturbed selected hstage with hthere | hnothing
    · have hlength := PrivacyDb.length_le_count (fun _ ↦ decide_eq_true_iff) hnodup hthere
      simp only [PrivacyDb.markPhotos, List.length_map, Table.select,
        ← List.countP_eq_length_filter] at hlt
      exact hall (hlength.trans_lt hlt)
    · exact hnothing
  obtain ⟨p, hp, rfl⟩ := List.mem_map.mp hp'
  have huser₀ : p.userId = task.current.userId := by
    split at huser <;> exact huser
  have hmem := hselected p hp huser₀
  simp only [hmem, decide_true, if_true]
  exact ⟨List.mem_map_of_mem (Table.mem_select.mpr ⟨hp, by simpa using hmem⟩), trivial⟩

/-- A photo that was deleted under a worker is no longer among the rest. -/
theorem stage_deletePhoto {db : PrivacyDb} {current : ClaimedErasure} {marked : ℕ} {photoId : Uuid}
    {remaining : List Uuid} (h : db.StageSound current (.photosMarked marked (photoId :: remaining))) :
    (db.completeDeletion photoId).StageSound current (.photosMarked marked remaining) := by
  refine ⟨h.1, fun hlt p hp huser ↦ ?_⟩
  obtain ⟨hp, hkept⟩ := Table.mem_delete.mp hp
  obtain ⟨hmem, hdeleting⟩ := h.2 hlt p hp huser
  refine ⟨(List.mem_cons.mp hmem).resolve_left fun hid ↦ ?_, hdeleting⟩
  simp [hid, hdeleting] at hkept

theorem stage_photosNext {db : PrivacyDb} {current : ClaimedErasure} {marked : ℕ}
    (h : db.StageSound current (.photosMarked marked [])) :
    db.Decides current (State.photosNext marked) := by
  unfold State.photosNext
  split
  · rename_i hlt
    refine ⟨h.1, fun p hp huser ↦ ?_⟩
    exact absurd (h.2 hlt p hp huser).1 List.not_mem_nil
  · exact Or.inr h.1

theorem sound_of_claimed (hs : Invariant keyOf s) {eventId workerId : Uuid}
    {current : ClaimedErasure} (h : s.db.claimed eventId workerId = some current) {stage : Stage}
    (hstage : s.db.StageSound current stage) :
    Sound keyOf s.db ⟨eventId, workerId, current, stage⟩ := by
  unfold PrivacyDb.claimed at h
  obtain ⟨event, hevent, h⟩ := Option.bind_eq_some_iff.mp h
  split at h
  · exact absurd h (by simp)
  rename_i htype
  rw [not_not] at htype
  obtain ⟨erasure, herasure, h⟩ := Option.bind_eq_some_iff.mp h
  obtain rfl := Option.some.inj h
  obtain ⟨he, hid⟩ := Table.find?_eq_some_iff.mp herasure
  have hmem : event ∈ s.db.events := List.mem_of_find?_eq_some hevent
  have hheld := List.find?_some hevent
  rw [Bool.and_eq_true, decide_eq_true_eq] at hheld
  have hkey := hs.keyed event hmem
  rw [hheld.1] at hkey
  refine ⟨⟨erasure, he, rfl, rfl⟩, ?_, hstage⟩
  rw [← hkey, OutboxRow.key, htype, ← hid]

theorem Invariant.next (hs : Invariant keyOf s) (hready : s.Ready a)
    (hkeyed : (s.next a).Keyed keyOf) (hundisturbed : Undisturbed s a) :
    Invariant keyOf (s.next a) := by
  have hstep := step_of_ready hs hready hundisturbed
  have hold : ∀ task ∈ s.tasks, Sound keyOf (s.next a).db task := fun _ htask ↦
    hstep.sound hs htask
  have hleave : ∀ task, ∀ task' ∈ s.leave task, Sound keyOf (s.next a).db task' :=
    fun task task' htask' ↦ hold task' (List.mem_of_mem_erase htask')
  have hproceed : ∀ task ∈ s.tasks, ∀ stage, (s.next a).db.StageSound task.current stage →
      ∀ task' ∈ s.proceed task stage, Sound keyOf (s.next a).db task' := by
    intro task htask stage hstage task' htask'
    rcases List.mem_cons.mp htask' with rfl | hrest
    · exact ⟨(hold task htask).erasure, (hold task htask).event, hstage⟩
    · exact hleave task task' hrest
  refine ⟨?_, hkeyed, ?_⟩
  · rcases hstep with hfollows | ⟨_, _, _, hmoves⟩
    · exact hfollows.consistent
    · exact hmoves.consistent
  cases a with
  | createAccount userId =>
      intro task htask
      refine hold task ?_
      simp only [State.next] at htask
      split at htask <;> exact htask
  | createRequest id userId type | updateRequest requestId transition response eventId now
  | accept userId consumed newId eventId now | createProcessing photoId userId
  | updatePhoto photoId status | swipe decision renew =>
      intro task htask
      refine hold task ?_
      simp only [State.next, State.attempt] at htask
      split at htask <;> exact htask
  | discardProcessing photoId userId | completeDeletion photoId | purgeSwipes selected
  | outbox events => exact hold
  | claim eventId workerId =>
      have hdb : (s.next (.claim eventId workerId)).db = s.db := by
        simp only [State.next]
        split
        · exact State.begin_db _ _ _
        · rfl
      intro task htask
      rw [hdb]
      simp only [State.next] at htask
      split at htask
      · rename_i current hclaimed
        unfold State.begin at htask
        split at htask
        · exact hs.tasks task htask
        · rename_i hcurrent
          rcases List.mem_cons.mp htask with rfl | hrest
          · exact sound_of_claimed hs hclaimed hcurrent
          · exact hs.tasks task hrest
        all_goals
          rcases List.mem_cons.mp htask with rfl | hrest
          · exact sound_of_claimed hs hclaimed trivial
          · exact hs.tasks task hrest
      · exact hs.tasks task htask
  | customerDeleted task finished =>
      obtain ⟨htask, hstage, hcurrent⟩ := hready
      refine hproceed task htask _ ?_
      cases finished with
      | true => exact Or.inl hcurrent
      | false => exact hcurrent
  | selectPhotos task =>
      obtain ⟨htask, hstage, hcurrent⟩ := hready
      refine hproceed task htask _ ⟨hcurrent, PrivacyDb.nodup_photoBatch, fun hlt p hp huser ↦ ?_⟩
      exact PrivacyDb.mem_photoBatch hlt hp huser
  | selectSwipes task =>
      obtain ⟨htask, hstage, hcurrent⟩ := hready
      refine hproceed task htask _ ⟨PrivacyDb.nodup_swipeBatch, fun hlt w hw hconcerns ↦ ?_⟩
      exact PrivacyDb.mem_swipeBatch hlt hw hconcerns
  | markPhotos task =>
      obtain ⟨htask, selected, hstage⟩ := hready
      have hnew := stage_markPhotos hs htask hstage hundisturbed
      have hmarked := hproceed task htask
        (.photosMarked (s.db.markPhotos selected).2.length (s.db.markPhotos selected).2)
      simp only [State.next, hstage] at hmarked ⊢
      exact hmarked hnew
  | deletePhoto task =>
      obtain ⟨htask, marked, remaining, hstage⟩ := hready
      have hknows := (hs.tasks task htask).stage
      rw [hstage] at hknows
      cases remaining with
      | nil =>
          have hdecided := hproceed task htask (.decided (State.photosNext marked))
          simp only [State.next, hstage] at hdecided ⊢
          exact hdecided (stage_photosNext hknows)
      | cons photoId remaining =>
          have hrest := hproceed task htask (.photosMarked marked remaining)
          simp only [State.next, hstage] at hrest ⊢
          exact hrest (stage_deletePhoto hknows)
  | deleteSwipes task now =>
      obtain ⟨htask, doomed, hstage⟩ := hready
      have hrest := hleave task
      simp only [State.next, hstage] at hrest ⊢
      exact hrest
  | advance task now =>
      obtain ⟨htask, next, hstage⟩ := hready
      have hrest := hleave task
      simp only [State.next, hstage] at hrest ⊢
      split at hrest <;> exact hrest
  | stop task => exact hleave task

theorem Initial.invariant (h : Initial keyOf s) : Invariant keyOf s where
  consistent := {
    unique := fun e he ↦ absurd he (h.erasures e)
    gone := fun e he ↦ absurd he (h.erasures e)
    request := fun e he ↦ absurd he (h.erasures e)
    owner := h.owner
    cleared := fun e he ↦ absurd he (h.erasures e) }
  keyed := h.keyed
  tasks := by
    rw [h.tasks]
    simp

theorem invariant_of_valid {s₀ : State} {as : List Action} (h₀ : Initial keyOf s₀)
    (h : (erasureSystem keyOf).Valid s₀ as)
    (hundisturbed : (erasureSystem keyOf).Along Undisturbed s₀ as) :
    Invariant keyOf ((erasureSystem keyOf).exec s₀ as) :=
  h.invariant_along hundisturbed h₀.invariant fun _ _ hs henabled hcond ↦
    hs.next henabled.1 henabled.2 hcond

/-- An erasure keeps its step, or moves to the next one under the worker that
is processing its event. -/
def MovesForward (s : State) (a : Action) : Prop :=
  ∀ e ∈ s.db.erasures, ∃ e' ∈ (s.next a).db.erasures, e'.requestId = e.requestId ∧
    e'.userId = e.userId ∧ (e'.step = e.step ∨ e.step.following = some e'.step ∧
      ∃ task, a.task? = some task ∧ ∃ r ∈ s.db.events, r.id = task.eventId ∧
        r.heldBy task.workerId = true ∧ r.key = (.accountErase, e.requestId))

/-- Nothing of the user is left for the last step, and nothing can be added. -/
def Emptied (db : PrivacyDb) (userId : Uuid) : Prop :=
  db.NoPhotos userId ∧ db.NoSwipes userId ∧
    (∀ photoId, db.createProcessing photoId userId = .error .accountUnavailable) ∧
    ∀ decision renew, decision.concerns userId = true →
      db.swipe decision renew = .error .accountUnavailable

theorem movesForward_of_step (hs : Invariant keyOf s) (h : Step s a) : MovesForward s a := by
  intro e he
  rcases h with hfollows | ⟨task, haction, htask, hmoves⟩
  · exact ⟨e, hfollows.erasures e he, rfl, rfl, Or.inl rfl⟩
  · obtain ⟨e', he', hid, huser, hsame | ⟨hrequest, hfollowing, r, hr, hrid, hheld⟩⟩ :=
      hmoves.erasures e he
    · exact ⟨e', he', hid, huser, Or.inl hsame⟩
    · refine ⟨e', he', hid, huser, Or.inr ⟨hfollowing, task, haction, r, hr, hrid, hheld, ?_⟩⟩
      rw [hs.keyed r hr, hrid, (hs.tasks task htask).event, hrequest]

theorem emptied_of_gone {db : PrivacyDb} {userId : Uuid} (hgone : db.Gone userId)
    (hphotos : db.NoPhotos userId) (hswipes : db.NoSwipes userId) : Emptied db userId := by
  refine ⟨hphotos, hswipes, ?_, ?_⟩
  · intro photoId
    have hnone : ¬ ∃ p ∈ db.photos.rows, p.userId = userId ∧
        (p.status = .pending ∨ p.status = .processing) := by
      rintro ⟨p, hp, huser, -⟩
      exact hphotos p hp huser
    unfold PrivacyDb.createProcessing
    rw [if_neg hnone, PrivacyDb.requireLive_eq_error (List.mem_singleton_self userId) hgone]
    rfl
  · intro decision renew hconcerns
    rw [SwipeDecision.concerns, Bool.or_eq_true, decide_eq_true_eq, decide_eq_true_eq] at hconcerns
    have hmem : userId ∈ [decision.actorId, decision.targetId] := by
      rcases hconcerns with rfl | rfl <;> simp
    unfold PrivacyDb.swipe
    rw [PrivacyDb.requireLive_eq_error hmem hgone]
    rfl

theorem failed_advance {task : Task} {next : ErasureStep} {now : ℤ} {e : DatabaseError}
    (hstage : task.stage = .decided next)
    (h : s.db.advance task.eventId task.workerId task.current next now = .error e) :
    (s.next (.advance task now)).db = s.db := by
  simp only [State.next, hstage, h]

/-- Erasures only move forward, and the last step finds nothing left: in every
run in which no batch statement loses a selected row while others are left. -/
theorem erasure_moves_forward {s₀ : State} {as : List Action} (h₀ : Initial keyOf s₀)
    (h : (erasureSystem keyOf).Valid s₀ as)
    (hundisturbed : (erasureSystem keyOf).Along Undisturbed s₀ as) :
    (∀ pre a post, as = pre ++ a :: post →
      MovesForward ((erasureSystem keyOf).exec s₀ pre) a) ∧
    ∀ s, (erasureSystem keyOf).exec s₀ as = s →
      (∀ e ∈ s.db.erasures, ∀ e' ∈ s.db.erasures, e.userId = e'.userId → e = e') ∧
      (∀ e ∈ s.db.erasures, e.step = .postgres → Emptied s.db e.userId) ∧
      ∀ task next now, task.stage = .decided next →
        (task ∈ s.tasks → ∃ result, s.db.advance task.eventId task.workerId task.current next now =
          .ok result) ∧
        ∀ e, s.db.advance task.eventId task.workerId task.current next now = .error e →
          (s.next (.advance task now)).db = s.db := by
  constructor
  · rintro pre a post rfl
    have hpre := (System.valid_append.mp h).1
    have hpost := (System.valid_append.mp h).2
    obtain ⟨halong, hrest⟩ := System.along_append.mp hundisturbed
    have hs := invariant_of_valid h₀ hpre halong
    exact movesForward_of_step hs (step_of_ready hs hpost.1.1 hrest.1)
  · rintro s rfl
    have hs := invariant_of_valid h₀ h hundisturbed
    refine ⟨hs.consistent.unique, ?_, ?_⟩
    · intro e he hstep
      have hcleared := hs.consistent.cleared e he
      rw [hstep] at hcleared
      exact emptied_of_gone (hs.consistent.gone e he) hcleared.1 hcleared.2
    · intro task next now hstage
      refine ⟨fun htask ↦ ?_, fun e herror ↦ failed_advance hstage herror⟩
      have hsound := hs.tasks task htask
      have hknows := hsound.stage
      rw [hstage] at hknows
      obtain ⟨db', moved, hadvance, -⟩ := PrivacyDb.advance_moves task.eventId
        task.workerId now hs.consistent hsound.erasure hknows
      exact ⟨(db', moved), hadvance⟩

end Runs

section Samples

instance {stage : Stage} : Decidable (∃ selected, stage = .photosSelected selected) :=
  match stage with
  | .photosSelected selected => .isTrue ⟨selected, rfl⟩
  | .claimed | .photosMarked _ _ | .swipesSelected _ | .decided _ => .isFalse (by simp)

instance {stage : Stage} : Decidable (∃ marked remaining, stage = .photosMarked marked remaining) :=
  match stage with
  | .photosMarked marked remaining => .isTrue ⟨marked, remaining, rfl⟩
  | .claimed | .photosSelected _ | .swipesSelected _ | .decided _ => .isFalse (by simp)

instance {stage : Stage} : Decidable (∃ doomed, stage = .swipesSelected doomed) :=
  match stage with
  | .swipesSelected doomed => .isTrue ⟨doomed, rfl⟩
  | .claimed | .photosSelected _ | .photosMarked _ _ | .decided _ => .isFalse (by simp)

instance {stage : Stage} : Decidable (∃ next, stage = .decided next) :=
  match stage with
  | .decided next => .isTrue ⟨next, rfl⟩
  | .claimed | .photosSelected _ | .photosMarked _ _ | .swipesSelected _ => .isFalse (by simp)

instance (s : State) (a : Action) : Decidable (s.Ready a) := by
  cases a <;> unfold State.Ready <;> infer_instance

instance (keyOf : Uuid → EventKey) (s : State) : Decidable (s.Keyed keyOf) :=
  inferInstanceAs (Decidable (∀ r ∈ s.db.events.rows, r.key = keyOf r.id))

instance (keyOf : Uuid → EventKey) (s : State) (a : Action) :
    Decidable ((erasureSystem keyOf).Enabled s a) :=
  inferInstanceAs (Decidable (s.Ready a ∧ (s.next a).Keyed keyOf))

/-- Photos whose deletion is queued. -/
def samplePhotos (ids : List Uuid) (h : ids.Nodup) : Table UserPhoto.id :=
  ⟨ids.map fun id ↦ ⟨id, 1, .deleting⟩, by simpa [Function.comp_def] using h⟩

def sampleState (photos : Table UserPhoto.id) : State where
  db := {
    accounts := ⟨[⟨1, none, none⟩], by decide⟩
    requests := ∅, erasures := ∅, events := ∅, photos := photos, swipes := ∅ }
  tasks := []

def sampleKey (_ : Uuid) : EventKey := (.accountErase, 5)

/-- The worker claims the event of the erasure. -/
def sampleClaim (now : ℤ) : Action :=
  .outbox ⟨[(OutboxRow.new 7 (.accountErase, 5) 0 0).claim now 9], by simp⟩

def sampleTask (step : ErasureStep) (stage : Stage) : Task := ⟨7, 9, ⟨5, 1, step⟩, stage⟩

/-- An erasure up to its last step, with what happens between the selection
of the photos and their marking. -/
def sampleErasure (selected : List Uuid) (between : List Action) (marked : List Uuid) :
    List Action :=
  [.accept 1 true 5 7 0, sampleClaim 1, .claim 7 9,
    .customerDeleted (sampleTask .stripe .claimed) true,
    .advance (sampleTask .stripe (.decided .photos)) 2,
    sampleClaim 3, .claim 7 9, .selectPhotos (sampleTask .photos .claimed)] ++ between ++
  [.markPhotos (sampleTask .photos (.photosSelected selected))] ++
  marked.tails.map (fun remaining ↦
    .deletePhoto (sampleTask .photos (.photosMarked marked.length remaining))) ++
  [.advance (sampleTask .photos (.decided .swipes)) 4, sampleClaim 5, .claim 7 9,
    .selectSwipes (sampleTask .swipes .claimed),
    .deleteSwipes (sampleTask .swipes (.swipesSelected [])) 6]

def sampleIds (n : ℕ) : List Uuid := (List.range n).map fun i ↦ BitVec.ofNat 128 (i + 1)

theorem nodup_sampleIds : (sampleIds 51).Nodup := by decide +kernel

theorem initial_sampleState (photos : Table UserPhoto.id) :
    Initial sampleKey (sampleState photos) := by
  refine ⟨?_, rfl, ?_, ?_⟩
  · exact fun e ↦ Table.notMem_empty e
  · exact fun r hr ↦ absurd hr (Table.notMem_empty r)
  · exact fun r hr ↦ absurd hr (Table.notMem_empty r)

/-- Fifty of fifty-one photos are selected, one of them is deleted by its own
event, and the step ends with forty-nine. -/
theorem erasure_leaves_photo :
    Initial sampleKey (sampleState (samplePhotos (sampleIds 51) nodup_sampleIds)) ∧
    (erasureSystem sampleKey).Valid (sampleState (samplePhotos (sampleIds 51) nodup_sampleIds))
      (sampleErasure (sampleIds 50) [.completeDeletion 1] (sampleIds 50).tail) ∧
    ∃ e ∈ ((erasureSystem sampleKey).exec
        (sampleState (samplePhotos (sampleIds 51) nodup_sampleIds))
        (sampleErasure (sampleIds 50) [.completeDeletion 1] (sampleIds 50).tail)).db.erasures.rows,
      e.step = .postgres ∧
      ∃ p ∈ ((erasureSystem sampleKey).exec
          (sampleState (samplePhotos (sampleIds 51) nodup_sampleIds))
          (sampleErasure (sampleIds 50) [.completeDeletion 1]
            (sampleIds 50).tail)).db.photos.rows, p.userId = e.userId :=
  ⟨initial_sampleState _, by decide +kernel, by decide +kernel⟩

instance (s : State) (task : Task) : Decidable (Undisturbed s (.markPhotos task)) :=
  match hstage : task.stage with
  | .photosSelected selected =>
      decidable_of_iff ((selected.all fun id ↦ s.db.photos.rows.any fun p ↦ p.id = id) = true ∨
        ∀ p ∈ s.db.photos.rows, p.userId = task.current.userId → p.id ∈ selected) (by
          simp only [Undisturbed, hstage, List.all_eq_true, List.any_eq_true, decide_eq_true_eq,
            Stage.photosSelected.injEq, forall_eq']
          rfl)
  | .claimed | .photosMarked _ _ | .swipesSelected _ | .decided _ =>
      .isTrue fun _ heq ↦ absurd (hstage.symm.trans heq) (by simp)

instance (s : State) (task : Task) (now : ℤ) : Decidable (Undisturbed s (.deleteSwipes task now)) :=
  match hstage : task.stage with
  | .swipesSelected doomed =>
      decidable_of_iff ((doomed.all fun pair ↦ s.db.swipes.rows.any fun w ↦ w.pair = pair) = true ∨
        ∀ w ∈ s.db.swipes.rows, w.concerns task.current.userId = true → w.pair ∈ doomed) (by
          simp only [Undisturbed, hstage, List.all_eq_true, List.any_eq_true, decide_eq_true_eq,
            Stage.swipesSelected.injEq, forall_eq']
          rfl)
  | .claimed | .photosSelected _ | .photosMarked _ _ | .decided _ =>
      .isTrue fun _ heq ↦ absurd (hstage.symm.trans heq) (by simp)

instance (s : State) : ∀ a, Decidable (Undisturbed s a)
  | .markPhotos task => inferInstanceAs (Decidable (Undisturbed s (.markPhotos task)))
  | .deleteSwipes task now => inferInstanceAs (Decidable (Undisturbed s (.deleteSwipes task now)))
  | .createAccount .. | .createRequest .. | .updateRequest .. | .accept .. | .createProcessing ..
  | .updatePhoto .. | .discardProcessing .. | .completeDeletion .. | .swipe .. | .purgeSwipes ..
  | .outbox .. | .claim .. | .customerDeleted .. | .selectPhotos .. | .deletePhoto ..
  | .selectSwipes .. | .advance .. | .stop .. => .isTrue trivial

def oneState : State := sampleState (samplePhotos [1] (List.nodup_singleton 1))

def oneErasure : List Action := sampleErasure [1] [.swipe ⟨2, 3, 0, by decide⟩ false] [1]

/-- A run with one photo, which is deleted before the last step. -/
theorem erasure_moves_forward_one_photo :
    (erasureSystem sampleKey).Valid oneState oneErasure ∧
    ∀ s, (erasureSystem sampleKey).exec oneState oneErasure = s →
      ∀ e ∈ s.db.erasures, e.step = .postgres → Emptied s.db e.userId := by
  have hrun : ((erasureSystem sampleKey).restrict Undisturbed).Valid oneState oneErasure := by
    decide +kernel
  obtain ⟨hvalid, halong⟩ := hrun.of_restrict
  refine ⟨hvalid, fun s hs ↦ ?_⟩
  exact ((erasure_moves_forward (initial_sampleState _) hvalid halong).2 s hs).2.1

end Samples

end Histae.Privacy
