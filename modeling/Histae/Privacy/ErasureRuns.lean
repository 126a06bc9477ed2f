import Mathlib
import Histae.Privacy.Erasure
import Histae.Systems.Run

/-!
# Workers, users and administrators around an erasure

A worker holds what it has read and what it has decided; the tables change
under it. The outbox may change in any way between two of its statements: the
event is claimed, deferred, retried or lost to another worker. An event id
names one event for ever, given by `keyOf`.

A worker may stop at any point, which forgets its task.
-/

namespace Histae.Privacy

open Relational Outbox Systems

/-- How far `process` has come with a claimed erasure. -/
inductive Stage
  | claimed
  | photosSelected (selected : List Uuid)
  | photosMarked (marked : ℕ) (remaining : List Uuid)
  | swipesSelected (doomed : List (Uuid × Uuid))
  | decided (next : ErasureStep)
  deriving DecidableEq

structure Task where
  eventId : Uuid
  workerId : Uuid
  current : ClaimedErasure
  stage : Stage
  deriving DecidableEq

structure State where
  db : PrivacyDb
  tasks : List Task

inductive Action
  | createAccount (userId : Uuid)
  | createRequest (id userId : Uuid) (type : DataRequestType)
  | updateRequest (requestId : Uuid) (transition : DataRequestTransition)
      (response : Option String) (eventId : Uuid) (now : ℤ)
  | accept (userId : Uuid) (consumed : Bool) (newId eventId : Uuid) (now : ℤ)
  | createProcessing (photoId userId : Uuid)
  | updatePhoto (photoId : Uuid) (status : PhotoStatus)
  | discardProcessing (photoId userId : Uuid)
  | completeDeletion (photoId : Uuid)
  | swipe (decision : SwipeDecision) (renew : Bool)
  | purgeSwipes (selected : List (Uuid × Uuid))
  | outbox (events : OutboxTable)
  | claim (eventId workerId : Uuid)
  | customerDeleted (task : Task) (finished : Bool)
  | selectPhotos (task : Task)
  | markPhotos (task : Task)
  | deletePhoto (task : Task)
  | selectSwipes (task : Task)
  | deleteSwipes (task : Task) (now : ℤ)
  | advance (task : Task) (now : ℤ)
  | stop (task : Task)

namespace State

variable (s : State)

def leave (task : Task) : List Task := s.tasks.erase task

def proceed (task : Task) (stage : Stage) : List Task :=
  { task with stage := stage } :: s.leave task

/-- A transaction that commits or leaves the tables as they are. -/
def attempt (result : Except DatabaseError PrivacyDb) : State :=
  match result with
  | .ok db => { s with db := db }
  | .error _ => s

/-- What `process` does next with an erasure that it has just read. -/
def begin (eventId workerId : Uuid) (current : ClaimedErasure) : State :=
  match current.step with
  | .completed => s
  | .postgres => { s with tasks := ⟨eventId, workerId, current, .decided .completed⟩ :: s.tasks }
  | .stripe | .photos | .swipes =>
      { s with tasks := ⟨eventId, workerId, current, .claimed⟩ :: s.tasks }

/-- The end of `delete_for_account`, once every marked photo is deleted. -/
def photosNext (marked : ℕ) : ErasureStep :=
  if marked < photoErasureBatchSize then .swipes else .photos

def next : Action → State
  | .createAccount userId =>
      match s.db.accounts.insert? ⟨userId, none, none⟩ with
      | some accounts => { s with db := { s.db with accounts := accounts } }
      | none => s
  | .createRequest id userId type => s.attempt (s.db.createRequest id userId type)
  | .updateRequest requestId transition response eventId now =>
      s.attempt (s.db.updateRequest requestId transition response eventId now)
  | .accept userId consumed newId eventId now =>
      s.attempt (s.db.accept userId consumed newId eventId now)
  | .createProcessing photoId userId => s.attempt (s.db.createProcessing photoId userId)
  | .updatePhoto photoId status => s.attempt (s.db.updatePhoto photoId status)
  | .discardProcessing photoId userId => { s with db := s.db.discardProcessing photoId userId }
  | .completeDeletion photoId => { s with db := s.db.completeDeletion photoId }
  | .swipe decision renew => s.attempt (s.db.swipe decision renew)
  | .purgeSwipes selected => { s with db := s.db.purgeSwipes selected }
  | .outbox events => { s with db := { s.db with events := events } }
  | .claim eventId workerId =>
      match s.db.claimed eventId workerId with
      | some current => s.begin eventId workerId current
      | none => s
  | .customerDeleted task finished =>
      { s with tasks := s.proceed task (.decided (if finished then .photos else .stripe)) }
  | .selectPhotos task =>
      let selected := s.db.photoBatch task.current.userId photoErasureBatchSize
      { s with tasks := s.proceed task (.photosSelected selected) }
  | .markPhotos task =>
      match task.stage with
      | .photosSelected selected =>
          let (db, marked) := s.db.markPhotos selected
          { db := db, tasks := s.proceed task (.photosMarked marked.length marked) }
      | _ => s
  | .deletePhoto task =>
      match task.stage with
      | .photosMarked marked (photoId :: remaining) =>
          { db := s.db.completeDeletion photoId
            tasks := s.proceed task (.photosMarked marked remaining) }
      | .photosMarked marked [] => { s with tasks := s.proceed task (.decided (photosNext marked)) }
      | _ => s
  | .selectSwipes task =>
      let doomed := s.db.swipeBatch task.current.userId swipeErasureBatchSize
      { s with tasks := s.proceed task (.swipesSelected doomed) }
  | .deleteSwipes task now =>
      match task.stage with
      | .swipesSelected doomed =>
          { db := (s.db.deleteSwipes task.eventId task.workerId task.current doomed
              swipeErasureBatchSize now).1
            tasks := s.leave task }
      | _ => s
  | .advance task now =>
      match task.stage with
      | .decided next =>
          match s.db.advance task.eventId task.workerId task.current next now with
          | .ok (db, _) => { db := db, tasks := s.leave task }
          | .error _ => { s with tasks := s.leave task }
      | _ => s
  | .stop task => { s with tasks := s.leave task }

/-- The step is the next one of its task. -/
def Ready : Action → Prop
  | .customerDeleted task _ =>
      task ∈ s.tasks ∧ task.stage = .claimed ∧ task.current.step = .stripe
  | .selectPhotos task => task ∈ s.tasks ∧ task.stage = .claimed ∧ task.current.step = .photos
  | .selectSwipes task => task ∈ s.tasks ∧ task.stage = .claimed ∧ task.current.step = .swipes
  | .markPhotos task => task ∈ s.tasks ∧ ∃ selected, task.stage = .photosSelected selected
  | .deletePhoto task =>
      task ∈ s.tasks ∧ ∃ marked remaining, task.stage = .photosMarked marked remaining
  | .deleteSwipes task _ => task ∈ s.tasks ∧ ∃ doomed, task.stage = .swipesSelected doomed
  | .advance task _ => task ∈ s.tasks ∧ ∃ next, task.stage = .decided next
  | .stop task => task ∈ s.tasks
  | _ => True

def Keyed (keyOf : Uuid → EventKey) : Prop := ∀ r ∈ s.db.events, r.key = keyOf r.id

end State

def erasureSystem (keyOf : Uuid → EventKey) : System State Action where
  Enabled s a := s.Ready a ∧ (s.next a).Keyed keyOf
  next := State.next

/-- Before the first erasure. -/
structure Initial (keyOf : Uuid → EventKey) (s : State) : Prop where
  erasures : ∀ e, e ∉ s.db.erasures
  tasks : s.tasks = []
  keyed : s.Keyed keyOf
  owner : ∀ r ∈ s.db.requests, ∃ a ∈ s.db.accounts, a.userId = r.userId

namespace PrivacyDb

/-- The account of the user is deleted. -/
def Gone (db : PrivacyDb) (userId : Uuid) : Prop :=
  ∃ a ∈ db.accounts, a.userId = userId ∧ a.deletedAt ≠ none

def InProgress (db : PrivacyDb) (requestId userId : Uuid) : Prop :=
  ∃ r ∈ db.requests, r.id = requestId ∧ r.userId = userId ∧ r.status = .inProgress ∧
    r.type = .erasure

def NoPhotos (db : PrivacyDb) (userId : Uuid) : Prop := ∀ p ∈ db.photos, p.userId ≠ userId

def NoSwipes (db : PrivacyDb) (userId : Uuid) : Prop :=
  ∀ w ∈ db.swipes, w.concerns userId = false

/-- What has to be gone when an erasure has come to a step. -/
def Cleared (db : PrivacyDb) (userId : Uuid) : ErasureStep → Prop
  | .stripe | .photos => True
  | .swipes => db.NoPhotos userId
  | .postgres | .completed => db.NoPhotos userId ∧ db.NoSwipes userId

/-- What one step may do to the accounts, and to the rows of a deleted one. -/
structure Settles (db db' : PrivacyDb) : Prop where
  accounts : ∀ a ∈ db.accounts, ∃ a' ∈ db'.accounts, a'.userId = a.userId ∧
    (a.deletedAt ≠ none → a'.deletedAt ≠ none)
  photos : ∀ p' ∈ db'.photos, db.Gone p'.userId →
    ∃ p ∈ db.photos, p.id = p'.id ∧ p.userId = p'.userId ∧
      (p.status = .deleting → p'.status = .deleting)
  swipes : ∀ w' ∈ db'.swipes, ∀ userId, db.Gone userId → w'.concerns userId = true →
    ∃ w ∈ db.swipes, w.pair = w'.pair

variable {db db' : PrivacyDb} {userId : Uuid}

theorem requireLive_eq_ok {userIds : List Uuid} (h : db.requireLive userIds = .ok ()) :
    ∀ userId ∈ userIds, ¬ db.Gone userId := by
  rintro userId hmem ⟨a, ha, rfl, hdeleted⟩
  unfold requireLive at h
  rw [if_pos ⟨a, ha, hmem, hdeleted⟩] at h
  exact absurd h (by simp)

theorem requireLive_eq_error {userIds : List Uuid} (hmem : userId ∈ userIds)
    (h : db.Gone userId) : db.requireLive userIds = .error .accountUnavailable := by
  obtain ⟨a, ha, rfl, hdeleted⟩ := h
  exact if_pos ⟨a, ha, hmem, hdeleted⟩

theorem concerns_congr {w w' : SwipeDecision} (h : w.pair = w'.pair) (userId : Uuid) :
    w.concerns userId = w'.concerns userId := by
  obtain ⟨hactor, htarget⟩ := Prod.mk.inj h
  simp only [SwipeDecision.concerns, hactor, htarget]

namespace Settles

theorem refl (db : PrivacyDb) : Settles db db where
  accounts a ha := ⟨a, ha, rfl, id⟩
  photos p hp _ := ⟨p, hp, rfl, rfl, id⟩
  swipes w hw _ _ _ := ⟨w, hw, rfl⟩

theorem gone (h : Settles db db') (hgone : db.Gone userId) : db'.Gone userId := by
  obtain ⟨a, ha, rfl, hdeleted⟩ := hgone
  obtain ⟨a', ha', hid, hdeleted'⟩ := h.accounts a ha
  exact ⟨a', ha', hid, hdeleted' hdeleted⟩

theorem trans {db'' : PrivacyDb} (h : Settles db db') (h' : Settles db' db'') :
    Settles db db'' where
  accounts a ha := by
    obtain ⟨a', ha', hid, hdeleted⟩ := h.accounts a ha
    obtain ⟨a'', ha'', hid', hdeleted'⟩ := h'.accounts a' ha'
    exact ⟨a'', ha'', hid'.trans hid, fun hnone ↦ hdeleted' (hdeleted hnone)⟩
  photos p'' hp'' hgone := by
    obtain ⟨p', hp', hid', huser', hstatus'⟩ := h'.photos p'' hp'' (h.gone hgone)
    obtain ⟨p, hp, hid, huser, hstatus⟩ := h.photos p' hp' (huser' ▸ hgone)
    exact ⟨p, hp, hid.trans hid', huser.trans huser', fun hdeleting ↦ hstatus' (hstatus hdeleting)⟩
  swipes w'' hw'' userId hgone hconcerns := by
    obtain ⟨w', hw', hpair'⟩ := h'.swipes w'' hw'' userId (h.gone hgone) hconcerns
    have hconcerns' : w'.concerns userId = true := (concerns_congr hpair' userId).trans hconcerns
    obtain ⟨w, hw, hpair⟩ := h.swipes w' hw' userId hgone hconcerns'
    exact ⟨w, hw, hpair.trans hpair'⟩

theorem noPhotos (h : Settles db db') (hgone : db.Gone userId) (hnone : db.NoPhotos userId) :
    db'.NoPhotos userId := by
  rintro p' hp' rfl
  obtain ⟨p, hp, -, huser, -⟩ := h.photos p' hp' hgone
  exact hnone p hp huser

theorem noSwipes (h : Settles db db') (hgone : db.Gone userId) (hnone : db.NoSwipes userId) :
    db'.NoSwipes userId := by
  intro w' hw'
  by_contra hconcerns
  rw [Bool.not_eq_false] at hconcerns
  obtain ⟨w, hw, hpair⟩ := h.swipes w' hw' userId hgone hconcerns
  exact absurd ((concerns_congr hpair userId).trans hconcerns) (by rw [hnone w hw]; decide)

theorem cleared (h : Settles db db') (hgone : db.Gone userId) {step : ErasureStep}
    (hcleared : db.Cleared userId step) : db'.Cleared userId step := by
  cases step with
  | stripe | photos => trivial
  | swipes => exact h.noPhotos hgone hcleared
  | postgres | completed =>
      exact ⟨h.noPhotos hgone hcleared.1, h.noSwipes hgone hcleared.2⟩

theorem of_eq (haccounts : db'.accounts = db.accounts) (hphotos : db'.photos = db.photos)
    (hswipes : db'.swipes = db.swipes) : Settles db db' where
  accounts a ha := ⟨a, haccounts ▸ ha, rfl, id⟩
  photos p hp _ := ⟨p, hphotos ▸ hp, rfl, rfl, id⟩
  swipes w hw _ _ _ := ⟨w, hswipes ▸ hw, rfl⟩

theorem of_photos (haccounts : db'.accounts = db.accounts) (hswipes : db'.swipes = db.swipes)
    (hphotos : ∀ p' ∈ db'.photos, db.Gone p'.userId → ∃ p ∈ db.photos, p.id = p'.id ∧
      p.userId = p'.userId ∧ (p.status = .deleting → p'.status = .deleting)) :
    Settles db db' where
  accounts a ha := ⟨a, haccounts ▸ ha, rfl, id⟩
  photos := hphotos
  swipes w hw _ _ _ := ⟨w, hswipes ▸ hw, rfl⟩

theorem of_swipes (haccounts : db'.accounts = db.accounts) (hphotos : db'.photos = db.photos)
    (hswipes : ∀ w' ∈ db'.swipes, ∀ userId, db.Gone userId → w'.concerns userId = true →
      ∃ w ∈ db.swipes, w.pair = w'.pair) : Settles db db' where
  accounts a ha := ⟨a, haccounts ▸ ha, rfl, id⟩
  photos p hp _ := ⟨p, hphotos ▸ hp, rfl, rfl, id⟩
  swipes := hswipes

theorem of_deletedAt {f : UserAccount → UserAccount} {q : UserAccount → Bool}
    (hf : ∀ a, (f a).userId = a.userId) (hdeleted : ∀ a, a.deletedAt ≠ none → (f a).deletedAt ≠ none)
    (haccounts : db'.accounts = db.accounts.modify q f hf) (hphotos : db'.photos = db.photos)
    (hswipes : db'.swipes = db.swipes) : Settles db db' where
  accounts a ha := by
    refine ⟨if q a then f a else a, haccounts ▸ (Table.mem_modify hf).mpr ⟨a, ha, rfl⟩, ?_, ?_⟩
    · split
      · exact hf a
      · rfl
    · intro hnone
      split
      · exact hdeleted a hnone
      · exact hnone
  photos p hp _ := ⟨p, hphotos ▸ hp, rfl, rfl, id⟩
  swipes w hw _ _ _ := ⟨w, hswipes ▸ hw, rfl⟩

end Settles

/-- A step that touches neither the erasures nor the requests. -/
structure SettlesRows (db db' : PrivacyDb) : Prop where
  settles : Settles db db'
  erasures : db'.erasures = db.erasures
  requests : db'.requests = db.requests

section Operations

theorem or_some_ne_none {o : Option ℤ} (now : ℤ) (h : o ≠ none) : o.or (some now) ≠ none := by
  cases o with
  | none => exact absurd rfl h
  | some t => simp

/-- The rows that the start of an erasure writes. -/
theorem startErasure_eq_ok {requestId eventId : Uuid} {now : ℤ}
    (h : db.startErasure requestId userId eventId now = .ok db') :
    ∃ erasures, db.erasures.insert? ⟨requestId, userId, .stripe⟩ = some erasures ∧
      db'.erasures = erasures ∧ db'.requests = db.requests ∧ db'.photos = db.photos ∧
      db'.swipes = db.swipes ∧
      db'.accounts = db.accounts.modify (fun a ↦ a.userId = userId)
        (fun a ↦ { a with deletedAt := a.deletedAt.or (some now) }) fun _ ↦ rfl := by
  obtain ⟨erasures, hinsert, hdb⟩ := bind_eq_ok.mp h
  obtain rfl := Except.ok.inj hdb
  exact ⟨erasures, orConstraint_eq_ok.mp hinsert, rfl, rfl, rfl, rfl, rfl⟩

theorem settles_createProcessing {photoId : Uuid}
    (h : db.createProcessing photoId userId = .ok db') : SettlesRows db db' := by
  unfold createProcessing at h
  split at h
  · obtain rfl := Except.ok.inj h
    exact ⟨Settles.refl db, rfl, rfl⟩
  · obtain ⟨_, hlive, h⟩ := bind_eq_ok.mp h
    obtain ⟨photos, hinsert, hdb⟩ := bind_eq_ok.mp h
    obtain rfl := Except.ok.inj hdb
    refine ⟨Settles.of_photos rfl rfl fun p' hp' hgone ↦ ?_, rfl, rfl⟩
    rcases (Table.mem_insert (orConstraint_eq_ok.mp hinsert)).mp hp' with rfl | hold
    · exact absurd hgone (requireLive_eq_ok hlive userId (by simp))
    · exact ⟨p', hold, rfl, rfl, id⟩

theorem settles_updatePhoto {photoId : Uuid} {status : PhotoStatus}
    (h : db.updatePhoto photoId status = .ok db') : SettlesRows db db' := by
  unfold updatePhoto at h
  cases hfind : db.photos.find? photoId with
  | none =>
      rw [hfind] at h
      obtain rfl := Except.ok.inj h
      exact ⟨Settles.refl db, rfl, rfl⟩
  | some photo =>
      rw [hfind] at h
      obtain ⟨hphoto, hid⟩ := Table.find?_eq_some_iff.mp hfind
      obtain ⟨_, hlive, hdb⟩ := bind_eq_ok.mp h
      obtain rfl := Except.ok.inj hdb
      have hkeep : db.Gone photo.userId → status = .deleting := by
        intro hgone
        by_contra hne
        rw [if_neg hne] at hlive
        exact requireLive_eq_ok hlive photo.userId (by simp) hgone
      refine ⟨Settles.of_photos rfl rfl fun p' hp' hgone ↦ ?_, rfl, rfl⟩
      obtain ⟨p, hp, rfl⟩ := List.mem_map.mp hp'
      refine ⟨p, hp, ?_⟩
      by_cases hsame : p.id = photoId
      · obtain rfl := Table.eq_of_key_eq hp hphoto (hsame.trans hid.symm)
        simp only [hsame, decide_true, if_true] at hgone ⊢
        exact ⟨trivial, trivial, fun _ ↦ hkeep hgone⟩
      · simp [hsame]

theorem settles_photos_delete {q : UserPhoto → Bool} :
    Settles db { db with photos := db.photos.delete q } :=
  Settles.of_photos rfl rfl fun p hp _ ↦ ⟨p, (Table.mem_delete.mp hp).1, rfl, rfl, id⟩

theorem settles_swipes_delete {q : SwipeDecision → Bool} :
    Settles db { db with swipes := db.swipes.delete q } :=
  Settles.of_swipes rfl rfl fun w hw _ _ _ ↦ ⟨w, (Table.mem_delete.mp hw).1, rfl⟩

theorem settles_markPhotos {selected : List Uuid} : Settles db (db.markPhotos selected).1 := by
  refine Settles.of_photos rfl rfl fun p' hp' _ ↦ ?_
  obtain ⟨p, hp, rfl⟩ := List.mem_map.mp hp'
  refine ⟨p, hp, ?_⟩
  split
  · exact ⟨rfl, rfl, fun _ ↦ rfl⟩
  · exact ⟨rfl, rfl, id⟩

theorem settles_swipe {decision : SwipeDecision} {renew : Bool}
    (h : db.swipe decision renew = .ok db') : SettlesRows db db' := by
  obtain ⟨_, hlive, hdb⟩ := bind_eq_ok.mp h
  obtain rfl := Except.ok.inj hdb
  refine ⟨Settles.of_swipes rfl rfl fun w' hw' userId hgone hconcerns ↦ ?_, rfl, rfl⟩
  have hnot : w'.pair ≠ decision.pair := by
    intro heq
    have hdecision : decision.concerns userId = true :=
      (concerns_congr heq userId).symm.trans hconcerns
    refine requireLive_eq_ok hlive userId ?_ hgone
    rw [SwipeDecision.concerns, Bool.or_eq_true, decide_eq_true_eq, decide_eq_true_eq] at hdecision
    rcases hdecision with rfl | rfl <;> simp
  have hstored := Table.find?_key hw'
  rw [Table.find?_upsert, if_neg hnot] at hstored
  exact ⟨w', (Table.find?_eq_some_iff.mp hstored).1, rfl⟩

end Operations

/-- What holds of the tables at every moment. -/
structure Consistent (db : PrivacyDb) : Prop where
  unique : ∀ e ∈ db.erasures, ∀ e' ∈ db.erasures, e.userId = e'.userId → e = e'
  gone : ∀ e ∈ db.erasures, db.Gone e.userId
  request : ∀ e ∈ db.erasures, e.step ≠ .completed → db.InProgress e.requestId e.userId
  owner : ∀ r ∈ db.requests, ∃ a ∈ db.accounts, a.userId = r.userId
  cleared : ∀ e ∈ db.erasures, db.Cleared e.userId e.step

/-- A step that moves no erasure. -/
structure Follows (db db' : PrivacyDb) : Prop where
  settles : Settles db db'
  erasures : ∀ e ∈ db.erasures, e ∈ db'.erasures
  consistent : Consistent db'

theorem Follows.trans {db'' : PrivacyDb} (h : Follows db db') (h' : Follows db' db'') :
    Follows db db'' :=
  ⟨h.settles.trans h'.settles, fun e he ↦ h'.erasures e (h.erasures e he), h'.consistent⟩

namespace Consistent

theorem follows (h : Consistent db) : Follows db db := ⟨Settles.refl db, fun _ he ↦ he, h⟩

/-- A step that leaves the erasures and their requests. -/
theorem frame (h : Consistent db) (hsettles : Settles db db') (herasures : db'.erasures = db.erasures)
    (hrequests : ∀ e ∈ db.erasures, db.InProgress e.requestId e.userId →
      db'.InProgress e.requestId e.userId)
    (howner : ∀ r ∈ db'.requests, ∃ a ∈ db.accounts, a.userId = r.userId) : Follows db db' := by
  refine ⟨hsettles, fun e he ↦ herasures ▸ he, herasures ▸ h.unique, ?_, ?_, ?_, ?_⟩
  · intro e he
    exact hsettles.gone (h.gone e (herasures ▸ he))
  · intro e he hstep
    rw [herasures] at he
    exact hrequests e he (h.request e he hstep)
  · intro r hr
    obtain ⟨a, ha, hid⟩ := howner r hr
    obtain ⟨a', ha', hid', -⟩ := hsettles.accounts a ha
    exact ⟨a', ha', hid'.trans hid⟩
  · intro e he
    rw [herasures] at he
    exact hsettles.cleared (h.gone e he) (h.cleared e he)

theorem frame_requests (h : Consistent db) (hrows : SettlesRows db db') : Follows db db' := by
  refine h.frame hrows.settles hrows.erasures ?_ ?_
  · rintro e - ⟨r, hr, hrequest⟩
    exact ⟨r, hrows.requests ▸ hr, hrequest⟩
  · exact hrows.requests ▸ h.owner

/-- The start of an erasure that no other erasure of the user precedes. -/
theorem startErasure (h : Consistent db) {requestId eventId : Uuid} {now : ℤ}
    (hnone : ∀ e ∈ db.erasures, e.userId ≠ userId) (hrequest : db.InProgress requestId userId)
    (hstart : db.startErasure requestId userId eventId now = .ok db') : Follows db db' := by
  obtain ⟨erasures, hinsert, herasures, hrequests, hphotos, hswipes, haccounts⟩ :=
    startErasure_eq_ok hstart
  have hsettles : Settles db db' :=
    Settles.of_deletedAt _ (fun _ ↦ or_some_ne_none now) haccounts hphotos hswipes
  have hmem : ∀ e, e ∈ db'.erasures ↔ e = ⟨requestId, userId, .stripe⟩ ∨ e ∈ db.erasures := by
    intro e
    rw [herasures]
    exact Table.mem_insert hinsert
  refine ⟨hsettles, fun e he ↦ (hmem e).mpr (Or.inr he), ?_, ?_, ?_, ?_, ?_⟩
  · intro e he e' he' huser
    rcases (hmem e).mp he with rfl | hold <;> rcases (hmem e').mp he' with rfl | hold'
    · rfl
    · exact absurd huser.symm (hnone e' hold')
    · exact absurd huser (hnone e hold)
    · exact h.unique e hold e' hold' huser
  · intro e he
    rcases (hmem e).mp he with rfl | hold
    · obtain ⟨r, hr, -, rfl, -⟩ := hrequest
      obtain ⟨a, ha, hid⟩ := h.owner r hr
      refine ⟨{ a with deletedAt := a.deletedAt.or (some now) }, ?_, hid, ?_⟩
      · rw [haccounts, Table.mem_modify]
        exact ⟨a, ha, by simp [hid]⟩
      · cases a.deletedAt <;> simp
    · exact hsettles.gone (h.gone e hold)
  · intro e he hstep
    rcases (hmem e).mp he with rfl | hold
    · obtain ⟨r, hr, hfields⟩ := hrequest
      exact ⟨r, hrequests ▸ hr, hfields⟩
    · obtain ⟨r, hr, hfields⟩ := h.request e hold hstep
      exact ⟨r, hrequests ▸ hr, hfields⟩
  · intro r hr
    rw [hrequests] at hr
    obtain ⟨a, ha, hid⟩ := h.owner r hr
    obtain ⟨a', ha', hid', -⟩ := hsettles.accounts a ha
    exact ⟨a', ha', hid'.trans hid⟩
  · intro e he
    rcases (hmem e).mp he with rfl | hold
    · trivial
    · exact hsettles.cleared (h.gone e hold) (h.cleared e hold)

/-- The move of one erasure to a step for which it is cleared. -/
theorem setStep (h : Consistent db) (hsettles : Settles db db') (requestId : Uuid)
    (current next : ErasureStep)
    (herasures : db'.erasures = (db.setStep requestId current next).erasures)
    (hrequests : ∀ e ∈ db.erasures, e.requestId = requestId → next ≠ .completed →
      db'.InProgress e.requestId e.userId)
    (hothers : ∀ e ∈ db.erasures, e.requestId ≠ requestId → db.InProgress e.requestId e.userId →
      db'.InProgress e.requestId e.userId)
    (hstay : ∀ e ∈ db.erasures, e.requestId = requestId → e.step = current)
    (howner : ∀ r ∈ db'.requests, ∃ a ∈ db.accounts, a.userId = r.userId)
    (hcleared : ∀ e ∈ db.erasures, e.requestId = requestId → db'.Cleared e.userId next) :
    Consistent db' := by
  have hmem : ∀ e' ∈ db'.erasures, ∃ e ∈ db.erasures, e.requestId = e'.requestId ∧
      e.userId = e'.userId ∧
      (e.requestId = requestId ∧ e'.step = next ∨ e.requestId ≠ requestId ∧ e' = e) := by
    intro e' he'
    rw [herasures] at he'
    obtain ⟨e, he, rfl⟩ := List.mem_map.mp he'
    refine ⟨e, he, ?_⟩
    by_cases hid : e.requestId = requestId
    · simp [hid, hstay e he hid]
    · simp [hid]
  refine ⟨?_, ?_, ?_, ?_, ?_⟩
  · intro e he e' he' huser
    obtain ⟨e₀, he₀, hid, huser₀, -⟩ := hmem e he
    obtain ⟨e₁, he₁, hid', huser₁, -⟩ := hmem e' he'
    obtain rfl := h.unique e₀ he₀ e₁ he₁ (huser₀.trans (huser.trans huser₁.symm))
    exact Table.eq_of_key_eq he he' (hid.symm.trans hid')
  · intro e he
    obtain ⟨e₀, he₀, -, huser₀, -⟩ := hmem e he
    exact huser₀ ▸ hsettles.gone (h.gone e₀ he₀)
  · intro e he hstep
    obtain ⟨e₀, he₀, hid, huser₀, hmoved | ⟨hne, rfl⟩⟩ := hmem e he
    · rw [← hid, ← huser₀]
      exact hrequests e₀ he₀ hmoved.1 (hmoved.2 ▸ hstep)
    · exact hothers e he₀ hne (h.request e he₀ hstep)
  · intro r hr
    obtain ⟨a, ha, hid⟩ := howner r hr
    obtain ⟨a', ha', hid', -⟩ := hsettles.accounts a ha
    exact ⟨a', ha', hid'.trans hid⟩
  · intro e he
    obtain ⟨e₀, he₀, -, huser₀, hmoved | ⟨-, rfl⟩⟩ := hmem e he
    · rw [← huser₀, hmoved.2]
      exact hcleared e₀ he₀ hmoved.1
    · exact hsettles.cleared (h.gone e he₀) (h.cleared e he₀)

theorem createRequest (h : Consistent db) {id : Uuid} {type : DataRequestType}
    (hcreate : db.createRequest id userId type = .ok db') : Follows db db' := by
  obtain ⟨_, -, hcreate⟩ := bind_eq_ok.mp hcreate
  obtain ⟨a, ha, hcreate⟩ := bind_eq_ok.mp hcreate
  obtain ⟨ha, hid⟩ := Table.find?_eq_some_iff.mp (orConstraint_eq_ok.mp ha)
  split at hcreate
  · obtain rfl := Except.ok.inj hcreate
    exact h.follows
  · obtain ⟨requests, hinsert, hdb⟩ := bind_eq_ok.mp hcreate
    obtain rfl := Except.ok.inj hdb
    have hmem := fun r ↦ Table.mem_insert (s := r) (orConstraint_eq_ok.mp hinsert)
    refine h.frame (Settles.of_eq rfl rfl rfl) rfl ?_ ?_
    · rintro e - ⟨r, hr, hfields⟩
      exact ⟨r, (hmem r).mpr (Or.inr hr), hfields⟩
    · intro r hr
      rcases (hmem r).mp hr with rfl | hold
      · exact ⟨a, ha, hid⟩
      · exact h.owner r hold

/-- A change of the status of one request that is not the request of an
erasure, or that leaves it in progress. -/
theorem modifyStatus (h : Consistent db) {requestId : Uuid} (status : DataRequestStatus)
    (hkeep : (∀ e ∈ db.erasures, e.requestId ≠ requestId) ∨ status = .inProgress) :
    Follows db { db with
      requests := db.requests.modify (fun r ↦ r.id = requestId)
        (fun r ↦ { r with status := status }) fun _ ↦ rfl } := by
  refine h.frame (Settles.of_eq rfl rfl rfl) rfl ?_ ?_
  · rintro e he ⟨r, hr, hid, huser, hstatus, htype⟩
    refine ⟨_, List.mem_map_of_mem hr, ?_⟩
    rcases hkeep with hnone | rfl
    · have hne : ¬ decide (r.id = requestId) = true := by simpa [hid] using hnone e he
      rw [if_neg hne]
      exact ⟨hid, huser, hstatus, htype⟩
    · split <;> exact ⟨hid, huser, by simp_all, htype⟩
  · intro r' hr'
    obtain ⟨r, hr, rfl⟩ := List.mem_map.mp hr'
    obtain ⟨a, ha, hid⟩ := h.owner r hr
    refine ⟨a, ha, ?_⟩
    split <;> exact hid

theorem openErasureRequest (h : Consistent db) {newId requestId : Uuid}
    (hopen : db.openErasureRequest newId userId = .ok (db', requestId))
    (haccount : ∃ a ∈ db.accounts, a.userId = userId) :
    Follows db db' ∧ db'.InProgress requestId userId ∧ db'.erasures = db.erasures := by
  obtain ⟨_, -, hopen⟩ := bind_eq_ok.mp hopen
  cases hfind : db.requests.rows.find? (isOpenRequest userId .erasure) with
  | some request =>
      rw [hfind] at hopen
      obtain ⟨rfl, rfl⟩ := Prod.mk.inj (Except.ok.inj hopen)
      have hmem : request ∈ db.requests := List.mem_of_find?_eq_some hfind
      have hrequest := List.find?_some hfind
      simp only [isOpenRequest, Bool.and_eq_true, decide_eq_true_eq] at hrequest
      refine ⟨h.modifyStatus .inProgress (Or.inr rfl), ⟨_, List.mem_map_of_mem hmem, ?_⟩, rfl⟩
      simp [hrequest.1.1, hrequest.1.2]
  | none =>
      rw [hfind] at hopen
      obtain ⟨requests, hinsert, hdb⟩ := bind_eq_ok.mp hopen
      obtain ⟨rfl, rfl⟩ := Prod.mk.inj (Except.ok.inj hdb)
      have hmem := fun r ↦ Table.mem_insert (s := r) (orConstraint_eq_ok.mp hinsert)
      refine ⟨h.frame (Settles.of_eq rfl rfl rfl) rfl ?_ ?_, ⟨_, (hmem _).mpr (Or.inl rfl), ?_⟩, rfl⟩
      · rintro e - ⟨r, hr, hfields⟩
        exact ⟨r, (hmem r).mpr (Or.inr hr), hfields⟩
      · intro r hr
        rcases (hmem r).mp hr with rfl | hold
        · exact haccount
        · exact h.owner r hold
      · exact ⟨rfl, rfl, rfl, rfl⟩

theorem enqueueAccountErasure (h : Consistent db) {supplied : Option Uuid} {newId eventId : Uuid}
    {now : ℤ} (haccount : ∃ a ∈ db.accounts, a.userId = userId)
    (hsupplied : ∀ requestId ∈ supplied, db.InProgress requestId userId)
    (henqueue : db.enqueueAccountErasure userId supplied newId eventId now = .ok db') :
    Follows db db' := by
  unfold PrivacyDb.enqueueAccountErasure at henqueue
  cases hfind : db.erasures.rows.find? fun e ↦ e.userId = userId with
  | some erasure =>
      simp only [hfind] at henqueue
      split at henqueue
      · obtain rfl := Except.ok.inj henqueue
        exact h.follows
      · exact absurd henqueue (by simp)
  | none =>
      have hnone : ∀ e ∈ db.erasures, e.userId ≠ userId := by
        intro e he
        simpa using List.find?_eq_none.mp hfind e he
      simp only [hfind] at henqueue
      cases supplied with
      | some requestId => exact h.startErasure hnone (hsupplied requestId rfl) henqueue
      | none =>
          obtain ⟨⟨opened, requestId⟩, hopen, hstart⟩ := bind_eq_ok.mp henqueue
          obtain ⟨hfollows, hrequest, herasures⟩ := h.openErasureRequest hopen haccount
          exact hfollows.trans
            (hfollows.consistent.startErasure (herasures ▸ hnone) hrequest hstart)

theorem accept (h : Consistent db) {consumed : Bool} {newId eventId : Uuid} {now : ℤ}
    (haccept : db.accept userId consumed newId eventId now = .ok db') : Follows db db' := by
  unfold PrivacyDb.accept at haccept
  cases hfind : db.accounts.find? userId with
  | none =>
      rw [hfind] at haccept
      obtain rfl := Except.ok.inj haccept
      exact h.follows
  | some account =>
      simp only [hfind] at haccept
      split at haccept
      · obtain rfl := Except.ok.inj haccept
        exact h.follows
      · exact h.enqueueAccountErasure ⟨account, Table.find?_eq_some_iff.mp hfind⟩ (by simp) haccept

theorem type_of_scheduleErasure {type : DataRequestType} {current : DataRequestStatus}
    {transition : DataRequestTransition} {response : Option String}
    (h : RequestReview.decide type current transition response = .ok .scheduleErasure) :
    type = .erasure := by
  unfold RequestReview.decide at h
  split at h
  · exact absurd h (by simp)
  split at h
  · exact absurd h (by simp)
  split at h
  · exact absurd h (by simp)
  split at h
  · rename_i herasure
    exact herasure.1
  · exact absurd h (by simp)

theorem updateRequest (h : Consistent db) {requestId eventId : Uuid}
    {transition : DataRequestTransition} {response : Option String} {now : ℤ}
    (hupdate : db.updateRequest requestId transition response eventId now = .ok db') :
    Follows db db' := by
  unfold PrivacyDb.updateRequest at hupdate
  cases hfind : db.requests.find? requestId with
  | none =>
      rw [hfind] at hupdate
      obtain rfl := Except.ok.inj hupdate
      exact h.follows
  | some request =>
      obtain ⟨hrequest, rfl⟩ := Table.find?_eq_some_iff.mp hfind
      simp only [hfind] at hupdate
      split at hupdate
      · obtain rfl := Except.ok.inj hupdate
        exact h.follows
      · rename_i hworkflow
        have hnone : ∀ e ∈ db.erasures, e.requestId ≠ request.id := by
          rw [Bool.not_eq_true, Option.isSome_eq_false_iff, Option.isNone_iff_eq_none] at hworkflow
          exact Table.find?_eq_none_iff.mp hworkflow
        cases hreview : RequestReview.decide request.type request.status transition response with
        | error e =>
            rw [hreview] at hupdate
            obtain rfl := Except.ok.inj hupdate
            exact h.follows
        | ok review =>
            simp only [hreview] at hupdate
            have hreviewed := h.modifyStatus review.storedStatus (Or.inl hnone)
            split at hupdate
            · rename_i hschedule
              subst hschedule
              refine hreviewed.trans (hreviewed.consistent.enqueueAccountErasure
                (h.owner request hrequest) ?_ hupdate)
              rintro requestId hsupplied
              obtain rfl := Option.some.inj hsupplied
              refine ⟨_, List.mem_map_of_mem hrequest, ?_⟩
              simp [RequestReview.storedStatus, type_of_scheduleErasure hreview]
            · obtain rfl := Except.ok.inj hupdate
              exact hreviewed

end Consistent

end PrivacyDb

end Histae.Privacy
