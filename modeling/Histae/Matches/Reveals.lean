import Histae.Matches.Conversations
import Histae.Matches.Listing

/-!
# Photos revealed by two consents

The history keeps the consents that were recorded and the notices that were
given. The flags of a match are the latest recorded consents of its
participants, and its version counts how often both came together.
-/

namespace Histae.Matches

open Relational Systems

inductive PhotoStatus
  | pending
  | processing
  | ready
  | deleting
  deriving DecidableEq

inductive ModerationStatus
  | pending
  | approved
  | rejected
  deriving DecidableEq

/-- A row of `user_photo`. -/
structure UserPhoto where
  id : Uuid
  userId : Uuid
  status : PhotoStatus
  objectKey : String
  deriving DecidableEq

/-- The photos, and the moderation case of each. -/
structure PhotoTables where
  photos : List UserPhoto
  moderation : Uuid → Option ModerationStatus

namespace PhotoTables

variable (t : PhotoTables)

def shows (photo : UserPhoto) : Bool :=
  photo.status = .ready && t.moderation photo.id = some .approved

/-- The owners of a ready photo whose case is approved. -/
def owners : List Uuid := (t.photos.filter t.shows).map UserPhoto.userId

def objectKey (userId : Uuid) : Option String :=
  (t.photos.find? fun photo ↦ photo.userId = userId && t.shows photo).map UserPhoto.objectKey

def profiles (base : Uuid → Option Profile) (userId : Uuid) : Option Profile :=
  (base userId).map fun profile ↦ { profile with photo := t.objectKey userId }

theorem mem_owners_of_objectKey {userId : Uuid} {key : String}
    (h : t.objectKey userId = some key) : userId ∈ t.owners := by
  obtain ⟨photo, hfound, _⟩ := Option.map_eq_some_iff.mp h
  have hmem := List.mem_of_find?_eq_some hfound
  have hshows := List.find?_some hfound
  simp only [Bool.and_eq_true, decide_eq_true_eq] at hshows
  exact List.mem_map.mpr ⟨photo, List.mem_filter.mpr ⟨hmem, hshows.2⟩, hshows.1⟩

end PhotoTables

/-- The latest recorded consent; without one nothing is granted. -/
def latest (consents : List ((Uuid × Uuid) × Bool)) (key : Uuid × Uuid) : Bool :=
  (consents.lookup key).getD false

def bothGranted (consents : List ((Uuid × Uuid) × Bool)) (m : MatchRecord) : Bool :=
  latest consents (m.id, m.user1Id) && latest consents (m.id, m.user2Id)

/-- The consent that a step records. -/
def recordedConsent (db : Db) : LifeAction → List ((Uuid × Uuid) × Bool)
  | .service (.recordReveal matchId userId consent locked clock) =>
      match recordReveal db matchId userId consent locked clock with
      | .ok (.available _, _) => [((matchId, userId), consent.isGranted)]
      | _ => []
  | _ => []

/-- The recipient, the match and the version of a reveal notice. -/
def Notification.reveal? (n : Notification) : Option (Uuid × Uuid × ℕ) :=
  match n.intent with
  | .photosRevealed matchId version => some (n.userId, matchId, version)
  | _ => none

/-- The reveal notices that a step gives. -/
def newReveals (db db' : Db) : List (Uuid × Uuid × ℕ) :=
  (db'.notifications.rows.filter fun n ↦
    (db.notifications.find? n.deduplicationKey).isNone).filterMap Notification.reveal?

structure RevealWorld where
  base : World
  consents : List ((Uuid × Uuid) × Bool)
  received : List (Uuid × Uuid × ℕ)

def RevealWorld.next (s : RevealWorld) (a : LifeAction) : RevealWorld where
  base := s.base.live a
  consents := recordedConsent s.base.db a ++ s.consents
  received := newReveals s.base.db (s.base.live a).db ++ s.received

/-- The conversations with the history of consents and notices. -/
def reveals : System RevealWorld LifeAction := ⟨fun s a ↦ conversations.Enabled s.base a, .next⟩

structure RevealInitial (s : RevealWorld) : Prop where
  base : Initial s.base
  notifications : s.base.db.notifications = ∅
  consents : s.consents = []
  received : s.received = []

section States

variable {I : Uuid → Prop} {T : ℤ} {db : Db} {m : MatchRecord}

theorem latest_cons (key key' : Uuid × Uuid) (granted : Bool)
    (consents : List ((Uuid × Uuid) × Bool)) :
    latest ((key, granted) :: consents) key' =
      if key' = key then granted else latest consents key' := by
  unfold latest
  rw [List.lookup_cons]
  by_cases hkey : key' = key
  · simp [hkey]
  · have hbeq : (key' == key) = false := beq_false_of_ne hkey
    simp [hbeq, hkey]

/-- The states of a match are those of its two participants. -/
theorem Choices.pairStates (h : Choices I T db) (hm : m ∈ db.matchInit) :
    ∃ s₁ s₂, db.matchState.find? (m.id, m.user1Id) = some s₁ ∧
      db.matchState.find? (m.id, m.user2Id) = some s₂ ∧
      ∀ s, s ∈ db.matchState ∧ s.matchId = m.id ↔ s = s₁ ∨ s = s₂ := by
  have hfirst := h.states m hm m.user1Id
  have hsecond := h.states m hm m.user2Id
  rw [MatchRecord.isParticipant, decide_eq_true rfl, Bool.true_or] at hfirst
  rw [MatchRecord.isParticipant, decide_eq_true (p := m.user2Id = m.user2Id) rfl,
    Bool.or_true] at hsecond
  obtain ⟨s₁, hs₁⟩ := Option.isSome_iff_exists.mp hfirst.symm
  obtain ⟨s₂, hs₂⟩ := Option.isSome_iff_exists.mp hsecond.symm
  obtain ⟨hmem₁, hkey₁⟩ := Table.find?_eq_some_iff.mp hs₁
  obtain ⟨hmem₂, hkey₂⟩ := Table.find?_eq_some_iff.mp hs₂
  refine ⟨s₁, s₂, hs₁, hs₂, fun s ↦ ⟨?_, ?_⟩⟩
  · rintro ⟨hs, hid⟩
    have hparticipant := h.states m hm s.userId
    have hkey : s.key = (m.id, s.userId) := by rw [← hid]; rfl
    rw [← hkey, Table.find?_key hs, Option.isSome_some, MatchRecord.isParticipant,
      Bool.or_eq_true, decide_eq_true_eq, decide_eq_true_eq] at hparticipant
    rcases hparticipant with huser | huser
    · exact Or.inl (Table.eq_of_key_eq hs hmem₁ (by rw [hkey, hkey₁, huser]))
    · exact Or.inr (Table.eq_of_key_eq hs hmem₂ (by rw [hkey, hkey₂, huser]))
  · rintro (rfl | rfl)
    · exact ⟨hmem₁, congrArg Prod.fst hkey₁⟩
    · exact ⟨hmem₂, congrArg Prod.fst hkey₂⟩

/-- Both statements count two states and ask both for the same thing. -/
theorem Choices.states_all (h : Choices I T db) (hm : m ∈ db.matchInit) (p : MatchState → Bool) :
    (decide ((db.matchState.select fun s ↦ s.matchId = m.id).length = 2) &&
      (db.matchState.select fun s ↦ s.matchId = m.id).all p) =
      ((db.matchState.find? (m.id, m.user1Id)).any p &&
        (db.matchState.find? (m.id, m.user2Id)).any p) := by
  obtain ⟨s₁, s₂, hs₁, hs₂, hstates⟩ := h.pairStates hm
  have hne : s₁.key ≠ s₂.key := by
    rw [(Table.find?_eq_some_iff.mp hs₁).2, (Table.find?_eq_some_iff.mp hs₂).2]
    exact fun heq ↦ h.pair m hm (congrArg Prod.snd heq)
  have hlength : (db.matchState.select fun s ↦ s.matchId = m.id).length = 2 := by
    have hkeys : db.matchState.keys (fun s ↦ s.matchId = m.id) = {s₁.key, s₂.key} := by
      ext key
      rw [Table.mem_keys, Finset.mem_insert, Finset.mem_singleton]
      constructor
      · rintro ⟨s, hs, hid, rfl⟩
        rcases (hstates s).mp ⟨hs, by simpa using hid⟩ with rfl | rfl
        · exact Or.inl rfl
        · exact Or.inr rfl
      · rintro (rfl | rfl)
        · obtain ⟨hs, hid⟩ := (hstates s₁).mpr (Or.inl rfl)
          exact ⟨s₁, hs, by simpa using hid, rfl⟩
        · obtain ⟨hs, hid⟩ := (hstates s₂).mpr (Or.inr rfl)
          exact ⟨s₂, hs, by simpa using hid, rfl⟩
    have hcount : (db.matchState.select fun s ↦ s.matchId = m.id).length =
        db.matchState.count fun s ↦ s.matchId = m.id := by
      unfold Table.select Table.count
      rw [List.countP_eq_length_filter]
    rw [hcount, Table.count_eq_card, hkeys, Finset.card_pair hne]
  rw [hlength, decide_eq_true rfl, Bool.true_and, hs₁, hs₂, Option.any_some, Option.any_some,
    Bool.eq_iff_iff, List.all_eq_true, Bool.and_eq_true]
  constructor
  · intro hall
    refine ⟨hall s₁ (Table.mem_select.mpr ?_), hall s₂ (Table.mem_select.mpr ?_)⟩
    · simpa using (hstates s₁).mpr (Or.inl rfl)
    · simpa using (hstates s₂).mpr (Or.inr rfl)
  · rintro ⟨hp₁, hp₂⟩ s hs
    rcases (hstates s).mp (by simpa using Table.mem_select.mp hs) with rfl | rfl
    · exact hp₁
    · exact hp₂

/-- The flags of every match are the latest consents of its participants. -/
def Db.Flagged (db : Db) (consents : List ((Uuid × Uuid) × Bool)) : Prop :=
  ∀ m ∈ db.matchInit, ∀ u, m.isParticipant u = true →
    (db.matchState.find? (m.id, u)).any MatchState.revealed = latest consents (m.id, u)

theorem MatchRecord.isParticipant_user1Id (m : MatchRecord) :
    m.isParticipant m.user1Id = true := by simp [MatchRecord.isParticipant]

theorem MatchRecord.isParticipant_user2Id (m : MatchRecord) :
    m.isParticipant m.user2Id = true := by simp [MatchRecord.isParticipant]

theorem Choices.photosRevealed_eq {consents : List ((Uuid × Uuid) × Bool)} (h : Choices I T db)
    (hflags : db.Flagged consents) (hm : m ∈ db.matchInit) :
    db.photosRevealed m.id = bothGranted consents m := by
  unfold Db.photosRevealed bothGranted
  rw [h.states_all hm, hflags m hm _ m.isParticipant_user1Id,
    hflags m hm _ m.isParticipant_user2Id]

theorem Choices.revealedWith_eq {consents : List ((Uuid × Uuid) × Bool)} {userId : Uuid}
    {granted : Bool} (h : Choices I T db) (hflags : db.Flagged consents) (hm : m ∈ db.matchInit) :
    db.revealedWith m.id userId granted =
      bothGranted (((m.id, userId), granted) :: consents) m := by
  have hside : ∀ u, m.isParticipant u = true →
      ((db.matchState.find? (m.id, u)).any fun s ↦
        if s.userId = userId then granted else s.revealed) =
      latest (((m.id, userId), granted) :: consents) (m.id, u) := by
    intro u hu
    rw [latest_cons, ← hflags m hm u hu]
    obtain ⟨s, hs⟩ := Option.isSome_iff_exists.mp ((h.states m hm u).symm.trans hu)
    have huser : s.userId = u := congrArg Prod.snd (Table.find?_eq_some_iff.mp hs).2
    rw [hs, Option.any_some, Option.any_some, huser]
    by_cases heq : u = userId
    · rw [if_pos heq, if_pos (by rw [heq])]
    · rw [if_neg heq, if_neg fun hkey ↦ heq (congrArg Prod.snd hkey)]
  unfold Db.revealedWith bothGranted
  rw [h.states_all hm, hside _ m.isParticipant_user1Id, hside _ m.isParticipant_user2Id]

end States

section Quiet

variable {I : Uuid → Prop} {T : ℤ} {db db₁ db' : Db}

/-- The consents and versions of the matches issued before are as they were,
and no reveal is announced. -/
structure KeepsReveals (I : Uuid → Prop) (db db' : Db) : Prop where
  rows : ∀ m' ∈ db'.matchInit, I m'.id → ∃ m ∈ db.matchInit, m'.id = m.id ∧
    m'.user1Id = m.user1Id ∧ m'.user2Id = m.user2Id ∧
    m'.photoRevealVersion = m.photoRevealVersion
  states : ∀ m' ∈ db'.matchInit, I m'.id → ∀ u,
    (db'.matchState.find? (m'.id, u)).any MatchState.revealed =
      (db.matchState.find? (m'.id, u)).any MatchState.revealed
  fresh : ∀ m' ∈ db'.matchInit, ¬ I m'.id → ∀ u,
    (db'.matchState.find? (m'.id, u)).any MatchState.revealed = false
  announced : ∀ n ∈ db'.notifications, n.intent.kind = .photosRevealed → n ∈ db.notifications

theorem KeepsReveals.trans (h : KeepsReveals I db db₁) (h' : KeepsReveals I db₁ db') :
    KeepsReveals I db db' where
  rows m' hm' hI := by
    obtain ⟨m₁, hm₁, hid, hfirst, hsecond, hversion⟩ := h'.rows m' hm' hI
    obtain ⟨m, hm, hid', hfirst', hsecond', hversion'⟩ := h.rows m₁ hm₁ (hid ▸ hI)
    exact ⟨m, hm, hid.trans hid', hfirst.trans hfirst', hsecond.trans hsecond',
      hversion.trans hversion'⟩
  states m' hm' hI u := by
    obtain ⟨m₁, hm₁, hid, _⟩ := h'.rows m' hm' hI
    rw [h'.states m' hm' hI u, hid, h.states m₁ hm₁ (hid ▸ hI) u]
  fresh := h'.fresh
  announced n hn hkind := h.announced n (h'.announced n hn hkind) hkind

theorem Steady.keepsReveals (h : Steady T db db') (hissued : ∀ m ∈ db.matchInit, I m.id) :
    KeepsReveals I db db' where
  rows m' hm' _ := by
    obtain ⟨m, hm, hcontinues⟩ := h.rows m' hm'
    exact ⟨m, hm, hcontinues.id, hcontinues.user1Id, hcontinues.user2Id, hcontinues.version⟩
  states m' hm' _ u := by rw [h.states m' hm' u]
  fresh m' hm' hI := by
    obtain ⟨m, hm, hcontinues⟩ := h.rows m' hm'
    exact absurd (hcontinues.id ▸ hissued m hm) hI
  announced := h.announced

theorem any_revealed (o : Option MatchState) :
    o.any MatchState.revealed = (o.map MatchState.revealed).any id := by
  cases o <;> rfl

theorem Touches.keepsReveals {matchId : Uuid} (h : Touches T matchId db db')
    (hissued : ∀ m ∈ db.matchInit, I m.id) : KeepsReveals I db db' where
  rows m' hm' _ := by
    obtain ⟨m, hm, hcontinues⟩ := h.rows m' hm'
    exact ⟨m, hm, hcontinues.id, hcontinues.user1Id, hcontinues.user2Id, hcontinues.version⟩
  states m' hm' _ u := by rw [any_revealed, h.revealed, ← any_revealed]
  fresh m' hm' hI := by
    obtain ⟨m, hm, hcontinues⟩ := h.rows m' hm'
    exact absurd (hcontinues.id ▸ hissued m hm) hI
  announced := h.announced

theorem Creates.keepsReveals {record : MatchRecord} (h : Creates db record db')
    (hissued : ∀ m ∈ db.matchInit, I m.id) (hfiled : ∀ s ∈ db.matchState, I s.matchId)
    (hfresh : ¬ I record.id) : KeepsReveals I db db' where
  rows m' hm' hI := by
    rcases (Table.mem_insert h.matchInit).mp hm' with rfl | hm
    · exact absurd hI hfresh
    · exact ⟨m', hm, rfl, rfl, rfl, rfl⟩
  states m' _ hI u := by
    rw [h.states, if_neg]
    rintro (heq | heq) <;>
    · have hid : m'.id = record.id := congrArg Prod.fst heq
      rw [hid] at hI
      exact hfresh hI
  fresh m' hm' hI u := by
    rcases (Table.mem_insert h.matchInit).mp hm' with rfl | hm
    · rw [h.states]
      split
      · rfl
      · cases hfind : db.matchState.find? (m'.id, u) with
        | none => rfl
        | some s =>
            obtain ⟨hs, hkey⟩ := Table.find?_eq_some_iff.mp hfind
            have hid : s.matchId = m'.id := congrArg Prod.fst hkey
            exact absurd (hid ▸ hfiled s hs) hI
    · exact absurd (hissued m' hm) hI
  announced := h.announced

theorem RecordCases.keepsReveals {matchId userId : Uuid} {t : RecordClock}
    {result : ContinuationResult} (hcases : RecordCases db matchId userId t result db')
    (hissued : ∀ m ∈ db.matchInit, I m.id) : KeepsReveals I db db' := by
  have hlocked {result : MatchCommandResult MatchRecord} {db₁ : Db}
      (hlock : lockAvailableMatch db matchId userId t.locked = (result, db₁)) :
      KeepsReveals I db db₁ ∧ ∀ m ∈ db₁.matchInit, I m.id := by
    have hsteady : Steady t.now db db₁ := (LockOutcome.of_eq hlock).steady
    refine ⟨hsteady.keepsReveals hissued, fun m hm ↦ ?_⟩
    obtain ⟨n, hn, hcontinues⟩ := hsteady.rows m hm
    exact hcontinues.id ▸ hissued n hn
  cases hcases with
  | unchanged lockResult _ _ hlock _ => exact (hlocked hlock).1
  | late m db₁ hdeciding =>
      obtain ⟨hm, hid, _⟩ := hdeciding.row
      obtain ⟨hkeeps, hissued₁⟩ := hlocked hdeciding.lock
      exact hkeeps.trans ((steady_expireWindow (T := t.now) hm hid).keepsReveals hissued₁)
  | planChanged m db₁ hdeciding _ =>
      obtain ⟨hkeeps, hissued₁⟩ := hlocked hdeciding.lock
      exact hkeeps.trans
        ((Touches.clearChoice (T := t.now) db₁ matchId userId t.notice).keepsReveals hissued₁)
  | already m _ hdeciding _ => exact (hlocked hdeciding.lock).1
  | reserving m db₁ db₀ _ _ hdeciding hopen hbase houtcome =>
      obtain ⟨hkeeps, hissued₁⟩ := hlocked hdeciding.lock
      have htouches : Touches t.now matchId db₁ db' := by
        rcases hbase with ⟨rfl, _⟩ | rfl
        · exact houtcome.touches
        · exact (Touches.clearChoice ..).trans houtcome.touches
      exact hkeeps.trans (htouches.keepsReveals hissued₁)

end Quiet

section Steps

/-- The version was announced in the past. -/
def World.Past (w : World) (matchId : Uuid) (version : ℕ) : Prop :=
  matchId ∈ w.createdIds ∧ ∀ m ∈ w.db.matchInit, m.id = matchId → version ≤ m.photoRevealVersion

structure RevealInvariant (s : RevealWorld) : Prop where
  choices : Choices (· ∈ s.base.createdIds) s.base.clock s.base.db
  flags : s.base.db.Flagged s.consents
  recorded : ∀ c ∈ s.consents, c.1.1 ∈ s.base.createdIds
  sourced : ∀ n ∈ s.base.db.notifications, ∀ u id v, n.reveal? = some (u, id, v) →
    n.source = .version id v ∧ s.base.Past id v
  received : ∀ u id v, (u, id, v) ∈ s.received → s.base.Past id v
  once : s.received.Nodup

/-- Both consents of the match come together between the two states. -/
def turns (s s' : RevealWorld) (m : MatchRecord) : Bool :=
  bothGranted s'.consents m && !bothGranted s.consents m

/-- What holds of a step: a reveal is announced where the consents come
together, to the participants with an account in use. -/
structure RevealStep (s s' : RevealWorld) : Prop where
  invariant : RevealInvariant s'
  version : ∀ m ∈ s.base.db.matchInit, ∀ m' ∈ s'.base.db.matchInit, m'.id = m.id →
    m'.photoRevealVersion = m.photoRevealVersion + if turns s s' m then 1 else 0
  notices : ∀ m ∈ s.base.db.matchInit, ∀ m' ∈ s'.base.db.matchInit, m'.id = m.id → ∀ u v,
    (newReveals s.base.db s'.base.db).count (u, m.id, v) =
      if turns s s' m = true ∧ v = m'.photoRevealVersion ∧ m.isParticipant u = true ∧
        s.base.db.reachable u = true then 1 else 0

variable {s : RevealWorld} {a : LifeAction}

theorem reveal?_eq_some {n : Notification} {u id : Uuid} {v : ℕ} :
    n.reveal? = some (u, id, v) ↔ n.intent = .photosRevealed id v ∧ n.userId = u := by
  unfold Notification.reveal?
  cases n.intent <;> simp [and_comm, and_assoc]

theorem newReveals_eq_nil {db db' : Db}
    (h : ∀ n ∈ db'.notifications, n.intent.kind = .photosRevealed → n ∈ db.notifications) :
    newReveals db db' = [] := by
  unfold newReveals
  rw [List.filterMap_eq_nil_iff]
  intro n hn
  obtain ⟨hmem, hnone⟩ := List.mem_filter.mp hn
  by_contra hsome
  obtain ⟨⟨u, id, v⟩, hreveal⟩ := Option.ne_none_iff_exists'.mp hsome
  have hkind : n.intent.kind = .photosRevealed := by
    rw [(reveal?_eq_some.mp hreveal).1]
    rfl
  rw [Table.find?_key (h n hmem hkind)] at hnone
  cases hnone

/-- A step that records no consent and announces nothing. -/
theorem RevealInvariant.quiet (h : RevealInvariant s) (henabled : reveals.Enabled s a)
    (hkeeps : KeepsReveals (· ∈ s.base.createdIds) s.base.db (s.base.live a).db)
    (hconsents : recordedConsent s.base.db a = []) : RevealStep s (s.next a) := by
  have hsame : (s.next a).consents = s.consents := by
    change recordedConsent s.base.db a ++ s.consents = s.consents
    rw [hconsents, List.nil_append]
  have hnone : newReveals s.base.db (s.base.live a).db = [] := newReveals_eq_nil hkeeps.announced
  have hreceived : (s.next a).received = s.received := by
    change newReveals s.base.db (s.base.live a).db ++ s.received = s.received
    rw [hnone, List.nil_append]
  have hquiet : ∀ m, turns s (s.next a) m = false := by
    intro m
    rw [turns, hsame, Bool.and_not_self]
  have hpast : ∀ {id v}, s.base.Past id v → (s.base.live a).Past id v := by
    rintro id v ⟨hid, hversion⟩
    refine ⟨live_createdIds hid, fun m' hm' hm'id ↦ ?_⟩
    obtain ⟨m, hm, hmid, _, _, heq⟩ := hkeeps.rows m' hm' (hm'id ▸ hid)
    rw [heq]
    exact hversion m hm (hmid.symm.trans hm'id)
  refine ⟨⟨h.choices.next henabled, ?_, ?_, ?_, ?_, ?_⟩, ?_, ?_⟩
  · rw [hsame]
    intro m' hm' u hu
    by_cases hold : m'.id ∈ s.base.createdIds
    · obtain ⟨m, hm, hid, hfirst, hsecond, _⟩ := hkeeps.rows m' hm' hold
      refine (hkeeps.states m' hm' hold u).trans ?_
      rw [hid]
      refine h.flags m hm u ?_
      rwa [MatchRecord.isParticipant, ← hfirst, ← hsecond]
    · refine (hkeeps.fresh m' hm' hold u).trans ?_
      unfold latest
      have hlookup : s.consents.lookup (m'.id, u) = none := by
        refine List.lookup_eq_none_iff.mpr fun c hc ↦ ?_
        refine bne_iff_ne.mpr fun heq ↦ hold ?_
        have hrecorded := h.recorded c hc
        rwa [← heq] at hrecorded
      rw [hlookup]
      rfl
  · rw [hsame]
    exact fun c hc ↦ live_createdIds (h.recorded c hc)
  · intro n hn u id v hreveal
    have hkind : n.intent.kind = .photosRevealed := by
      rw [(reveal?_eq_some.mp hreveal).1]
      rfl
    obtain ⟨hsource, hp⟩ := h.sourced n (hkeeps.announced n hn hkind) u id v hreveal
    exact ⟨hsource, hpast hp⟩
  · rw [hreceived]
    exact fun u id v hmem ↦ hpast (h.received u id v hmem)
  · rw [hreceived]
    exact h.once
  · intro m hm m' hm' hid
    have hold : m'.id ∈ s.base.createdIds := hid ▸ h.choices.issued m hm
    obtain ⟨n, hn, hnid, _, _, heq⟩ := hkeeps.rows m' hm' hold
    obtain rfl := Table.eq_of_key_eq hn hm (hnid.symm.trans hid)
    rw [hquiet, heq]
    rfl
  · intro m hm m' hm' hid u v
    have hnil : newReveals s.base.db (s.next a).base.db = [] := hnone
    rw [hnil, hquiet]
    simp

end Steps

end Histae.Matches
