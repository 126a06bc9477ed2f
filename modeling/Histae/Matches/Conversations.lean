import Histae.Matches.HalfWay
import Histae.Matches.CreditCaps

/-!
# Runs of conversations

What one step of the service, of a block or of retention does to the choices:
most steps are steady, and a creation, a continuation call and a consent to
reveal are the others. The choices stay coherent along every run.
-/

namespace Histae.Matches

open Relational Systems

section Creation

variable {db db' : Db} {record : MatchRecord} {clock : ℤ}

/-- The tables gained a match with two blank states. -/
structure Creates (db : Db) (record : MatchRecord) (db' : Db) : Prop where
  matchInit : db.matchInit.insert? record = some db'.matchInit
  ordered : record.user1Id < record.user2Id
  states : ∀ key, db'.matchState.find? key =
    if key = (record.id, record.user1Id) ∨ key = (record.id, record.user2Id) then
      some ⟨key.1, key.2, false, false⟩
    else db.matchState.find? key
  reservations : db'.reservations = db.reservations
  announced : ∀ n ∈ db'.notifications, n.intent.kind = .photosRevealed → n ∈ db.notifications

theorem insertMatchState_find? {matchId userId : Uuid}
    (h : insertMatchState db matchId userId = .ok db') (key : Uuid × Uuid) :
    db'.matchState.find? key =
      if key = (matchId, userId) then some ⟨matchId, userId, false, false⟩
      else db.matchState.find? key := by
  unfold insertMatchState at h
  split at h
  · cases h
  · rename_i matchState hinsert
    obtain rfl := Except.ok.inj h
    change matchState.find? key = _
    rw [Table.find?_insert hinsert]
    by_cases hkey : key = (matchId, userId)
    · rw [if_pos hkey, if_pos (by rw [hkey]; rfl)]
    · rw [if_neg hkey, if_neg fun h ↦ hkey h.symm]

theorem insertMatchState_notifications {matchId userId : Uuid}
    (h : insertMatchState db matchId userId = .ok db') :
    db'.notifications = db.notifications := by
  unfold insertMatchState at h
  split at h
  · cases h
  · obtain rfl := Except.ok.inj h
    rfl

theorem enqueueNotification_matchState (db : Db) (clock : ℤ) (userId : Uuid)
    (source : NotificationSource) (intent : NotificationIntent) :
    (enqueueNotification db clock userId source intent).matchState = db.matchState := by
  unfold enqueueNotification
  split
  · rfl
  · split <;> rfl

theorem create_creates (h : create db record clock = .ok db') (hactive : record.status = .active) :
    Creates db record db' := by
  have hinserts := create_eq_ok h hactive
  unfold create at h
  dsimp only at h
  split at h
  · cases h
  split at h
  · cases h
  cases hmatch : insertMatch db record clock with
  | error error => rw [hmatch] at h; cases h
  | ok db₁ =>
      rw [hmatch] at h
      cases hfirst : insertMatchState db₁ record.id record.user1Id with
      | error error => simp [bind, Except.bind, hfirst] at h
      | ok db₂ =>
          cases hsecond : insertMatchState db₂ record.id record.user2Id with
          | error error => simp [bind, Except.bind, hfirst, hsecond] at h
          | ok db₃ =>
              simp only [bind, Except.bind, hfirst, hsecond, Except.ok.injEq] at h
              have hbefore : db₁.matchState = db.matchState ∧
                  db₁.notifications = db.notifications := by
                unfold insertMatch at hmatch
                split at hmatch
                · cases hmatch
                split at hmatch
                · cases hmatch
                split at hmatch
                · cases hmatch
                · obtain rfl := Except.ok.inj hmatch
                  exact ⟨rfl, rfl⟩
              have hkind : (NotificationIntent.newMatch record.id).kind ≠ .photosRevealed := nofun
              have hnotices : Steady 0 db₃ db' := by
                rw [← h]
                exact (Steady.enqueueNotification hkind).trans (.enqueueNotification hkind)
              refine ⟨hinserts.matchInit, hinserts.ordered, ?_, hinserts.reservations, ?_⟩
              · intro key
                rw [← h, enqueueNotification_matchState, enqueueNotification_matchState,
                  insertMatchState_find? hsecond, insertMatchState_find? hfirst, hbefore.1]
                by_cases hone : key = (record.id, record.user1Id)
                · have htwo : key ≠ (record.id, record.user2Id) := by
                    rw [hone]
                    exact fun heq ↦ absurd (congrArg Prod.snd heq) (BitVec.ne_of_lt hinserts.ordered)
                  rw [if_neg htwo, if_pos hone, if_pos (Or.inl hone), hone]
                · by_cases htwo : key = (record.id, record.user2Id)
                  · rw [if_pos htwo, if_pos (Or.inr htwo), htwo]
                  · rw [if_neg htwo, if_neg hone, if_neg (not_or.mpr ⟨hone, htwo⟩)]
              · intro n' hn' hkind
                have hsame : db₃.notifications = db.notifications :=
                  ((insertMatchState_notifications hsecond).trans
                    (insertMatchState_notifications hfirst)).trans hbefore.2
                rw [← hsame]
                exact hnotices.announced n' hn' hkind

theorem createFromMutualLike_cases {id first second : Uuid} {now : ℤ}
    (h : createFromMutualLike db id first second now clock = .ok (record, db')) :
    record = mutualLikeRecord id first second now ∧ Creates db record db' ∨
      record ∈ db.matchInit ∧ db' = db := by
  unfold createFromMutualLike at h
  split at h
  · cases h
  dsimp only at h
  split at h
  · rename_i created hcreate
    obtain ⟨rfl, rfl⟩ := Prod.mk.inj (Except.ok.inj h)
    exact Or.inl ⟨rfl, create_creates hcreate rfl⟩
  · split at h
    · rename_i stored hstored
      obtain ⟨rfl, rfl⟩ := Prod.mk.inj (Except.ok.inj h)
      exact Or.inr ⟨List.mem_of_find?_eq_some hstored, rfl⟩
    · cases h
  · cases h

theorem Choices.of_creates {I I' : Uuid → Prop} {T : ℤ} (h : Choices I T db)
    (hcreates : Creates db record db') (hI : ∀ id, I id → I' id) (hnew : I' record.id)
    (hfresh : ¬ I record.id) : Choices I' T db' := by
  have hold : ∀ m ∈ db.matchInit, m.id ≠ record.id := fun m hm heq ↦
    hfresh (heq ▸ h.issued m hm)
  have hstates : ∀ m ∈ db.matchInit, ∀ u,
      db'.matchState.find? (m.id, u) = db.matchState.find? (m.id, u) := by
    intro m hm u
    rw [hcreates.states, if_neg]
    rintro (heq | heq) <;> exact hold m hm (congrArg Prod.fst heq)
  have hnone : ∀ r ∈ db'.reservations, r.matchId ≠ record.id := by
    intro r hr heq
    rw [hcreates.reservations] at hr
    exact hfresh (heq ▸ h.owned r hr)
  have hblank : ∀ u, db'.matchState.find? (record.id, u) =
      if record.isParticipant u = true then some ⟨record.id, u, false, false⟩ else none := by
    intro u
    rw [hcreates.states]
    by_cases hu : record.isParticipant u = true
    · have hkey : (record.id, u) = (record.id, record.user1Id) ∨
          (record.id, u) = (record.id, record.user2Id) := by
        simp only [MatchRecord.isParticipant, Bool.or_eq_true, decide_eq_true_eq] at hu
        rcases hu with rfl | rfl
        · exact Or.inl rfl
        · exact Or.inr rfl
      rw [if_pos hkey, if_pos hu]
    · rw [if_neg, if_neg hu]
      · refine Table.find?_eq_none_iff.mpr fun s hs hkey ↦ hfresh ?_
        have hid : s.matchId = record.id := congrArg Prod.fst hkey
        exact hid ▸ h.filed s hs
      · rintro (heq | heq) <;>
        · refine hu ?_
          have hu' := congrArg Prod.snd heq
          simp [MatchRecord.isParticipant, show u = _ from hu']
  refine ⟨?_, ?_, ?_, ?_, ?_, ?_, ?_⟩
  · intro m hm
    rcases (Table.mem_insert hcreates.matchInit).mp hm with rfl | hm
    · exact hnew
    · exact hI _ (h.issued m hm)
  · intro r hr
    rw [hcreates.reservations] at hr
    exact hI _ (h.owned r hr)
  · intro s hs
    have hfind := hcreates.states s.key
    rw [Table.find?_key hs] at hfind
    split at hfind
    · rename_i hkey
      have hid : s.matchId = record.id := by
        rcases hkey with hkey | hkey <;> exact congrArg Prod.fst hkey
      rw [hid]
      exact hnew
    · exact hI _ (h.filed s (Table.find?_eq_some_iff.mp hfind.symm).1)
  · intro m hm
    rcases (Table.mem_insert hcreates.matchInit).mp hm with rfl | hm
    · exact BitVec.ne_of_lt hcreates.ordered
    · exact h.pair m hm
  · intro m hm u
    rcases (Table.mem_insert hcreates.matchInit).mp hm with rfl | hm
    · rw [hblank]
      split <;> simp_all
    · rw [hstates m hm u, h.states m hm u]
  · intro m hm hundecided
    rcases (Table.mem_insert hcreates.matchInit).mp hm with rfl | hm
    · refine ⟨fun u hu ↦ ?_, fun r hr s hs hrid ↦ absurd hrid (hnone r hr)⟩
      have hfind : db'.reservations.find? (m.id, u) = none :=
        Table.find?_eq_none_iff.mpr fun r hr hkey ↦ hnone r hr (congrArg Prod.fst hkey)
      rw [hblank, if_pos hu, hfind]
      rfl
    · have hcoherent := h.coherent m hm hundecided
      refine ⟨fun u hu ↦ ?_, ?_⟩
      · rw [hstates m hm u, hcreates.reservations]
        exact hcoherent.chosen u hu
      · rw [hcreates.reservations]
        exact hcoherent.single
  · intro m hm hactive
    rcases (Table.mem_insert hcreates.matchInit).mp hm with rfl | hm
    · exact hnone
    · rw [hcreates.reservations]
      exact h.fresh m hm hactive

end Creation

section Reveal

variable {db db₁ db' : Db} {matchId userId : Uuid} {consent : PhotoRevealConsent}
  {locked clock : ℤ} {answer : MatchCommandResult Bool}

/-- The tables with the caller's new consent. -/
def consentedDb (db₁ : Db) (matchId userId : Uuid) (granted : Bool) : Db :=
  { db₁ with
    matchState := db₁.matchState.modify (fun s ↦ s.key = (matchId, userId))
      (MatchState.reveal granted) (MatchState.key_reveal granted) }

/-- One committed call of `record_reveal`. -/
inductive RevealCases (db : Db) (matchId userId : Uuid) (consent : PhotoRevealConsent)
    (locked clock : ℤ) : MatchCommandResult Bool → Db → Prop
  | unavailable (lockResult : MatchCommandResult MatchRecord) (db₁ : Db)
      (reason : MatchAvailabilityFailure)
      (hlock : lockAvailableMatch db matchId userId locked = (lockResult, db₁))
      (habsent : ∀ m, lockResult = .available m →
        (db₁.matchState.find? (matchId, userId)).isNone = true) :
      RevealCases db matchId userId consent locked clock (.unavailable reason) db₁
  | recorded (m : MatchRecord) (db₁ : Db)
      (hlock : lockAvailableMatch db matchId userId locked = (.available m, db₁))
      (hphotos : consent.isGranted = true →
        participantPhotosReady db₁ [m.user1Id, m.user2Id] = true)
      (hstate : (db₁.matchState.find? (matchId, userId)).isSome = true) :
      RevealCases db matchId userId consent locked clock
        (.available (db₁.revealedWith matchId userId consent.isGranted))
        (if db₁.revealedWith matchId userId consent.isGranted && !db₁.photosRevealed matchId then
          announceReveal (consentedDb db₁ matchId userId consent.isGranted) m matchId clock
        else consentedDb db₁ matchId userId consent.isGranted)

theorem recordReveal_cases
    (h : recordReveal db matchId userId consent locked clock = .ok (answer, db')) :
    RevealCases db matchId userId consent locked clock answer db' := by
  unfold recordReveal at h
  split at h
  · rename_i reason db₁ hlock
    obtain ⟨rfl, rfl⟩ := Prod.mk.inj (Except.ok.inj h)
    exact .unavailable _ db₁ reason hlock nofun
  · rename_i m db₁ hlock
    split at h
    · cases h
    rename_i hphotos
    dsimp only at h
    split at h
    · rename_i hnone
      obtain ⟨rfl, rfl⟩ := Prod.mk.inj (Except.ok.inj h)
      exact .unavailable _ db₁ .notFound hlock fun _ _ ↦ hnone
    rename_i hsome
    have hready : consent.isGranted = true →
        participantPhotosReady db₁ [m.user1Id, m.user2Id] = true := by
      intro hgranted
      simpa [hgranted] using hphotos
    have hstate : (db₁.matchState.find? (matchId, userId)).isSome = true :=
      Option.isSome_iff_ne_none.mpr (by simpa using hsome)
    have hcases : RevealCases db matchId userId consent locked clock _ _ :=
      .recorded m db₁ hlock hready hstate
    split at h
    · rename_i hannounce
      obtain ⟨rfl, rfl⟩ := Prod.mk.inj (Except.ok.inj h)
      rwa [if_pos hannounce] at hcases
    · rename_i hquiet
      obtain ⟨rfl, rfl⟩ := Prod.mk.inj (Except.ok.inj h)
      rwa [if_neg hquiet] at hcases

/-- Rows, choices and reservations are as they were, versions apart. -/
structure KeepsChoices (db db' : Db) : Prop where
  rows : ∀ m' ∈ db'.matchInit, ∃ m ∈ db.matchInit,
    m' = { m with photoRevealVersion := m'.photoRevealVersion }
  states : ∀ key, (db'.matchState.find? key).map MatchState.continued =
    (db.matchState.find? key).map MatchState.continued
  reservations : db'.reservations = db.reservations

theorem keepsChoices_consentedDb (db₁ : Db) (matchId userId : Uuid) (granted : Bool) :
    KeepsChoices db₁ (consentedDb db₁ matchId userId granted) where
  rows m hm := ⟨m, hm, rfl⟩
  states key := by
    unfold consentedDb
    rw [Table.find?_modify (MatchState.key_reveal granted), Option.map_map]
    congr 1
    funext s
    simp only [Function.comp_apply]
    split <;> rfl
  reservations := rfl

theorem keepsChoices_announceReveal (db₁ : Db) (m : MatchRecord) (matchId : Uuid) (clock : ℤ) :
    KeepsChoices db₁ (announceReveal db₁ m matchId clock) := by
  have hledger : SameLedger
      { db₁ with
        matchInit := db₁.matchInit.modify (fun m ↦ m.id = matchId) MatchRecord.revealedAgain
          MatchRecord.id_revealedAgain }
      (announceReveal db₁ m matchId clock) :=
    (sameLedger_enqueueNotification ..).trans (sameLedger_enqueueNotification ..)
  refine ⟨fun m' hm' ↦ ?_, fun key ↦ ?_, hledger.reservations⟩
  · rw [hledger.matchInit] at hm'
    obtain ⟨n, hn, rfl⟩ := (Table.mem_modify MatchRecord.id_revealedAgain).mp hm'
    refine ⟨n, hn, ?_⟩
    split <;> rfl
  · unfold announceReveal
    rw [enqueueNotification_matchState, enqueueNotification_matchState]

theorem KeepsChoices.trans {db'' : Db} (h : KeepsChoices db db') (h' : KeepsChoices db' db'') :
    KeepsChoices db db'' where
  rows m'' hm'' := by
    obtain ⟨m', hm', heq'⟩ := h'.rows m'' hm''
    obtain ⟨m, hm, heq⟩ := h.rows m' hm'
    refine ⟨m, hm, ?_⟩
    rw [heq', heq]
  states key := (h'.states key).trans (h.states key)
  reservations := h'.reservations.trans h.reservations

theorem any_continued (o : Option MatchState) :
    o.any MatchState.continued = (o.map MatchState.continued).any id := by
  cases o <;> rfl

theorem Choices.of_keepsChoices {I : Uuid → Prop} {T : ℤ} (h : Choices I T db)
    (hkeeps : KeepsChoices db db') : Choices I T db' := by
  have hstates : ∀ key, (db'.matchState.find? key).isSome = (db.matchState.find? key).isSome := by
    intro key
    rw [← Option.isSome_map (f := MatchState.continued), hkeeps.states key, Option.isSome_map]
  refine ⟨?_, ?_, ?_, ?_, ?_, ?_, ?_⟩
  · intro m' hm'
    obtain ⟨m, hm, heq⟩ := hkeeps.rows m' hm'
    rw [heq]
    exact h.issued m hm
  · rw [hkeeps.reservations]
    exact h.owned
  · intro s hs
    have hsome : (db.matchState.find? s.key).isSome := by
      rw [← hstates, Table.find?_key hs]
      rfl
    obtain ⟨s₀, hs₀⟩ := Option.isSome_iff_exists.mp hsome
    obtain ⟨hmem, hkey⟩ := Table.find?_eq_some_iff.mp hs₀
    have hmatch : s₀.matchId = s.matchId := congrArg Prod.fst hkey
    rw [← hmatch]
    exact h.filed s₀ hmem
  · intro m' hm'
    obtain ⟨m, hm, heq⟩ := hkeeps.rows m' hm'
    rw [heq]
    exact h.pair m hm
  · intro m' hm' u
    obtain ⟨m, hm, heq⟩ := hkeeps.rows m' hm'
    rw [hstates, heq]
    exact h.states m hm u
  · intro m' hm' hundecided
    obtain ⟨m, hm, heq⟩ := hkeeps.rows m' hm'
    rw [heq] at hundecided ⊢
    have hcoherent := h.coherent m hm hundecided
    refine ⟨fun u hu ↦ ?_, ?_⟩
    · rw [any_continued, hkeeps.states, ← any_continued, hkeeps.reservations]
      exact hcoherent.chosen u hu
    · rw [hkeeps.reservations]
      exact hcoherent.single
  · intro m' hm' hactive
    obtain ⟨m, hm, heq⟩ := hkeeps.rows m' hm'
    rw [heq] at hactive ⊢
    rw [hkeeps.reservations]
    exact h.fresh m hm hactive

theorem RevealCases.choices {I : Uuid → Prop} {T : ℤ}
    (hcases : RevealCases db matchId userId consent locked clock answer db')
    (h : Choices I T db) : Choices I T db' := by
  cases hcases with
  | unavailable lockResult _ reason hlock habsent =>
      exact h.of_steady (LockOutcome.of_eq hlock).steady
  | recorded m db₁ hlock hphotos hstate =>
      have hlocked : Choices I T db₁ := h.of_steady (LockOutcome.of_eq hlock).steady
      have hconsented := keepsChoices_consentedDb db₁ matchId userId consent.isGranted
      split
      · exact hlocked.of_keepsChoices
          (hconsented.trans (keepsChoices_announceReveal _ m matchId clock))
      · exact hlocked.of_keepsChoices hconsented

end Reveal

section Steps

variable {w : World} {a : LifeAction}

/-- Everything one step can do to the choices and consents. -/
inductive LifeEffect (w : World) : LifeAction → Prop
  | steady (a : LifeAction) (h : Steady (w.live a).clock w.db (w.live a).db) : LifeEffect w a
  | created (id first second : Uuid) (now clock : ℤ)
      (h : Creates w.db (mutualLikeRecord id first second now)
        (w.live (.service (.createFromMutualLike id first second now clock))).db)
      (hissued : id ∈ (w.live (.service (.createFromMutualLike id first second now clock))).createdIds) :
      LifeEffect w (.service (.createFromMutualLike id first second now clock))
  | recorded (matchId userId : Uuid) (legal : Option LegalConfig) (cost : ℤ) (t : RecordClock)
      (sourceId : Uuid) (result : ContinuationResult)
      (h : RecordCases w.db matchId userId t result
        (w.live (.service (.recordContinuation matchId userId legal cost t sourceId))).db) :
      LifeEffect w (.service (.recordContinuation matchId userId legal cost t sourceId))
  | revealed (matchId userId : Uuid) (consent : PhotoRevealConsent) (locked clock : ℤ)
      (answer : MatchCommandResult Bool)
      (h : RevealCases w.db matchId userId consent locked clock answer
        (w.live (.service (.recordReveal matchId userId consent locked clock))).db) :
      LifeEffect w (.service (.recordReveal matchId userId consent locked clock))

theorem lifeEffect_create {id first second : Uuid} {now clock : ℤ} :
    LifeEffect w (.service (.createFromMutualLike id first second now clock)) := by
  cases hcreate : createFromMutualLike w.db id first second now clock with
  | error error =>
      refine .steady _ ?_
      simp only [World.live, World.next, Action.apply, hcreate]
      exact .refl _
  | ok answer =>
      obtain ⟨record, db'⟩ := answer
      rcases createFromMutualLike_cases hcreate with ⟨rfl, hcreates⟩ | ⟨_, rfl⟩
      · refine .created id first second now clock ?_ ?_
        · simp only [World.live, World.next, Action.apply, hcreate]
          exact hcreates
        · rw [mem_createdIds]
          refine ⟨mutualLikeRecord id first second now, ?_, rfl⟩
          simp only [World.live, World.next, Action.apply, hcreate]
          exact List.mem_append_left _ (by simp [mutualLikeRecord])
      · refine .steady _ ?_
        simp only [World.live, World.next, Action.apply, hcreate]
        exact .refl _

theorem lifeEffect_record {matchId userId : Uuid} {legal : Option LegalConfig} {cost : ℤ}
    {t : RecordClock} {sourceId : Uuid} :
    LifeEffect w (.service (.recordContinuation matchId userId legal cost t sourceId)) := by
  cases hrecord : record w.db matchId userId legal cost t sourceId with
  | error error =>
      refine .steady _ ?_
      simp only [World.live, World.next, Action.apply, hrecord]
      exact .refl _
  | ok answer =>
      obtain ⟨result, db'⟩ := answer
      refine .recorded matchId userId legal cost t sourceId result ?_
      have hdb : (w.live (.service (.recordContinuation matchId userId legal cost t sourceId))).db =
          db' := by
        simp only [World.live, World.next, Action.apply, hrecord]
        cases result <;> rfl
      rw [hdb]
      exact record_cases hrecord

theorem lifeEffect_reveal {matchId userId : Uuid} {consent : PhotoRevealConsent}
    {locked clock : ℤ} :
    LifeEffect w (.service (.recordReveal matchId userId consent locked clock)) := by
  cases hreveal : recordReveal w.db matchId userId consent locked clock with
  | error error =>
      refine .steady _ ?_
      simp only [World.live, World.next, Action.apply, hreveal]
      exact .refl _
  | ok answer =>
      obtain ⟨result, db'⟩ := answer
      refine .revealed matchId userId consent locked clock result ?_
      have hdb : (w.live (.service (.recordReveal matchId userId consent locked clock))).db =
          db' := by
        simp only [World.live, World.next, Action.apply, hreveal]
      rw [hdb]
      exact recordReveal_cases hreveal

theorem steady_createMessage {T : ℤ} (w : World) (q : MessageRequest) (t : MessageClock) :
    Steady T w.db (w.next (.createMessage q t)).db := by
  cases hmessage : createMessage w.db q t with
  | error error =>
      simp only [World.next, Action.apply, hmessage]
      exact .refl _
  | ok answer =>
      obtain ⟨result, db'⟩ := answer
      have hsteady : Steady T w.db db' := (createMessage_outcome hmessage).steady
      cases result with
      | available creation =>
          simp only [World.next, Action.apply, hmessage]
          exact hsteady
      | unavailable reason =>
          simp only [World.next, Action.apply, hmessage]
          exact hsteady
      | idempotencyConflict =>
          simp only [World.next, Action.apply, hmessage]
          exact hsteady

/-- The reservations that retention deletes belong to no undecided match. -/
theorem steady_purgeReservations {I : Uuid → Prop} {T now : ℤ} {db : Db} (h : Choices I T db)
    (hnow : now ≤ T) (limit : ℕ) (chosen : List (Uuid × Uuid)) :
    Steady T db (purgeReservations db now limit chosen) := by
  refine Steady.delete ?_
  intro m hm hundecided r hr hid
  rcases hundecided with hactive | ⟨hawaiting, hopen⟩
  · exact absurd hid (h.fresh m hm hactive r hr)
  · have hfind : db.matchInit.find? r.matchId = some m := by
      rw [hid]
      exact Table.find?_key hm
    have hlate : ¬ m.expiresAt ≤ now := by omega
    simp [hfind, hawaiting, hlate]

theorem lifeEffect (h : Choices (· ∈ w.createdIds) w.clock w.db)
    (henabled : conversations.Enabled w a) : LifeEffect w a := by
  cases a with
  | service a =>
      cases a with
      | createFromMutualLike id first second now clock => exact lifeEffect_create
      | recordContinuation matchId userId legal cost t sourceId => exact lifeEffect_record
      | recordReveal matchId userId consent locked clock => exact lifeEffect_reveal
      | recordEnd matchId userId checked stamped => exact .steady _ (steady_recordEnd ..)
      | messagesForUser matchId userId locked =>
          exact .steady _ (lockAvailableMatch_outcome ..).steady
      | createMessage q t => exact .steady _ (steady_createMessage w q t)
      | markMessageRead matchId messageId userId locked clock =>
          exact .steady _ (steady_markMessageRead ..)
      | markMessagesReadThrough matchId messageId userId locked clock =>
          exact .steady _ (steady_markMessagesReadThrough ..)
      | enqueueFirstPeriodReminders pass clock =>
          exact .steady _ (steady_enqueueDeadlines .firstPeriodEnding (fun _ _ ↦ nofun) ..)
      | openContinuationWindows pass => exact .steady _ (steady_openContinuationWindows ..)
      | expireContinuationWindows pass => exact .steady _ (steady_expireContinuationWindows ..)
      | enqueueWarnings pass clock =>
          exact .steady _ (steady_enqueueDeadlines .matchExpiring (fun _ _ ↦ nofun) ..)
      | closeInactiveMatches pass => exact .steady _ (steady_closeInactiveMatches ..)
      | deleteExpiredMessages pass chosen => exact .steady _ (.of_same rfl rfl rfl rfl)
      | deleteExpiredNotifications pass chosen =>
          exact .steady _ (steady_deleteExpiredNotifications ..)
      | purgeExpiredMatches pass reported => exact .steady _ (steady_purgeExpiredMatches ..)
      | grantAdvertisingCredit userId now =>
          obtain ⟨wallets, hgrant⟩ := grantAdvertisingCredit_frame w.db userId now
          refine .steady _ ?_
          change Steady _ w.db (Matches.grantAdvertisingCredit w.db userId now).2
          rw [hgrant]
          exact .of_same rfl rfl rfl rfl
      | environment env => exact .steady _ (.of_same rfl rfl rfl rfl)
      | tick now => exact .steady _ (.refl _)
  | block blockerId blockedId clock => exact .steady _ (steady_block ..)
  | purgeReservations now limit chosen =>
      exact .steady _ (steady_purgeReservations h henabled limit chosen)

theorem live_clock_le (henabled : conversations.Enabled w a) : w.clock ≤ (w.live a).clock := by
  cases a with
  | service a => exact Action.Enabled.clock_le henabled
  | block blockerId blockedId clock => exact henabled
  | purgeReservations now limit chosen => exact le_rfl

theorem live_createdIds {id : Uuid} (h : id ∈ w.createdIds) : id ∈ (w.live a).createdIds := by
  cases a with
  | service a => exact createdIds_mono w a h
  | block blockerId blockedId clock => exact h
  | purgeReservations now limit chosen => exact h

theorem Choices.next (h : Choices (· ∈ w.createdIds) w.clock w.db)
    (henabled : conversations.Enabled w a) :
    Choices (· ∈ (w.live a).createdIds) (w.live a).clock (w.live a).db := by
  have hlater := h.mono (fun _ hid ↦ live_createdIds (a := a) hid) (live_clock_le henabled)
  cases lifeEffect h henabled with
  | steady _ hsteady => exact hlater.of_steady hsteady
  | created id first second now clock hcreates hissued =>
      refine (h.mono (fun _ hid ↦ hid) (live_clock_le henabled)).of_creates hcreates
        (fun _ hid ↦ live_createdIds hid) hissued ?_
      exact henabled.fresh id first second now clock rfl
  | recorded matchId userId legal cost t sourceId result hcases =>
      obtain ⟨hstart, hend⟩ := henabled.start (t.now, t.trigger) rfl
      have hnow := h.mono (fun _ hid ↦ live_createdIds
        (a := .service (.recordContinuation matchId userId legal cost t sourceId)) hid) hstart
      exact (hcases.choices hnow).mono (fun _ hid ↦ hid) hend
  | revealed matchId userId consent locked clock answer hcases => exact hcases.choices hlater

theorem Initial.choices (h : Initial w) : Choices (· ∈ w.createdIds) w.clock w.db := by
  refine ⟨?_, ?_, ?_, ?_, ?_, ?_, ?_⟩ <;> simp [h.matchInit, h.matchState, h.reservations]

theorem choices_of_reachable (h : conversations.Reachable Initial w) :
    Choices (· ∈ w.createdIds) w.clock w.db := by
  obtain ⟨w₀, as, h₀, hvalid, rfl⟩ := h
  exact hvalid.invariant (I := fun w ↦ Choices (· ∈ w.createdIds) w.clock w.db) h₀.choices
    fun w a hinv henabled ↦ hinv.next henabled

/-- While a match is to be decided, at most one reservation is held and the
flags say by whom; and every answer of a call is true of the tables after it. -/
theorem continuation_never_half_way (w : World) (h : conversations.Reachable Initial w) :
    (∀ m ∈ w.db.matchInit, m.status = .awaitingContinuation → w.clock < m.expiresAt →
      (w.db.reservationsOf m.id).length ≤ 1 ∧
      ∀ u, m.isParticipant u = true →
        (w.db.matchState.find? (m.id, u)).any MatchState.continued =
          (w.db.reservations.find? (m.id, u)).isSome) ∧
    ∀ matchId userId legal cost t sourceId result db',
      (Action.recordContinuation matchId userId legal cost t sourceId).Enabled w →
      record w.db matchId userId legal cost t sourceId = .ok (result, db') →
      Truthful w.db matchId userId result db' := by
  have hchoices := choices_of_reachable h
  refine ⟨fun m hm hawaiting hopen ↦ ?_, ?_⟩
  · have hcoherent := hchoices.coherent m hm (Or.inr ⟨hawaiting, hopen⟩)
    refine ⟨?_, hcoherent.chosen⟩
    rw [length_reservationsOf]
    refine count_le_one_iff.mpr fun r hr s hs hrid hsid ↦ ?_
    exact hcoherent.single r hr s hs (by simpa using hrid) (by simpa using hsid)
  · intro matchId userId legal cost t sourceId result db' henabled hrecord
    obtain ⟨hstart, _⟩ := henabled.start (t.now, t.trigger) rfl
    exact (record_cases hrecord).truthful (hchoices.mono (fun _ hid ↦ hid) hstart)

end Steps

/-- One participant of a match chooses to continue it. -/
def oneContinues : List LifeAction :=
  [.service (.createFromMutualLike 7 1 2 0 0),
    .service (.recordContinuation 7 1 none 1 (.constant (hours 30)) 20)]

theorem valid_oneContinues : conversations.Valid pairWorld oneContinues := by
  obtain ⟨hcreate, hrecord, _⟩ := valid_bothContinue
  exact ⟨hcreate, hrecord, trivial⟩

theorem continuation_never_half_way_oneContinues :
    ((conversations.exec pairWorld oneContinues).db.matchInit.rows.any fun m ↦
      m.status = .awaitingContinuation &&
        decide ((conversations.exec pairWorld oneContinues).clock < m.expiresAt)) = true ∧
    ((conversations.exec pairWorld oneContinues).db.reservationsOf 7).length = 1 ∧
    ∀ m ∈ (conversations.exec pairWorld oneContinues).db.matchInit,
      m.status = .awaitingContinuation →
      (conversations.exec pairWorld oneContinues).clock < m.expiresAt →
      ((conversations.exec pairWorld oneContinues).db.reservationsOf m.id).length ≤ 1 := by
  refine ⟨by decide +kernel, by decide +kernel, fun m hm hawaiting hopen ↦ ?_⟩
  exact ((continuation_never_half_way (conversations.exec pairWorld oneContinues)
    ⟨pairWorld, oneContinues, initial_pairWorld, valid_oneContinues, rfl⟩).1 m hm hawaiting
    hopen).1

end Histae.Matches
