import Histae.Matches.Steady
import Histae.Matches.Charges

/-!
# The choices of a match

A participant who chose to continue holds a reservation until the match is
decided, and the flag of the choice says so. Two choices meet inside one call:
it confirms the match, or takes back the choice that no longer holds.
-/

namespace Histae.Matches

open Relational Systems

/-- A continuation call changes no choice of another match and no consent to
reveal a photo. -/
structure Touches (T : ℤ) (matchId : Uuid) (db db' : Db) : Prop where
  rows : ∀ m' ∈ db'.matchInit, ∃ m ∈ db.matchInit, Continues T m m'
  revealed : ∀ key, (db'.matchState.find? key).map MatchState.revealed =
    (db.matchState.find? key).map MatchState.revealed
  states : ∀ key, key.1 ≠ matchId → db'.matchState.find? key = db.matchState.find? key
  reservations : ∀ key, key.1 ≠ matchId →
    db'.reservations.find? key = db.reservations.find? key
  announced : ∀ n ∈ db'.notifications, n.intent.kind = .photosRevealed → n ∈ db.notifications

namespace Touches

variable {T : ℤ} {matchId : Uuid} {db db' db'' : Db}

theorem refl (db : Db) : Touches T matchId db db where
  rows m hm := ⟨m, hm, .refl m⟩
  revealed _ := rfl
  states _ _ := rfl
  reservations _ _ := rfl
  announced _ hn _ := hn

theorem trans (h : Touches T matchId db db') (h' : Touches T matchId db' db'') :
    Touches T matchId db db'' where
  rows m'' hm'' := by
    obtain ⟨m', hm', hcontinues'⟩ := h'.rows m'' hm''
    obtain ⟨m, hm, hcontinues⟩ := h.rows m' hm'
    exact ⟨m, hm, hcontinues.trans hcontinues'⟩
  revealed key := (h'.revealed key).trans (h.revealed key)
  states key hkey := (h'.states key hkey).trans (h.states key hkey)
  reservations key hkey := (h'.reservations key hkey).trans (h.reservations key hkey)
  announced n hn hkind := h.announced n (h'.announced n hn hkind) hkind

theorem setContinued (db : Db) (matchId userId : Uuid) (continued : Bool) :
    Touches T matchId db (setContinued db matchId userId continued) where
  rows m hm := ⟨m, hm, .refl m⟩
  revealed key := by
    unfold Matches.setContinued
    rw [Table.find?_modify (MatchState.key_choose continued), Option.map_map]
    congr 1
    funext s
    simp only [Function.comp_apply]
    split <;> rfl
  states key hkey := by
    unfold Matches.setContinued
    rw [Table.find?_modify (MatchState.key_choose continued)]
    cases hfind : db.matchState.find? key with
    | none => rfl
    | some s =>
        have hs : s.key ≠ (matchId, userId) := fun h ↦
          hkey (congrArg Prod.fst ((Table.find?_eq_some_iff.mp hfind).2.symm.trans h))
        simp [hs]
  reservations _ _ := rfl
  announced _ hn _ := hn

theorem insertReservation {r : Reservation} {reservations : Table Reservation.key}
    (hinsert : db.reservations.insert? r = some reservations) (hr : r.matchId = matchId) :
    Touches T matchId db { db with reservations } where
  rows m hm := ⟨m, hm, .refl m⟩
  revealed _ := rfl
  states _ _ := rfl
  reservations key hkey := by
    have hne : r.key ≠ key := fun h ↦ hkey ((congrArg Prod.fst h).symm.trans hr)
    rw [Table.find?_insert hinsert, if_neg hne]
  announced _ hn _ := hn

theorem deleteReservation {p : Reservation → Bool}
    (hp : ∀ r, p r = true → r.matchId = matchId) :
    Touches T matchId db { db with reservations := db.reservations.delete p } where
  rows m hm := ⟨m, hm, .refl m⟩
  revealed _ := rfl
  states _ _ := rfl
  reservations key hkey := by
    change (db.reservations.delete p).find? key = _
    rw [Table.find?_delete]
    cases hfind : db.reservations.find? key with
    | none => rfl
    | some r =>
        have hr : p r = false := by
          by_contra hne
          have hid := hp r (by simpa using hne)
          exact hkey ((congrArg Prod.fst (Table.find?_eq_some_iff.mp hfind).2).symm.trans hid)
        simp [Option.filter, hr]
  announced _ hn _ := hn

theorem expireChoiceNotification (db : Db) (id actorId : Uuid) (clock : ℤ) :
    Touches T matchId db (expireChoiceNotification db id actorId clock) where
  rows m hm := ⟨m, hm, .refl m⟩
  revealed _ := rfl
  states _ _ := rfl
  reservations _ _ := rfl
  announced n' hn' hkind := by
    obtain ⟨n, hn, rfl⟩ := (Table.mem_modify (Notification.deduplicationKey_expire clock)).mp hn'
    split at hkind
    · rename_i hrequest
      simp only [Bool.and_eq_true, decide_eq_true_eq] at hrequest
      have hintent : n.intent.kind = .photosRevealed := hkind
      rw [hrequest.1.2] at hintent
      cases hintent
    · rename_i hother
      rw [if_neg hother]
      exact hn

theorem enqueueNotification {clock : ℤ} {userId : Uuid} {source : NotificationSource}
    (intent : NotificationIntent) (hkind : intent.kind ≠ .photosRevealed) :
    Touches T matchId db (enqueueNotification db clock userId source intent) := by
  have hsteady : Steady T db (Matches.enqueueNotification db clock userId source intent) :=
    .enqueueNotification hkind
  refine ⟨hsteady.rows, ?_, ?_, ?_, hsteady.announced⟩ <;>
  · intros
    unfold Matches.enqueueNotification
    split
    · rfl
    · split <;> rfl

theorem updateMatch {clock : ℤ} {p : MatchRecord → Bool} {f : MatchRecord → MatchRecord}
    (hf : ∀ m, (f m).id = m.id)
    (h : ∀ m ∈ db.matchInit, p m = true → Continues T m (trackMatchInactivity clock m (f m))) :
    Touches T matchId db (updateMatch db clock p f hf) :=
  ⟨(Steady.updateMatch hf h).rows, fun _ ↦ rfl, fun _ _ ↦ rfl, fun _ _ ↦ rfl,
    fun _ hn _ ↦ hn⟩

theorem clearChoice (db : Db) (matchId userId : Uuid) (clock : ℤ) :
    Touches T matchId db (clearChoice db matchId userId clock) := by
  refine (deleteReservation fun r hr ↦ ?_).trans
    ((expireChoiceNotification _ matchId userId clock).trans (setContinued _ matchId userId false))
  exact congrArg Prod.fst (of_decide_eq_true hr)

theorem notifyWaiting (db : Db) (matchId actorId first second : Uuid) (clock : ℤ)
    (sourceId : Uuid) :
    Touches T matchId db (notifyWaiting db matchId actorId first second clock sourceId) := by
  unfold Matches.notifyWaiting
  dsimp only
  generalize (if actorId = first then second else first) = recipient
  split
  · exact (expireChoiceNotification db matchId actorId clock).trans
      (enqueueNotification (.continuationRequested matchId actorId) fun h ↦ by cases h)
  · exact .refl db

/-- A confirmation decides the match and drops its reservations. -/
theorem confirmedDb {charges : List Charge} {now : ℤ} {db₃ : Db} {m : MatchRecord}
    {t : RecordClock} (hpaid : debitAll now charges db = .ok db₃) :
    Touches T matchId db (confirmedDb db₃ m matchId t) := by
  obtain ⟨usage, wallets, rfl⟩ := debitAll_frame hpaid
  have hdebits : Touches T matchId db { db with usage, wallets } :=
    ⟨fun m hm ↦ ⟨m, hm, .refl m⟩, fun _ ↦ rfl, fun _ _ ↦ rfl, fun _ _ ↦ rfl,
      fun _ hn _ ↦ hn⟩
  have hconfirm : Touches T matchId { db with usage, wallets }
      (confirmMatch { db with usage, wallets } matchId t.guard t.trigger) := by
    apply updateMatch
    intro n _ _
    exact .confirmed n t.trigger
  refine hdebits.trans (hconfirm.trans ((enqueueNotification (.conversationContinued matchId)
    nofun).trans ((enqueueNotification (.conversationContinued matchId) nofun).trans
      (deleteReservation fun r hr ↦ ?_))))
  exact of_decide_eq_true hr

end Touches

/-- The flags say who holds a reservation, and one participant at most does. -/
structure Db.Coherent (db : Db) (m : MatchRecord) : Prop where
  chosen : ∀ u, m.isParticipant u = true →
    (db.matchState.find? (m.id, u)).any MatchState.continued =
      (db.reservations.find? (m.id, u)).isSome
  single : ∀ r ∈ db.reservations, ∀ s ∈ db.reservations, r.matchId = m.id → s.matchId = m.id →
    r = s

/-- What holds of the choices at `T`; `I` are the identifiers issued so far. -/
structure Choices (I : Uuid → Prop) (T : ℤ) (db : Db) : Prop where
  issued : ∀ m ∈ db.matchInit, I m.id
  owned : ∀ r ∈ db.reservations, I r.matchId
  filed : ∀ s ∈ db.matchState, I s.matchId
  pair : ∀ m ∈ db.matchInit, m.user1Id ≠ m.user2Id
  states : ∀ m ∈ db.matchInit, ∀ u,
    m.isParticipant u = (db.matchState.find? (m.id, u)).isSome
  coherent : ∀ m ∈ db.matchInit, m.Undecided T → db.Coherent m
  fresh : ∀ m ∈ db.matchInit, m.status = .active → ∀ r ∈ db.reservations, r.matchId ≠ m.id

namespace Choices

variable {I I' : Uuid → Prop} {T T' : ℤ} {db db' : Db} {id : Uuid}

theorem mono (h : Choices I T db) (hI : ∀ id, I id → I' id) (hT : T ≤ T') : Choices I' T' db where
  issued m hm := hI _ (h.issued m hm)
  owned r hr := hI _ (h.owned r hr)
  filed s hs := hI _ (h.filed s hs)
  pair := h.pair
  states := h.states
  coherent m hm hundecided := h.coherent m hm (hundecided.mono hT)
  fresh := h.fresh

theorem of_steady (h : Choices I T db) (hsteady : Steady T db db') : Choices I T db' where
  issued m' hm' := by
    obtain ⟨m, hm, hcontinues⟩ := hsteady.rows m' hm'
    rw [hcontinues.id]
    exact h.issued m hm
  owned r hr := h.owned r (hsteady.kept r hr)
  filed s hs := h.filed s (hsteady.filed s hs)
  pair m' hm' := by
    obtain ⟨m, hm, hcontinues⟩ := hsteady.rows m' hm'
    rw [hcontinues.user1Id, hcontinues.user2Id]
    exact h.pair m hm
  states m' hm' u := by
    obtain ⟨m, hm, hcontinues⟩ := hsteady.rows m' hm'
    rw [hsteady.states m' hm' u, hcontinues.id, ← h.states m hm u, MatchRecord.isParticipant,
      MatchRecord.isParticipant, hcontinues.user1Id, hcontinues.user2Id]
  coherent m' hm' hundecided := by
    obtain ⟨m, hm, hcontinues⟩ := hsteady.rows m' hm'
    have hcoherent := h.coherent m hm (hcontinues.undecided hundecided)
    refine ⟨fun u hu ↦ ?_, fun r hr s hs hrid hsid ↦ ?_⟩
    · rw [hsteady.states m' hm' u, hsteady.reservations m' hm' hundecided u, hcontinues.id]
      refine hcoherent.chosen u ?_
      rwa [MatchRecord.isParticipant, ← hcontinues.user1Id, ← hcontinues.user2Id]
    · rw [hcontinues.id] at hrid hsid
      exact hcoherent.single r (hsteady.kept r hr) s (hsteady.kept s hs) hrid hsid
  fresh m' hm' hactive r hr := by
    obtain ⟨m, hm, hcontinues⟩ := hsteady.rows m' hm'
    rw [hcontinues.id]
    exact h.fresh m hm (hcontinues.active hactive) r (hsteady.kept r hr)

/-- A call about one match that is no longer active keeps the others as they
are. -/
theorem of_touches (h : Choices I T db) (htouches : Touches T id db db') (hid : I id)
    (hactive : ∀ m ∈ db.matchInit, m.id = id → m.status ≠ .active)
    (hthis : ∀ m' ∈ db'.matchInit, m'.id = id → m'.Undecided T → db'.Coherent m') :
    Choices I T db' := by
  have hkept : ∀ r ∈ db'.reservations, r.matchId ≠ id → r ∈ db.reservations := by
    intro r hr hne
    have hfind := htouches.reservations r.key hne
    rw [Table.find?_key hr] at hfind
    exact (Table.find?_eq_some_iff.mp hfind.symm).1
  have hstates : ∀ key, (db'.matchState.find? key).isSome = (db.matchState.find? key).isSome := by
    intro key
    rw [← Option.isSome_map (f := MatchState.revealed), htouches.revealed key, Option.isSome_map]
  refine ⟨?_, ?_, ?_, ?_, ?_, ?_, ?_⟩
  · intro m' hm'
    obtain ⟨m, hm, hcontinues⟩ := htouches.rows m' hm'
    rw [hcontinues.id]
    exact h.issued m hm
  · intro r hr
    by_cases hr' : r.matchId = id
    · rwa [hr']
    · exact h.owned r (hkept r hr hr')
  · intro s hs
    have hsome : (db.matchState.find? s.key).isSome := by
      rw [← hstates, Table.find?_key hs]
      rfl
    obtain ⟨s₀, hs₀⟩ := Option.isSome_iff_exists.mp hsome
    obtain ⟨hmem, hkey⟩ := Table.find?_eq_some_iff.mp hs₀
    have hmatch : s₀.matchId = s.matchId := congrArg Prod.fst hkey
    rw [← hmatch]
    exact h.filed s₀ hmem
  · intro m' hm'
    obtain ⟨m, hm, hcontinues⟩ := htouches.rows m' hm'
    rw [hcontinues.user1Id, hcontinues.user2Id]
    exact h.pair m hm
  · intro m' hm' u
    obtain ⟨m, hm, hcontinues⟩ := htouches.rows m' hm'
    rw [hstates, hcontinues.id, ← h.states m hm u, MatchRecord.isParticipant,
      MatchRecord.isParticipant, hcontinues.user1Id, hcontinues.user2Id]
  · intro m' hm' hundecided
    by_cases hm'id : m'.id = id
    · exact hthis m' hm' hm'id hundecided
    obtain ⟨m, hm, hcontinues⟩ := htouches.rows m' hm'
    have hcoherent := h.coherent m hm (hcontinues.undecided hundecided)
    refine ⟨fun u hu ↦ ?_, fun r hr s hs hrid hsid ↦ ?_⟩
    · rw [htouches.states (m'.id, u) hm'id, htouches.reservations (m'.id, u) hm'id, hcontinues.id]
      refine hcoherent.chosen u ?_
      rwa [MatchRecord.isParticipant, ← hcontinues.user1Id, ← hcontinues.user2Id]
    · have hr' := hkept r hr (by rwa [hrid])
      have hs' := hkept s hs (by rwa [hsid])
      rw [hcontinues.id] at hrid hsid
      exact hcoherent.single r hr' s hs' hrid hsid
  · intro m' hm' hm'active r hr
    obtain ⟨m, hm, hcontinues⟩ := htouches.rows m' hm'
    have hne : m'.id ≠ id := fun heq ↦
      hactive m hm (hcontinues.id.symm.trans heq) (hcontinues.active hm'active)
    intro hrid
    have hr' := hkept r hr (by rwa [hrid])
    exact h.fresh m hm (hcontinues.active hm'active) r hr' (hrid.trans hcontinues.id)

end Choices

end Histae.Matches
