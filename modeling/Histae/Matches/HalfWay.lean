import Histae.Matches.Choices

/-!
# No choice is left half-way

One call of `record`, seen from the choices of its match. The caller's own
reservation passes the validation that follows it, so only the partner's choice
is ever taken back.
-/

namespace Histae.Matches

open Relational Systems

section Lookups

variable {db : Db} {matchId userId : Uuid} {key : Uuid × Uuid}

theorem any_continued_setContinued (db : Db) (continued : Bool) :
    ((setContinued db matchId userId continued).matchState.find? key).any MatchState.continued =
      if key = (matchId, userId) then continued && (db.matchState.find? key).isSome
      else (db.matchState.find? key).any MatchState.continued := by
  unfold setContinued
  rw [Table.find?_modify (MatchState.key_choose continued)]
  cases hfind : db.matchState.find? key with
  | none => simp
  | some s =>
      have hkey := (Table.find?_eq_some_iff.mp hfind).2
      by_cases hs : key = (matchId, userId)
      · simp [hkey, hs, MatchState.choose]
      · simp [hkey, hs]

theorem find?_reservations_clearChoice (clock : ℤ) :
    (clearChoice db matchId userId clock).reservations.find? key =
      if key = (matchId, userId) then none else db.reservations.find? key := by
  change (db.reservations.delete _).find? key = _
  rw [Table.find?_delete]
  cases hfind : db.reservations.find? key with
  | none => simp
  | some r =>
      have hkey := (Table.find?_eq_some_iff.mp hfind).2
      by_cases hr : key = (matchId, userId)
      · simp [Option.filter, hkey, hr]
      · simp [Option.filter, hkey, hr]

theorem mem_reservations_clearChoice {r : Reservation} {clock : ℤ} :
    r ∈ (clearChoice db matchId userId clock).reservations ↔
      r ∈ db.reservations ∧ r.key ≠ (matchId, userId) := by
  change r ∈ db.reservations.delete _ ↔ _
  rw [Table.mem_delete]
  simp

/-- A choice taken back leaves the flags in agreement with the reservations. -/
theorem chosen_clearChoice {m : MatchRecord} {clock : ℤ}
    (h : ∀ u, m.isParticipant u = true →
      (db.matchState.find? (m.id, u)).any MatchState.continued =
        (db.reservations.find? (m.id, u)).isSome) (u : Uuid) (hu : m.isParticipant u = true) :
    ((clearChoice db matchId userId clock).matchState.find? (m.id, u)).any MatchState.continued =
      ((clearChoice db matchId userId clock).reservations.find? (m.id, u)).isSome := by
  rw [find?_reservations_clearChoice]
  refine (any_continued_setContinued (expireChoiceNotification
    { db with reservations := db.reservations.delete fun r ↦ r.key = (matchId, userId) }
    matchId userId clock) false).trans ?_
  split
  · rfl
  · exact h u hu

theorem Db.Coherent.clearChoice {m : MatchRecord} {clock : ℤ} (h : db.Coherent m) :
    (clearChoice db matchId userId clock).Coherent m where
  chosen := chosen_clearChoice h.chosen
  single r hr s hs hrid hsid :=
    h.single r (mem_reservations_clearChoice.mp hr).1 s (mem_reservations_clearChoice.mp hs).1
      hrid hsid

theorem Db.Coherent.of_eq {db' : Db} {m : MatchRecord} (h : db.Coherent m)
    (hstates : db'.matchState = db.matchState) (hreservations : db'.reservations = db.reservations) :
    db'.Coherent m where
  chosen u hu := by
    rw [hstates, hreservations]
    exact h.chosen u hu
  single := by
    rw [hreservations]
    exact h.single

theorem notifyWaiting_frame (db : Db) (matchId actorId first second : Uuid) (clock : ℤ)
    (sourceId : Uuid) :
    (notifyWaiting db matchId actorId first second clock sourceId).matchState = db.matchState ∧
      (notifyWaiting db matchId actorId first second clock sourceId).reservations =
        db.reservations ∧
      (notifyWaiting db matchId actorId first second clock sourceId).matchInit = db.matchInit := by
  have hledger := sameLedger_notifyWaiting db matchId actorId first second clock sourceId
  refine ⟨?_, hledger.reservations, hledger.matchInit⟩
  unfold notifyWaiting
  dsimp only
  generalize (if actorId = first then second else first) = recipient
  split
  · unfold enqueueNotification
    split
    · rfl
    · split <;> rfl
  · rfl

/-- At most one row satisfies a condition. -/
theorem count_le_one_iff {p : Reservation → Bool} :
    db.reservations.count p ≤ 1 ↔ ∀ r ∈ db.reservations, ∀ s ∈ db.reservations,
      p r = true → p s = true → r = s := by
  rw [Table.count_eq_card, Finset.card_le_one]
  constructor
  · intro h r hr s hs hpr hps
    exact Table.eq_of_key_eq hr hs
      (h _ (Table.mem_keys.mpr ⟨r, hr, hpr, rfl⟩) _ (Table.mem_keys.mpr ⟨s, hs, hps, rfl⟩))
  · intro h k hk l hl
    obtain ⟨r, hr, hpr, rfl⟩ := Table.mem_keys.mp hk
    obtain ⟨s, hs, hps, rfl⟩ := Table.mem_keys.mp hl
    rw [h r hr s hs hpr hps]

theorem length_reservationsOf (db : Db) (matchId : Uuid) :
    (db.reservationsOf matchId).length = db.reservations.count fun r ↦ r.matchId = matchId := by
  unfold Db.reservationsOf Table.count Table.select
  rw [List.length_insertionSort, List.countP_eq_length_filter]

theorem mem_reservationsOf' {r : Reservation} :
    r ∈ db.reservationsOf matchId ↔ r ∈ db.reservations ∧ r.matchId = matchId := by
  unfold Db.reservationsOf
  rw [(List.perm_insertionSort _ _).mem_iff, Table.mem_select]
  simp

end Lookups

section Validation

variable {db : Db} {now : ℤ} {userId : Uuid}

/-- The reservation at which a validation stops. -/
theorem validateCharges_eq_error {rs : List Reservation} {participant : Uuid}
    (h : validateCharges db now rs = .error participant) :
    ∃ r ∈ rs, r.userId = participant ∧
      (r.source = .advertising ∧ r.weekStart ≠ startOfUtcWeek now ∨
        (quotaOn db r.userId now).weeklyLimit.isNone = false ∧
          (r.source = .premium ∨ freeWeeklyContinuationLimit ≤ (quotaOn db r.userId now).used)) := by
  induction rs with
  | nil => cases h
  | cons r rest ih =>
      have hmap : ∀ {f : List Charge → List Charge},
          (validateCharges db now rest).map f = .error participant →
          validateCharges db now rest = .error participant := by
        intro f hf
        cases htail : validateCharges db now rest with
        | error other =>
            rw [htail] at hf
            exact hf
        | ok charges =>
            rw [htail] at hf
            cases hf
      have hlater : validateCharges db now rest = .error participant → ∃ s ∈ r :: rest,
          s.userId = participant ∧ (s.source = .advertising ∧ s.weekStart ≠ startOfUtcWeek now ∨
            (quotaOn db s.userId now).weeklyLimit.isNone = false ∧ (s.source = .premium ∨
              freeWeeklyContinuationLimit ≤ (quotaOn db s.userId now).used)) := by
        intro htail
        obtain ⟨s, hs, hinvalid⟩ := ih htail
        exact ⟨s, List.mem_cons_of_mem r hs, hinvalid⟩
      unfold validateCharges at h
      split at h
      · rename_i hstale
        obtain rfl := Except.error.inj h
        exact ⟨r, List.mem_cons_self, rfl, Or.inl hstale⟩
      dsimp only at h
      split at h
      · exact hlater (hmap h)
      · rename_i hlimited
        split at h
        · rename_i hinvalid
          obtain rfl := Except.error.inj h
          exact ⟨r, List.mem_cons_self, rfl, Or.inr ⟨eq_false_of_ne_true hlimited, hinvalid⟩⟩
        · exact hlater (hmap h)

theorem used_lt_of_reservationSource {source : Source}
    (h : reservationSource (quotaOn db userId now) = some source)
    (hlimited : (quotaOn db userId now).weeklyLimit.isNone = false) :
    source ≠ .premium ∧ (quotaOn db userId now).used < freeWeeklyContinuationLimit := by
  unfold reservationSource at h
  rw [hlimited] at h
  simp only [Bool.false_eq_true, if_false] at h
  rw [quotaOn_weeklyLimit] at hlimited
  split at h
  · cases h
  rename_i hremaining
  refine ⟨?_, ?_⟩
  · split at h <;> cases h <;> decide
  · cases hplan : (db.effectivePlanOn userId).weeklyCredits with
    | none =>
        rw [hplan] at hlimited
        cases hlimited
    | some included =>
        simp only [quotaOn, hplan, Option.getD_some] at hremaining ⊢
        omega

/-- A reservation of the caller passes its own validation. -/
theorem validateCharges_error_ne {db₀ db₂ : Db} {r : Reservation} {rs : List Reservation}
    {participant : Uuid} (hsource : reservationSource (quotaOn db₀ r.userId now) = some r.source)
    (hweek : r.weekStart = startOfUtcWeek now) (hplans : db₂.plans = db₀.plans)
    (husage : db₂.usage = db₀.usage) (hown : ∀ s ∈ rs, s.userId = r.userId → s = r)
    (h : validateCharges db₂ now rs = .error participant) : participant ≠ r.userId := by
  rintro rfl
  obtain ⟨s, hs, huser, hinvalid⟩ := validateCharges_eq_error h
  obtain rfl := hown s hs huser
  have hlimit : (quotaOn db₂ s.userId now).weeklyLimit.isNone =
      (quotaOn db₀ s.userId now).weeklyLimit.isNone := by
    rw [quotaOn_weeklyLimit, quotaOn_weeklyLimit, Db.effectivePlanOn, Db.effectivePlanOn, hplans]
  rcases hinvalid with ⟨_, hstale⟩ | ⟨hlimited, hinvalid⟩
  · exact hstale hweek
  rw [hlimit] at hlimited
  obtain ⟨hpremium, hused⟩ := used_lt_of_reservationSource hsource hlimited
  have hsame : (quotaOn db₂ s.userId now).used = (quotaOn db₀ s.userId now).used := by
    simp only [quotaOn, Db.effectivePlanOn, hplans, Db.usedCount, husage]
    split <;> rfl
  rcases hinvalid with hsource' | hlimit'
  · exact hpremium hsource'
  · rw [hsame] at hlimit'
    omega

end Validation

section Reservation

variable {I : Uuid → Prop} {db db₀ db₁ db' : Db} {m : MatchRecord} {matchId userId sourceId : Uuid}
  {t : RecordClock} {result : ContinuationResult}

/-- The tables with a new reservation and the flag of its owner. -/
def reservedDb (db₀ : Db) (r : Reservation) (reservations : Table Reservation.key) : Db :=
  setContinued { db₀ with reservations } r.matchId r.userId true

/-- What a call does once its owner holds no reservation. -/
inductive ReservationOutcome (db₀ : Db) (m : MatchRecord) (matchId userId : Uuid)
    (t : RecordClock) : ContinuationResult → Db → Prop
  | refused : ReservationOutcome db₀ m matchId userId t .quotaReached db₀
  | waiting (r : Reservation) (reservations : Table Reservation.key) (sourceId : Uuid)
      (hrow : r = ⟨matchId, userId, r.source, startOfUtcWeek t.now⟩)
      (hinsert : db₀.reservations.insert? r = some reservations)
      (halone : ((reservedDb db₀ r reservations).reservationsOf matchId).length ≠ 2) :
      ReservationOutcome db₀ m matchId userId t .pending
        (notifyWaiting (reservedDb db₀ r reservations) matchId userId m.user1Id m.user2Id t.notice
          sourceId)
  | released (r : Reservation) (reservations : Table Reservation.key) (participant sourceId : Uuid)
      (hrow : r = ⟨matchId, userId, r.source, startOfUtcWeek t.now⟩)
      (hinsert : db₀.reservations.insert? r = some reservations)
      (hother : participant ≠ userId)
      (hheld : ∃ s ∈ db₀.reservations, s.key = (matchId, participant)) :
      ReservationOutcome db₀ m matchId userId t .pending
        (notifyWaiting (clearChoice (reservedDb db₀ r reservations) matchId participant t.notice)
          matchId userId m.user1Id m.user2Id t.notice sourceId)
  | confirmed (r : Reservation) (reservations : Table Reservation.key) (charges : List Charge)
      (db₃ : Db) (hrow : r = ⟨matchId, userId, r.source, startOfUtcWeek t.now⟩)
      (hinsert : db₀.reservations.insert? r = some reservations)
      (hconfirms : Confirms (reservedDb db₀ r reservations) matchId t charges db₃) :
      ReservationOutcome db₀ m matchId userId t .confirmed (confirmedDb db₃ m matchId t)

theorem recordReservation_cases
    (h : recordReservation db₀ m matchId userId t sourceId = .ok (result, db')) :
    ReservationOutcome db₀ m matchId userId t result db' := by
  unfold recordReservation at h
  split at h
  · cases h
  · rename_i db₂ hreserve
    obtain ⟨rfl, rfl⟩ := Prod.mk.inj (Except.ok.inj h)
    rcases reserve_eq_ok hreserve with ⟨_, rfl⟩ | ⟨hfalse, _⟩
    · exact .refused
    · cases hfalse
  · rename_i db₂ hreserve
    rcases reserve_eq_ok hreserve with ⟨htrue, _⟩ | ⟨_, source, reservations, hsource, hinsert, rfl⟩
    · cases htrue
    have hdb₂ : setContinued { db₀ with reservations } matchId userId true =
        reservedDb db₀ ⟨matchId, userId, source, startOfUtcWeek t.now⟩ reservations := rfl
    dsimp only at h
    rw [hdb₂] at h
    split at h
    · rename_i halone
      obtain ⟨rfl, rfl⟩ := Prod.mk.inj (Except.ok.inj h)
      exact .waiting _ reservations sourceId rfl hinsert halone
    · rename_i hlength
      split at h
      · rename_i participant hinvalid
        obtain ⟨rfl, rfl⟩ := Prod.mk.inj (Except.ok.inj h)
        have hown : ∀ s ∈ (reservedDb db₀ ⟨matchId, userId, source, startOfUtcWeek t.now⟩
            reservations).reservationsOf matchId, s.userId = userId →
            s = ⟨matchId, userId, source, startOfUtcWeek t.now⟩ := by
          intro s hs hsuser
          obtain ⟨hmem, hsid⟩ := mem_reservationsOf'.mp hs
          refine Table.eq_of_key_eq hmem ((Table.mem_insert hinsert).mpr (Or.inl rfl)) ?_
          rw [Reservation.key, hsid, hsuser]
          rfl
        have hother : participant ≠ userId := by
          refine validateCharges_error_ne (r := ⟨matchId, userId, source, startOfUtcWeek t.now⟩)
            hsource rfl ?_ ?_ hown hinvalid <;> rfl
        obtain ⟨s, hs, rfl, _⟩ := validateCharges_eq_error hinvalid
        obtain ⟨hmem, hsid⟩ := mem_reservationsOf'.mp hs
        refine .released _ reservations s.userId sourceId rfl hinsert hother ⟨s, ?_, ?_⟩
        · rcases (Table.mem_insert hinsert).mp hmem with rfl | hmem
          · exact absurd rfl hother
          · exact hmem
        · rw [Reservation.key, hsid]
      · rename_i charges hvalid
        obtain ⟨rfl, db₃, hdebit, hguard, rfl⟩ := confirm_eq_ok h
        exact .confirmed _ reservations charges db₃ rfl hinsert
          ⟨not_not.mp hlength, hvalid, hdebit, hguard⟩

/-- The flags agree with the reservations also while both are held. -/
theorem chosen_reservedDb {r : Reservation} {reservations : Table Reservation.key}
    (hcoherent : db₀.Coherent m) (hid : m.id = r.matchId)
    (hstate : (db₀.matchState.find? (m.id, r.userId)).isSome = true)
    (hinsert : db₀.reservations.insert? r = some reservations) (u : Uuid)
    (hu : m.isParticipant u = true) :
    ((reservedDb db₀ r reservations).matchState.find? (m.id, u)).any MatchState.continued =
      ((reservedDb db₀ r reservations).reservations.find? (m.id, u)).isSome := by
  have hkey : r.key = (m.id, r.userId) := by rw [hid]; rfl
  refine (any_continued_setContinued { db₀ with reservations } true).trans ?_
  change _ = (reservations.find? (m.id, u)).isSome
  rw [Table.find?_insert hinsert, hkey, ← hid]
  by_cases hown : u = r.userId
  · subst hown
    simp [hstate]
  · have hne : ¬ (m.id, r.userId) = (m.id, u) := fun h ↦ hown (congrArg Prod.snd h).symm
    have hne' : ¬ (m.id, u) = (m.id, r.userId) := fun h ↦ hown (congrArg Prod.snd h)
    rw [if_neg hne, if_neg hne']
    exact hcoherent.chosen u hu

theorem mem_reservations_reservedDb {r s : Reservation} {reservations : Table Reservation.key}
    (hinsert : db₀.reservations.insert? r = some reservations) :
    s ∈ (reservedDb db₀ r reservations).reservations ↔ s = r ∨ s ∈ db₀.reservations :=
  Table.mem_insert hinsert

theorem touches_reservedDb {T : ℤ} {r : Reservation} {reservations : Table Reservation.key}
    (hinsert : db₀.reservations.insert? r = some reservations) (hr : r.matchId = matchId) :
    Touches T matchId db₀ (reservedDb db₀ r reservations) := by
  subst hr
  exact (Touches.insertReservation hinsert rfl).trans (.setContinued _ r.matchId r.userId true)

theorem ReservationOutcome.touches {T : ℤ}
    (h : ReservationOutcome db₀ m matchId userId t result db') : Touches T matchId db₀ db' := by
  cases h with
  | refused => exact .refl db₀
  | waiting r reservations sourceId hrow hinsert halone =>
      exact (touches_reservedDb hinsert (by rw [hrow])).trans (.notifyWaiting ..)
  | released r reservations participant sourceId hrow hinsert hother hheld =>
      exact ((touches_reservedDb hinsert (by rw [hrow])).trans (.clearChoice ..)).trans
        (.notifyWaiting ..)
  | confirmed r reservations charges db₃ hrow hinsert hconfirms =>
      exact (touches_reservedDb hinsert (by rw [hrow])).trans (.confirmedDb hconfirms.paid)

/-- One reservation besides the caller's own makes two. -/
theorem single_of_length {r : Reservation} {reservations : Table Reservation.key}
    (hcoherent : db₀.Coherent m) (hid : m.id = matchId) (hr : r.matchId = matchId)
    (hinsert : db₀.reservations.insert? r = some reservations)
    (halone : ((reservedDb db₀ r reservations).reservationsOf matchId).length ≠ 2) :
    ∀ a ∈ (reservedDb db₀ r reservations).reservations,
      ∀ b ∈ (reservedDb db₀ r reservations).reservations,
        a.matchId = m.id → b.matchId = m.id → a = b := by
  have hbefore : db₀.reservations.count (fun s ↦ s.matchId = matchId) ≤ 1 := by
    refine count_le_one_iff.mpr fun a ha b hb hpa hpb ↦ ?_
    exact hcoherent.single a ha b hb (by simpa [hid] using hpa) (by simpa [hid] using hpb)
  have hafter : reservations.count (fun s ↦ s.matchId = matchId) =
      db₀.reservations.count (fun s ↦ s.matchId = matchId) + 1 := by
    rw [Table.count_insert hinsert]
    simp [hr]
  rw [length_reservationsOf] at halone
  change reservations.count (fun s ↦ s.matchId = matchId) ≠ 2 at halone
  have hone : (reservedDb db₀ r reservations).reservations.count
      (fun s ↦ s.matchId = matchId) ≤ 1 := by
    change reservations.count (fun s ↦ s.matchId = matchId) ≤ 1
    omega
  intro a ha b hb haid hbid
  exact count_le_one_iff.mp hone a ha b hb (by simpa [hid] using haid) (by simpa [hid] using hbid)

theorem ReservationOutcome.choices {T : ℤ}
    (houtcome : ReservationOutcome db₀ m matchId userId t result db') (h : Choices I T db₀)
    (hm : m ∈ db₀.matchInit) (hid : m.id = matchId)
    (hawaiting : m.status = .awaitingContinuation) (hopen : T < m.expiresAt)
    (hparticipant : m.isParticipant userId = true) : Choices I T db' := by
  have hcoherent : db₀.Coherent m := h.coherent m hm (Or.inr ⟨hawaiting, hopen⟩)
  have hstate : (db₀.matchState.find? (m.id, userId)).isSome = true := by
    rw [← h.states m hm userId, hparticipant]
  have hactive : ∀ n ∈ db₀.matchInit, n.id = matchId → n.status ≠ .active := by
    intro n hn hnid
    rw [Table.eq_of_key_eq hn hm (hnid.trans hid.symm), hawaiting]
    decide
  have hissued : I matchId := hid ▸ h.issued m hm
  refine h.of_touches houtcome.touches hissued hactive ?_
  have hchosen {r : Reservation} {reservations : Table Reservation.key}
      (hrow : r = ⟨matchId, userId, r.source, startOfUtcWeek t.now⟩)
      (hinsert : db₀.reservations.insert? r = some reservations) :
      ∀ u, m.isParticipant u = true →
        ((reservedDb db₀ r reservations).matchState.find? (m.id, u)).any MatchState.continued =
          ((reservedDb db₀ r reservations).reservations.find? (m.id, u)).isSome := by
    refine chosen_reservedDb hcoherent (by rw [hrow, hid]) ?_ hinsert
    rw [hrow]
    exact hstate
  intro m' hm' hm'id hundecided
  cases houtcome with
  | refused =>
      obtain rfl := Table.eq_of_key_eq hm' hm (hm'id.trans hid.symm)
      exact hcoherent
  | waiting r reservations sourceId hrow hinsert halone =>
      obtain ⟨hstates, hreservations, hmatch⟩ := notifyWaiting_frame
        (reservedDb db₀ r reservations) matchId userId m.user1Id m.user2Id t.notice sourceId
      rw [hmatch] at hm'
      obtain rfl : m' = m := Table.eq_of_key_eq hm' hm (hm'id.trans hid.symm)
      have hreserved : (reservedDb db₀ r reservations).Coherent m' :=
        ⟨hchosen hrow hinsert, single_of_length hcoherent hid (by rw [hrow]) hinsert halone⟩
      exact hreserved.of_eq hstates hreservations
  | released r reservations participant sourceId hrow hinsert hother hheld =>
      obtain ⟨hstates, hreservations, hmatch⟩ := notifyWaiting_frame
        (clearChoice (reservedDb db₀ r reservations) matchId participant t.notice) matchId userId
        m.user1Id m.user2Id t.notice sourceId
      rw [hmatch] at hm'
      obtain rfl : m' = m := Table.eq_of_key_eq hm' hm (hm'id.trans hid.symm)
      obtain ⟨s, hs, hskey⟩ := hheld
      have hown : ∀ a ∈ (clearChoice (reservedDb db₀ r reservations) matchId participant
          t.notice).reservations, a.matchId = m'.id → a = r := by
        intro a ha haid
        obtain ⟨ha, hkey⟩ := mem_reservations_clearChoice.mp ha
        rcases (mem_reservations_reservedDb hinsert).mp ha with rfl | ha
        · rfl
        · have hsid : s.matchId = m'.id := (congrArg Prod.fst hskey).trans hid.symm
          obtain rfl := hcoherent.single a ha s hs haid hsid
          exact absurd hskey hkey
      have hreleased : (clearChoice (reservedDb db₀ r reservations) matchId participant
          t.notice).Coherent m' := by
        refine ⟨chosen_clearChoice (hchosen hrow hinsert), fun a ha b hb haid hbid ↦ ?_⟩
        rw [hown a ha haid, hown b hb hbid]
      exact hreleased.of_eq hstates hreservations
  | confirmed r reservations charges db₃ hrow hinsert hconfirms =>
      rcases mem_confirmedDb_cases hconfirms hm hid (by rw [hawaiting]; decide) hm' with
        ⟨rfl, _⟩ | ⟨_, hne⟩
      · exact absurd hundecided (MatchRecord.not_undecided nofun nofun)
      · exact absurd hm'id hne

end Reservation

section Record

variable {I : Uuid → Prop} {db db₁ db' : Db} {m : MatchRecord} {matchId userId sourceId : Uuid}
  {legal : Option LegalConfig} {cost : ℤ} {t : RecordClock} {result : ContinuationResult}

/-- The answers that say something about the caller's reservation. -/
def ContinuationResult.aboutChoice : ContinuationResult → Bool
  | .pending | .confirmed | .alreadyRecorded | .quotaReached => true
  | _ => false

/-- One committed call, with what its answer rests on. -/
inductive RecordCases (db : Db) (matchId userId : Uuid) (t : RecordClock) :
    ContinuationResult → Db → Prop
  | unchanged (lockResult : MatchCommandResult MatchRecord) (db₁ : Db)
      (result : ContinuationResult)
      (hlock : lockAvailableMatch db matchId userId t.locked = (lockResult, db₁))
      (hresult : result.aboutChoice = false) : RecordCases db matchId userId t result db₁
  | late (m : MatchRecord) (db₁ : Db) (h : Deciding db matchId userId t m db₁) :
      RecordCases db matchId userId t .expired (expireWindow db₁ matchId t.now)
  | planChanged (m : MatchRecord) (db₁ : Db) (h : Deciding db matchId userId t m db₁)
      (hopen : t.now < m.expiresAt) :
      RecordCases db matchId userId t .planChanged (clearChoice db₁ matchId userId t.notice)
  | already (m : MatchRecord) (db₁ : Db) (h : Deciding db matchId userId t m db₁)
      (hheld : (db₁.reservations.find? (matchId, userId)).isSome = true) :
      RecordCases db matchId userId t .alreadyRecorded db₁
  | reserving (m : MatchRecord) (db₁ db₀ : Db) (result : ContinuationResult) (db' : Db)
      (h : Deciding db matchId userId t m db₁) (hopen : t.now < m.expiresAt)
      (hbase : db₀ = db₁ ∧ db₁.reservations.find? (matchId, userId) = none ∨
        db₀ = clearChoice db₁ matchId userId t.notice)
      (houtcome : ReservationOutcome db₀ m matchId userId t result db') :
      RecordCases db matchId userId t result db'

theorem record_cases (h : record db matchId userId legal cost t sourceId = .ok (result, db')) :
    RecordCases db matchId userId t result db' := by
  unfold record at h
  split at h
  · rename_i db₁ hlock
    obtain ⟨rfl, rfl⟩ := Prod.mk.inj (Except.ok.inj h)
    exact .unchanged _ _ _ hlock rfl
  · rename_i db₁ hlock
    obtain ⟨rfl, rfl⟩ := Prod.mk.inj (Except.ok.inj h)
    exact .unchanged _ _ _ hlock rfl
  · rename_i db₁ hlock
    obtain ⟨rfl, rfl⟩ := Prod.mk.inj (Except.ok.inj h)
    exact .unchanged _ _ _ hlock rfl
  · rename_i m db₁ hlock
    split at h
    · obtain ⟨rfl, rfl⟩ := Prod.mk.inj (Except.ok.inj h)
      exact .unchanged _ _ _ hlock rfl
    rename_i hconfirmed
    split at h
    · obtain ⟨rfl, rfl⟩ := Prod.mk.inj (Except.ok.inj h)
      exact .unchanged _ _ _ hlock rfl
    rename_i hactive
    split at h
    · obtain ⟨rfl, rfl⟩ := Prod.mk.inj (Except.ok.inj h)
      exact .unchanged _ _ _ hlock rfl
    split at h
    · cases h
    have hdeciding := deciding_of_lock hlock hconfirmed hactive
    split at h
    · obtain ⟨rfl, rfl⟩ := Prod.mk.inj (Except.ok.inj h)
      exact .late m db₁ hdeciding
    rename_i hlate
    have hopen : t.now < m.expiresAt := not_le.mp hlate
    unfold recordChoice at h
    dsimp only at h
    split at h
    · obtain ⟨rfl, rfl⟩ := Prod.mk.inj (Except.ok.inj h)
      exact .planChanged m db₁ hdeciding hopen
    split at h
    · obtain ⟨rfl, rfl⟩ := Prod.mk.inj (Except.ok.inj h)
      exact .unchanged _ _ _ hlock rfl
    split at h
    · rename_i hnone
      exact .reserving m db₁ db₁ result db' hdeciding hopen (Or.inl ⟨rfl, hnone⟩)
        (recordReservation_cases h)
    · rename_i r hsome
      split at h
      · exact .reserving m db₁ _ result db' hdeciding hopen (Or.inr rfl)
          (recordReservation_cases h)
      · obtain ⟨rfl, rfl⟩ := Prod.mk.inj (Except.ok.inj h)
        exact .already m db₁ hdeciding (by rw [hsome]; rfl)

/-- The match whose lock a deciding call holds. -/
theorem Deciding.row (h : Deciding db matchId userId t m db₁) :
    m ∈ db₁.matchInit ∧ m.id = matchId ∧ m.isParticipant userId = true := by
  obtain ⟨hm, hid, hparticipant, _⟩ := (LockOutcome.of_eq h.lock).mem_of_available
  exact ⟨hm, hid, hparticipant⟩

theorem Choices.clearChoice {T clock : ℤ} (h : Choices I T db) (hm : m ∈ db.matchInit)
    (hid : m.id = matchId) (hawaiting : m.status = .awaitingContinuation) :
    Choices I T (clearChoice db matchId userId clock) := by
  have hactive : ∀ n ∈ db.matchInit, n.id = matchId → n.status ≠ .active := by
    intro n hn hnid
    rw [Table.eq_of_key_eq hn hm (hnid.trans hid.symm), hawaiting]
    decide
  refine h.of_touches (.clearChoice ..) (hid ▸ h.issued m hm) hactive ?_
  intro m' hm' _ hundecided
  exact (h.coherent m' hm' hundecided).clearChoice

theorem RecordCases.choices (hcases : RecordCases db matchId userId t result db')
    (h : Choices I t.now db) : Choices I t.now db' := by
  cases hcases with
  | unchanged lockResult _ _ hlock _ => exact h.of_steady (LockOutcome.of_eq hlock).steady
  | late m db₁ hdeciding =>
      obtain ⟨hm, hid, _⟩ := hdeciding.row
      exact h.of_steady ((LockOutcome.of_eq hdeciding.lock).steady.trans
        (steady_expireWindow hm hid))
  | planChanged m db₁ hdeciding _ =>
      obtain ⟨hm, hid, _⟩ := hdeciding.row
      exact (h.of_steady (LockOutcome.of_eq hdeciding.lock).steady).clearChoice hm hid
        hdeciding.awaiting
  | already m _ hdeciding _ => exact h.of_steady (LockOutcome.of_eq hdeciding.lock).steady
  | reserving m db₁ db₀ _ _ hdeciding hopen hbase houtcome =>
      obtain ⟨hm, hid, hparticipant⟩ := hdeciding.row
      have hlocked : Choices I t.now db₁ := h.of_steady (LockOutcome.of_eq hdeciding.lock).steady
      rcases hbase with ⟨rfl, _⟩ | rfl
      · exact houtcome.choices hlocked hm hid hdeciding.awaiting hopen hparticipant
      · exact houtcome.choices (hlocked.clearChoice hm hid hdeciding.awaiting) hm hid
          hdeciding.awaiting hopen hparticipant

theorem LockOutcome.reservations_of_available {now : ℤ}
    (h : LockOutcome db matchId userId now (.available m) db₁) :
    db₁.reservations = db.reservations := by
  cases h with
  | opened n h hstatus hdue hopen => rfl
  | live m h hstatus hopen => rfl

/-- A match with a reservation was open before the call. -/
theorem Deciding.eq_of_held (hdeciding : Deciding db matchId userId t m db₁)
    (h : Choices I t.now db) (hheld : (db₁.reservations.find? (matchId, userId)).isSome = true) :
    db₁ = db := by
  have hlock := LockOutcome.of_eq hdeciding.lock
  rw [hlock.reservations_of_available] at hheld
  obtain ⟨r, hr⟩ := Option.isSome_iff_exists.mp hheld
  obtain ⟨hmem, hkey⟩ := Table.find?_eq_some_iff.mp hr
  cases hlock with
  | opened n hfound hstatus hdue hopen =>
      obtain ⟨hn, hid, _, _⟩ := accessibleMatch_eq_some hfound
      exact absurd ((congrArg Prod.fst hkey).trans hid.symm) (h.fresh n hn hstatus r hmem)
  | live m hfound hstatus hopen => rfl

theorem ReservationOutcome.held {db₀ : Db}
    (h : ReservationOutcome db₀ m matchId userId t .pending db') :
    (db'.reservations.find? (matchId, userId)).isSome = true := by
  have hown {r : Reservation} {reservations : Table Reservation.key}
      (hrow : r = ⟨matchId, userId, r.source, startOfUtcWeek t.now⟩)
      (hinsert : db₀.reservations.insert? r = some reservations) :
      (reservedDb db₀ r reservations).reservations.find? (matchId, userId) = some r := by
    refine Table.find?_eq_some_iff.mpr ⟨(mem_reservations_reservedDb hinsert).mpr (Or.inl rfl), ?_⟩
    rw [hrow]
    rfl
  cases h with
  | waiting r reservations sourceId hrow hinsert halone =>
      rw [(notifyWaiting_frame ..).2.1, hown hrow hinsert]
      rfl
  | released r reservations participant sourceId hrow hinsert hother hheld =>
      have hne : (matchId, userId) ≠ (matchId, participant) := fun h ↦
        hother (congrArg Prod.snd h).symm
      rw [(notifyWaiting_frame ..).2.1, find?_reservations_clearChoice, if_neg hne,
        hown hrow hinsert]
      rfl

/-- What the answers say about the reservations. -/
structure Truthful (db : Db) (matchId userId : Uuid) (result : ContinuationResult) (db' : Db) :
    Prop where
  pending : result = .pending → (db'.reservations.find? (matchId, userId)).isSome = true ∧
    ∀ key, (db.reservations.find? key).isSome = true →
      (db'.reservations.find? key).isSome = true ∨ key.1 = matchId ∧ key.2 ≠ userId
  confirmed : result = .confirmed → db'.reservationsOf matchId = []
  alreadyRecorded : result = .alreadyRecorded → db' = db
  quotaReached : result = .quotaReached → db'.reservations.find? (matchId, userId) = none

theorem RecordCases.truthful (hcases : RecordCases db matchId userId t result db')
    (h : Choices I t.now db) : Truthful db matchId userId result db' := by
  cases hcases with
  | unchanged lockResult _ _ hlock hresult =>
      refine ⟨?_, ?_, ?_, ?_⟩ <;>
      · rintro rfl
        cases hresult
  | late m db₁ hdeciding => exact ⟨nofun, nofun, nofun, nofun⟩
  | planChanged m db₁ hdeciding _ => exact ⟨nofun, nofun, nofun, nofun⟩
  | already m _ hdeciding hheld =>
      exact ⟨nofun, nofun, fun _ ↦ hdeciding.eq_of_held h hheld, nofun⟩
  | reserving m db₁ db₀ _ _ hdeciding hopen hbase houtcome =>
      have hlocked : db₁.reservations = db.reservations :=
        (LockOutcome.of_eq hdeciding.lock).reservations_of_available
      have htouches : Touches t.now matchId db₁ db' := by
        rcases hbase with ⟨rfl, _⟩ | rfl
        · exact houtcome.touches
        · exact (Touches.clearChoice ..).trans houtcome.touches
      refine ⟨?_, ?_, ?_, ?_⟩
      · rintro rfl
        refine ⟨houtcome.held, fun key hkey ↦ ?_⟩
        by_cases hmatch : key.1 = matchId
        · by_cases huser : key.2 = userId
          · left
            rw [show key = (matchId, userId) from Prod.ext hmatch huser]
            exact houtcome.held
          · exact Or.inr ⟨hmatch, huser⟩
        · left
          rw [htouches.reservations key hmatch, hlocked]
          exact hkey
      · rintro rfl
        cases houtcome with
        | confirmed r reservations charges db₃ hrow hinsert hconfirms =>
            refine List.eq_nil_iff_forall_not_mem.mpr fun s hs ↦ ?_
            obtain ⟨hmem, hid⟩ := mem_reservationsOf'.mp hs
            exact (mem_confirmedDb_reservations.mp hmem).2 hid
      · rintro rfl
        cases houtcome
      · rintro rfl
        cases houtcome with
        | refused =>
            rcases hbase with ⟨rfl, hnone⟩ | rfl
            · exact hnone
            · rw [find?_reservations_clearChoice, if_pos rfl]

end Record

end Histae.Matches
