import Histae.Matches.CreditCaps

/-!
# Debits

A match is confirmed at most once, and its confirmation is the only step that
spends credits: each participant on a limited plan pays once, with the credit
that the participant's own reservation names. Over a run the counters add up
to the number of confirmations.
-/

namespace Histae.Matches

open Relational Systems

section Rows

variable {T : ℤ} {sent : Option (Uuid × ℤ)} {m m' : MatchRecord}

def Decided (m : MatchRecord) : Prop := m.status = .confirmed ∨ m.status = .ended

theorem Transition.decided (h : Transition T sent m m') (hdecided : Decided m) : Decided m' := by
  cases h with
  | opened hstatus hdue => rcases hdecided with h | h <;> rw [hstatus] at h <;> cases h
  | expired purgeAfter hstatus hdue => rcases hdecided with h | h <;> rw [hstatus] at h <;> cases h
  | closed now hstatus hdue => exact Or.inr rfl
  | ended checked stamped hstatus => exact Or.inr rfl
  | revealed hstatus => exact hdecided
  | messaged at_ hsent hstatus => exact hdecided

theorem Path.decided (h : Path T sent m m') (hdecided : Decided m) : Decided m' := by
  induction h with
  | refl => exact hdecided
  | tail _ hstep ih => exact hstep.decided ih

/-- No transition confirms a match. -/
theorem Transition.status_confirmed (h : Transition T sent m m')
    (hconfirmed : m'.status = .confirmed) : m.status = .confirmed := by
  cases h with
  | opened hstatus hdue => cases hconfirmed
  | expired purgeAfter hstatus hdue => cases hconfirmed
  | closed now hstatus hdue => cases hconfirmed
  | ended checked stamped hstatus => cases hconfirmed
  | revealed hstatus => exact hconfirmed
  | messaged at_ hsent hstatus => exact hconfirmed

theorem Path.status_confirmed (h : Path T sent m m') (hconfirmed : m'.status = .confirmed) :
    m.status = .confirmed := by
  induction h with
  | refl => exact hconfirmed
  | tail _ hstep ih => exact ih (hstep.status_confirmed hconfirmed)

end Rows

def Event.confirms (matchId : Uuid) : Event → Bool
  | .confirmed id _ _ => id = matchId
  | _ => false

def Event.isConfirmation : Event → Bool
  | .confirmed .. => true
  | _ => false

/-- The step confirms the match. -/
def Action.confirms (w : World) (a : Action) (matchId : Uuid) : Bool :=
  (a.apply w.db).2.any (Event.confirms matchId)

/-- The tables of a continuation call right before it validates the charges. -/
def InTransaction (w : World) (matchId userId : Uuid) (cost : ℤ) (t : RecordClock) (held : Db) :
    Prop :=
  ∃ m db₁ r, Deciding w.db matchId userId t m db₁ ∧ Reserves db₁ matchId userId cost t r held

/-- What a confirmation does to the credits of one participant, who holds the
reservation `r`: a user on a limited plan pays it, a Premium user does not. -/
structure Settles (db : Db) (u : Uuid) (r : Reservation) (now : ℤ) (db' : Db) : Prop where
  limited : (db.effectivePlanOn u).weeklyCredits.isSome →
    (r.source = .free ∨ r.source = .advertising) ∧ Charged db u r.source r.weekStart now db'
  premium : (db.effectivePlanOn u).weeklyCredits = none → Untouched db u db'
  current : r.source = .advertising → r.weekStart = startOfUtcWeek now

/-- The step in which `a` confirms `matchId`. -/
structure ConfirmedStep (w : World) (a : Action) (matchId : Uuid) (m : MatchRecord)
    (t : RecordClock) (held : Db) (r₁ r₂ : Reservation) : Prop where
  before : m ∈ w.db.matchInit ∧ m.id = matchId ∧ ¬ Decided m
  after : ∃ m' ∈ (w.next a).db.matchInit, m'.id = matchId ∧ m'.status = .confirmed
  call : ∃ userId legal cost sourceId,
    a = .recordContinuation matchId userId legal cost t sourceId ∧
      InTransaction w matchId userId cost t held
  first : r₁ ∈ held.reservations ∧ r₁.key = (matchId, m.user1Id)
  second : r₂ ∈ held.reservations ∧ r₂.key = (matchId, m.user2Id)
  settlesFirst : Settles w.db m.user1Id r₁ t.now (w.next a).db
  settlesSecond : Settles w.db m.user2Id r₂ t.now (w.next a).db
  released : ∀ r ∈ (w.next a).db.reservations, r.matchId ≠ matchId
  others : ∀ u, u ≠ m.user1Id → u ≠ m.user2Id → Untouched w.db u (w.next a).db

section Steps

variable {w : World} {a : Action} {matchId : Uuid}

/-- A confirmation is a continuation call that ran to its end. -/
theorem exists_of_confirms (hissued : w.Issued) (henabled : a.Enabled w)
    (h : a.confirms w matchId = true) :
    ∃ userId legal cost t sourceId m db₁ r db₂ charges db₃,
      a = .recordContinuation matchId userId legal cost t sourceId ∧
      Deciding w.db matchId userId t m db₁ ∧ t.now < m.expiresAt ∧
      Reserves db₁ matchId userId cost t r db₂ ∧ Confirms db₂ matchId t charges db₃ ∧
      (w.next a).db = confirmedDb db₃ m matchId t := by
  unfold Action.confirms at h
  cases stepEffect hissued henabled with
  | quiet _ hshrinks hlog =>
      rw [events_eq [] hlog] at h
      cases h
  | stored q t m db₁ messages hlock hstatus hinsert hdb hlog =>
      rw [events_eq [_] hlog] at h
      cases h
  | created id first second now clock hinserts hlog =>
      rw [events_eq [_] hlog] at h
      cases h
  | reserved id userId legal cost t sourceId m db₁ r db₂ hdeciding hopen hreserves hafter hlog =>
      rw [events_eq [] hlog] at h
      cases h
  | confirmed id userId legal cost t sourceId m db₁ r db₂ charges db₃ hdeciding hopen hreserves
      hconfirms hdb hlog =>
      rw [events_eq [_] hlog] at h
      obtain rfl : id = matchId := by simpa [Event.confirms] using h
      exact ⟨userId, legal, cost, t, sourceId, m, db₁, r, db₂, charges, db₃, rfl, hdeciding, hopen,
        hreserves, hconfirms, hdb⟩
  | granted userId now hdb hlog =>
      rw [events_eq [] hlog] at h
      cases h

/-- A step that confirms nothing spends nothing; only a grant moves a wallet. -/
theorem untouched_of_not_confirms (hissued : w.Issued) (henabled : a.Enabled w)
    (h : ∀ matchId, a.confirms w matchId = false) (u : Uuid) :
    (∀ week, (w.next a).db.usedCount u week = w.db.usedCount u week) ∧
      (∀ week, (w.next a).db.freeUsedCount u week = w.db.freeUsedCount u week) ∧
      ((∀ now, a ≠ .grantAdvertisingCredit u now) →
        (w.next a).db.wallets.find? u = w.db.wallets.find? u) := by
  have hdone (huntouched : Untouched w.db u (w.next a).db) :
      (∀ week, (w.next a).db.usedCount u week = w.db.usedCount u week) ∧
        (∀ week, (w.next a).db.freeUsedCount u week = w.db.freeUsedCount u week) ∧
        ((∀ now, a ≠ .grantAdvertisingCredit u now) →
          (w.next a).db.wallets.find? u = w.db.wallets.find? u) :=
    ⟨huntouched.used, huntouched.free, fun _ ↦ huntouched.wallet⟩
  cases stepEffect hissued henabled with
  | quiet _ hshrinks hlog => exact hdone (.of_eq hshrinks.usage hshrinks.wallets)
  | stored q t m db₁ messages hlock hstatus hinsert hdb hlog =>
      have hshrinks := (MessageOutcome.stored m db₁ messages hlock hstatus hinsert).shrinks
      rw [← hdb] at hshrinks
      exact hdone (.of_eq hshrinks.usage hshrinks.wallets)
  | created id first second now clock hinserts hlog =>
      exact hdone (.of_eq hinserts.usage hinserts.wallets)
  | reserved id userId legal cost t sourceId m db₁ r db₂ hdeciding hopen hreserves hafter hlog =>
      have hlock : Shrinks t.locked none w.db db₁ := (LockOutcome.of_eq hdeciding.lock).shrinks
      exact hdone (.of_eq ((hafter.usage.trans hreserves.usage).trans hlock.usage)
        ((hafter.wallets.trans hreserves.wallets).trans hlock.wallets))
  | confirmed id userId legal cost t sourceId m db₁ r db₂ charges db₃ hdeciding hopen hreserves
      hconfirms hdb hlog =>
      have hconfirm := h id
      rw [Action.confirms, events_eq [_] hlog] at hconfirm
      simp [Event.confirms] at hconfirm
  | granted userId now hdb hlog =>
      rw [hdb]
      rcases grantAdvertisingCredit_cases w.db userId now with hsame |
        ⟨wallets, wallet, hsame, hother, _⟩
      · rw [hsame]
        exact ⟨fun _ ↦ rfl, fun _ ↦ rfl, fun _ ↦ rfl⟩
      · rw [hsame]
        refine ⟨fun _ ↦ rfl, fun _ ↦ rfl, fun hne ↦ hother u ?_⟩
        rintro rfl
        exact hne now rfl

theorem pair_of_length_two {rs : List Reservation} {first second : Uuid} (hlength : rs.length = 2)
    (hnodup : (rs.map Reservation.userId).Nodup)
    (husers : ∀ r ∈ rs, r.userId = first ∨ r.userId = second) :
    (∃ r ∈ rs, r.userId = first) ∧ ∃ r ∈ rs, r.userId = second := by
  match rs, hlength with
  | [x, y], _ =>
      have hne : x.userId ≠ y.userId := by simpa using hnodup
      rcases husers x (by simp) with hx | hx <;> rcases husers y (by simp) with hy | hy
      · exact absurd (hx.trans hy.symm) hne
      · exact ⟨⟨x, by simp, hx⟩, ⟨y, by simp, hy⟩⟩
      · exact ⟨⟨y, by simp, hy⟩, ⟨x, by simp, hx⟩⟩
      · exact absurd (hx.trans hy.symm) hne

theorem LockOutcome.plans {db db' : Db} {userId : Uuid} {now : ℤ}
    {result : MatchCommandResult MatchRecord}
    (h : LockOutcome db matchId userId now result db') : db'.plans = db.plans := by
  cases h <;> rfl

/-- The tables of the call before and after its debits agree with those of
the step, up to the credits of the charged users. -/
theorem Confirms.settles {db₂ db₃ : Db} {t : RecordClock} {charges : List Charge}
    {r : Reservation} (h : Confirms db₂ matchId t charges db₃) (hr : r ∈ db₂.reservationsOf matchId) :
    Settles db₂ r.userId r t.now db₃ := by
  have hcharges := validateCharges_eq_ok h.valid
  have hnodup : (charges.map Charge.participant).Nodup := by
    rw [participants_of_validateCharges hcharges]
    exact nodup_reservationsOf db₂ matchId
  obtain ⟨c, hc, hcharge⟩ := exists_charge_of_reservation hcharges hr
  have hcharged := debitAll_charged h.paid hnodup hc
  rw [hcharge.participant, hcharge.week] at hcharged
  rcases hcharge.source with ⟨hplan, hsource⟩ | ⟨hplan, hsource, hne⟩
  · refine ⟨fun hsome ↦ ?_, fun _ ↦ ⟨fun week ↦ ?_, fun week ↦ ?_, ?_⟩, hcharge.current⟩
    · rw [hplan] at hsome
      cases hsome
    · simpa [hsource] using hcharged.used week
    · simpa [hsource] using hcharged.free week
    · exact hcharged.wallet (by simp [hsource])
  · refine ⟨fun _ ↦ ⟨?_, hsource ▸ hcharged⟩, fun hnone ↦ ?_, hcharge.current⟩
    · cases hr : r.source with
      | free => exact Or.inl rfl
      | advertising => exact Or.inr rfl
      | premium => exact absurd hr hne
    · rw [hnone] at hplan
      cases hplan

theorem Settles.frame {db db₂ db₃ db' : Db} {u : Uuid} {r : Reservation} {now : ℤ}
    (h : Settles db₂ u r now db₃) (hplans : db₂.plans = db.plans) (hbefore : Untouched db u db₂)
    (hafter : Untouched db₃ u db') : Settles db u r now db' where
  limited hsome := by
    obtain ⟨hsource, hcharged⟩ := h.limited (by rwa [Db.effectivePlanOn, hplans])
    exact ⟨hsource, (hbefore.trans_charged hcharged).trans_untouched hafter⟩
  premium hnone := by
    have huntouched := h.premium (by rwa [Db.effectivePlanOn, hplans])
    exact (hbefore.trans huntouched).trans hafter
  current := h.current

theorem CreditInvariant.confirmedStep (h : CreditInvariant w) (henabled : a.Enabled w)
    (hconfirms : a.confirms w matchId = true) :
    ∃ m t held r₁ r₂, ConfirmedStep w a matchId m t held r₁ r₂ := by
  obtain ⟨userId, legal, cost, t, sourceId, record, db₁, r, db₂, charges, db₃, rfl, hdeciding,
    hopen, hreserves, hpaid, hdb⟩ := exists_of_confirms h.issued henabled hconfirms
  have hnow : w.clock ≤ t.now ∧ t.now ≤ t.trigger := henabled.start (t.now, t.trigger) rfl
  obtain ⟨hrooted, _, hrecord, hid⟩ :=
    hreserves.creditInvariant h.rooted h.balanced hnow.1 hdeciding
  have hlock := LockOutcome.of_eq hdeciding.lock
  have hshrinks : Shrinks t.locked none w.db db₁ := hlock.shrinks
  obtain ⟨m, hm, hpath⟩ := hshrinks.evolves record (hreserves.matchInit ▸ hrecord)
  have hsame := hpath.sameIdentity
  have hundecided : ¬ Decided m := by
    intro hdecided
    rcases hpath.decided hdecided with hstatus | hstatus <;> rw [hdeciding.awaiting] at hstatus <;>
      cases hstatus
  have husers : ∀ s ∈ db₂.reservationsOf matchId, s.userId = m.user1Id ∨ s.userId = m.user2Id := by
    intro s hs
    obtain ⟨hmem, hmatch⟩ := mem_reservationsOf.mp hs
    obtain ⟨n, hn, hnid, _, hparticipant⟩ := hrooted s hmem
    obtain rfl : n = record := Table.eq_of_key_eq hn hrecord ((hnid.trans hmatch).trans hid.symm)
    rw [← hsame.user1Id, ← hsame.user2Id]
    have huser : n.user1Id = s.userId ∨ n.user2Id = s.userId := by
      simpa [MatchRecord.isParticipant] using hparticipant
    exact huser.imp Eq.symm Eq.symm
  obtain ⟨⟨r₁, hr₁, hfirst⟩, r₂, hr₂, hsecond⟩ :=
    pair_of_length_two hpaid.both (nodup_reservationsOf db₂ matchId) husers
  have hplans : db₂.plans = w.db.plans := hreserves.plans.trans hlock.plans
  have hbefore (u : Uuid) : Untouched w.db u db₂ :=
    .of_eq (hreserves.usage.trans hshrinks.usage) (hreserves.wallets.trans hshrinks.wallets)
  have hledger := sameLedger_confirmedDb db₃ record matchId t
  have hafter (u : Uuid) : Untouched db₃ u (confirmedDb db₃ record matchId t) :=
    .of_eq hledger.usage hledger.wallets
  obtain ⟨usage, wallets, hdb₃⟩ := debitAll_frame hpaid.paid
  refine ⟨m, t, db₂, r₁, r₂, ⟨⟨hm, hsame.id.symm.trans hid, hundecided⟩, ?_,
    ⟨userId, legal, cost, sourceId, rfl, record, db₁, r, hdeciding, hreserves⟩,
    ⟨(mem_reservationsOf.mp hr₁).1, ?_⟩, ⟨(mem_reservationsOf.mp hr₂).1, ?_⟩, ?_, ?_, ?_, ?_⟩⟩
  · obtain ⟨n, hfind, hguard⟩ := hpaid.inTime
    obtain ⟨hn, hnid⟩ := Table.find?_eq_some_iff.mp hfind
    have hrow : n = record := by
      rw [hdb₃] at hn
      exact Table.eq_of_key_eq hn hrecord (hnid.trans hid.symm)
    subst hrow
    have hstatus : n.status ≠ .confirmed := by simp [hdeciding.awaiting]
    refine ⟨n.confirmedAt t.trigger, ?_, hid, rfl⟩
    rw [hdb, hledger.matchInit]
    exact confirmedAt_mem_confirmMatch hn hnid hguard hstatus
  · rw [Reservation.key, (mem_reservationsOf.mp hr₁).2, hfirst]
  · rw [Reservation.key, (mem_reservationsOf.mp hr₂).2, hsecond]
  · rw [hdb, ← hfirst]
    exact (hpaid.settles hr₁).frame hplans (hbefore _) (hafter _)
  · rw [hdb, ← hsecond]
    exact (hpaid.settles hr₂).frame hplans (hbefore _) (hafter _)
  · intro s hs
    rw [hdb] at hs
    exact (mem_confirmedDb_reservations.mp hs).2
  · intro u hu₁ hu₂
    rw [hdb]
    have hother : Untouched db₂ u db₃ := by
      apply debitAll_untouched hpaid.paid
      rw [participants_of_validateCharges (validateCharges_eq_ok hpaid.valid)]
      intro hmem
      obtain ⟨s, hs, rfl⟩ := List.mem_map.mp hmem
      exact (husers s hs).elim hu₁ hu₂
    exact ((hbefore u).trans hother).trans (hafter u)

/-- A match becomes confirmed only in a step that confirms it. -/
theorem confirms_of_entered (hissued : w.Issued) (henabled : a.Enabled w) {m' : MatchRecord}
    (hm' : m' ∈ (w.next a).db.matchInit) (hstatus : m'.status = .confirmed) :
    (∃ m ∈ w.db.matchInit, m.id = m'.id ∧ m.status = .confirmed) ∨
      a.confirms w m'.id = true := by
  cases rowEffect hissued henabled hm' with
  | evolved m hm hpath hother =>
      exact Or.inl ⟨m, hm, hpath.sameIdentity.id.symm, hpath.status_confirmed hstatus⟩
  | messaged q t m n ha hm hpath hid hactive hopen hrow hlog =>
      subst hrow
      exact Or.inl ⟨m, hm, hpath.sameIdentity.id.symm, hpath.status_confirmed hstatus⟩
  | created id first second now clock ha hrow hlog =>
      rw [hrow] at hstatus
      cases hstatus
  | confirmed id userId legal cost t sourceId m n ha hm hpath hid hawaiting hopen hrow hlog =>
      right
      rw [Action.confirms, events_eq [_] hlog]
      simp [Event.confirms, hrow, MatchRecord.confirmedAt, hid]

end Steps

section Once

variable {w : World} {a : Action} {matchId : Uuid}

/-- A confirmed match was issued, is confirmed or ended while it is stored,
and its confirmation is recorded once. -/
structure ConfirmedOnce (w : World) (matchId : Uuid) : Prop where
  once : w.log.countP (Event.confirms matchId) ≤ 1
  decided : 0 < w.log.countP (Event.confirms matchId) →
    matchId ∈ w.createdIds ∧ ∀ m ∈ w.db.matchInit, m.id = matchId → Decided m

theorem decided_of_confirms (hinv : CreditInvariant w) (henabled : a.Enabled w)
    (hconfirms : a.confirms w matchId = true) {m' : MatchRecord}
    (hm' : m' ∈ (w.next a).db.matchInit) (hid : m'.id = matchId) : Decided m' := by
  obtain ⟨m, t, held, r₁, r₂, hstep⟩ := hinv.confirmedStep henabled hconfirms
  obtain ⟨n, hn, hnid, hstatus⟩ := hstep.after
  rw [Table.eq_of_key_eq hm' hn (hid.trans hnid.symm)]
  exact Or.inl hstatus

theorem countP_confirms (w : World) (a : Action) (matchId : Uuid) :
    (w.next a).log.countP (Event.confirms matchId) =
      (a.apply w.db).2.countP (Event.confirms matchId) +
        w.log.countP (Event.confirms matchId) := List.countP_append

theorem countP_events_le_one (a : Action) (db : Db) (p : Event → Bool) :
    (a.apply db).2.countP p ≤ 1 := by
  have hlength : (a.apply db).2.length ≤ 1 := by
    cases a with
    | createFromMutualLike id first second now clock =>
        simp only [Action.apply]
        split
        · dsimp only
          split <;> simp
        · simp
    | recordContinuation matchId userId legal cost t sourceId =>
        simp only [Action.apply]
        split <;> simp
    | recordReveal matchId userId consent locked clock =>
        simp only [Action.apply]
        split <;> simp
    | createMessage q t =>
        simp only [Action.apply]
        split
        · dsimp only
          split <;> simp
        · simp
        · simp
    | _ => simp [Action.apply]
  exact List.countP_le_length.trans hlength

theorem ConfirmedOnce.next (h : ConfirmedOnce w matchId) (hinv : CreditInvariant w)
    (henabled : a.Enabled w) : ConfirmedOnce (w.next a) matchId := by
  have hcount := countP_confirms w a matchId
  by_cases hconfirms : a.confirms w matchId = true
  · obtain ⟨m, t, held, r₁, r₂, hstep⟩ := hinv.confirmedStep henabled hconfirms
    obtain ⟨hm, hid, hundecided⟩ := hstep.before
    have hnone : w.log.countP (Event.confirms matchId) = 0 := by
      by_contra hne
      exact hundecided ((h.decided (Nat.pos_of_ne_zero hne)).2 m hm hid)
    have hevents := countP_events_le_one a w.db (Event.confirms matchId)
    refine ⟨by omega, fun _ ↦ ⟨?_, fun m' hm' hid' ↦ ?_⟩⟩
    · exact createdIds_mono w a (hid ▸ hinv.issued m hm)
    · exact decided_of_confirms hinv henabled hconfirms hm' hid'
  · have hevents : (a.apply w.db).2.countP (Event.confirms matchId) = 0 := by
      rw [List.countP_eq_zero]
      intro event hevent hmatch
      exact hconfirms (List.any_eq_true.mpr ⟨event, hevent, hmatch⟩)
    rw [hevents, Nat.zero_add] at hcount
    refine ⟨hcount ▸ h.once, fun hpos ↦ ?_⟩
    obtain ⟨hcreated, hdecided⟩ := h.decided (hcount ▸ hpos)
    refine ⟨createdIds_mono w a hcreated, fun m' hm' hid' ↦ ?_⟩
    cases rowEffect hinv.issued henabled hm' with
    | evolved m hm hpath hother =>
        exact hpath.decided (hdecided m hm (hpath.sameIdentity.id.symm.trans hid'))
    | messaged q t m n ha hm hpath hid hactive hopen hrow hlog =>
        subst hrow
        exact hpath.decided (hdecided m hm (hpath.sameIdentity.id.symm.trans hid'))
    | created id first second now clock ha hrow hlog =>
        have hfresh := henabled.fresh id first second now clock ha
        rw [hrow] at hid'
        exact absurd (show id ∈ w.createdIds from (show id = matchId from hid') ▸ hcreated) hfresh
    | confirmed id userId legal cost t sourceId m n ha hm hpath hid hawaiting hopen hrow hlog =>
        exact Or.inl (hrow ▸ rfl)

theorem confirmedOnce_of_valid {w₀ : World} {as : List Action} (h₀ : Initial w₀)
    (hvalid : service.Valid w₀ as) :
    ConfirmedOnce (service.exec w₀ as) matchId ∧ CreditInvariant (service.exec w₀ as) := by
  have hinit : ConfirmedOnce w₀ matchId := by
    constructor
    · rw [h₀.log]
      exact Nat.zero_le _
    · rw [h₀.log]
      exact fun hpos ↦ absurd hpos (by simp)
  have hstep (w : World) (a : Action) (h : ConfirmedOnce w matchId ∧ CreditInvariant w)
      (henabled : a.Enabled w) : ConfirmedOnce (w.next a) matchId ∧ CreditInvariant (w.next a) :=
    ⟨h.1.next h.2 henabled, h.2.next henabled⟩
  exact hvalid.invariant (I := fun w ↦ ConfirmedOnce w matchId ∧ CreditInvariant w)
    ⟨hinit, h₀.creditInvariant⟩ hstep

end Once

section Totals

variable {db db' : Db} {u : Uuid} {k : ℤ} {n : ℕ}

/-- The weeks for which the usage table has a row of the user. -/
def Db.weeks (db : Db) (u : Uuid) : Finset ℤ :=
  ((db.usage.select fun x ↦ x.userId = u).map Usage.weekStart).toFinset

def Db.totalUsed (db : Db) (u : Uuid) : ℕ := ∑ week ∈ db.weeks u, db.usedCount u week

def Db.totalFreeUsed (db : Db) (u : Uuid) : ℕ := ∑ week ∈ db.weeks u, db.freeUsedCount u week

def Db.credits (db : Db) (u : Uuid) : ℕ :=
  ((db.wallets.find? u).map Wallet.advertisingCredits).getD 0

theorem find?_usage_of_notMem_weeks {week : ℤ} (h : week ∉ db.weeks u) :
    db.usage.find? (u, week) = none := by
  rw [Table.find?_eq_none_iff]
  intro x hx hkey
  obtain ⟨huser, hweek⟩ := Prod.mk.inj hkey
  apply h
  rw [Db.weeks, List.mem_toFinset, List.mem_map]
  exact ⟨x, Table.mem_select.mpr ⟨hx, by simpa using huser⟩, hweek⟩

theorem totalUsed_eq_sum {S : Finset ℤ} (h : db.weeks u ⊆ S) :
    db.totalUsed u = ∑ week ∈ S, db.usedCount u week := by
  apply Finset.sum_subset h
  intro week _ hweek
  rw [Db.usedCount, find?_usage_of_notMem_weeks hweek]
  rfl

theorem totalFreeUsed_eq_sum {S : Finset ℤ} (h : db.weeks u ⊆ S) :
    db.totalFreeUsed u = ∑ week ∈ S, db.freeUsedCount u week := by
  apply Finset.sum_subset h
  intro week _ hweek
  rw [Db.freeUsedCount, find?_usage_of_notMem_weeks hweek]
  rfl

theorem totalUsed_add
    (h : ∀ week, db'.usedCount u week = db.usedCount u week + if week = k then n else 0) :
    db'.totalUsed u = db.totalUsed u + n := by
  have hleft : db.weeks u ⊆ insert k (db.weeks u ∪ db'.weeks u) :=
    Finset.subset_union_left.trans (Finset.subset_insert _ _)
  have hright : db'.weeks u ⊆ insert k (db.weeks u ∪ db'.weeks u) :=
    Finset.subset_union_right.trans (Finset.subset_insert _ _)
  rw [totalUsed_eq_sum hleft, totalUsed_eq_sum hright, Finset.sum_congr rfl fun week _ ↦ h week,
    Finset.sum_add_distrib, Finset.sum_ite_eq' _ k, if_pos (Finset.mem_insert_self _ _)]

theorem totalFreeUsed_add
    (h : ∀ week, db'.freeUsedCount u week = db.freeUsedCount u week + if week = k then n else 0) :
    db'.totalFreeUsed u = db.totalFreeUsed u + n := by
  have hleft : db.weeks u ⊆ insert k (db.weeks u ∪ db'.weeks u) :=
    Finset.subset_union_left.trans (Finset.subset_insert _ _)
  have hright : db'.weeks u ⊆ insert k (db.weeks u ∪ db'.weeks u) :=
    Finset.subset_union_right.trans (Finset.subset_insert _ _)
  rw [totalFreeUsed_eq_sum hleft, totalFreeUsed_eq_sum hright,
    Finset.sum_congr rfl fun week _ ↦ h week,
    Finset.sum_add_distrib, Finset.sum_ite_eq' _ k, if_pos (Finset.mem_insert_self _ _)]

theorem Untouched.totals (h : Untouched db u db') :
    db'.totalUsed u = db.totalUsed u ∧ db'.totalFreeUsed u = db.totalFreeUsed u := by
  constructor
  · exact totalUsed_add (k := 0) (n := 0) fun week ↦ by simp [h.used]
  · exact totalFreeUsed_add (k := 0) (n := 0) fun week ↦ by simp [h.free]

theorem Charged.totals {source : Source} {week now : ℤ} (h : Charged db u source week now db')
    (hsource : source = .free ∨ source = .advertising) :
    db'.totalUsed u = db.totalUsed u + 1 ∧
      db'.totalFreeUsed u + (db.credits u - db'.credits u) = db.totalFreeUsed u + 1 := by
  have hne : source ≠ .premium := by rcases hsource with rfl | rfl <;> simp
  have hused : db'.totalUsed u = db.totalUsed u + 1 :=
    totalUsed_add (k := startOfUtcWeek now) fun w ↦ by simpa [hne] using h.used w
  refine ⟨hused, ?_⟩
  rcases hsource with rfl | rfl
  · have hfree : db'.totalFreeUsed u = db.totalFreeUsed u + 1 :=
      totalFreeUsed_add (k := week) fun w ↦ by simpa using h.free w
    have hcredits : db'.credits u = db.credits u := by
      rw [Db.credits, h.wallet (by simp), Db.credits]
    omega
  · have hfree : db'.totalFreeUsed u = db.totalFreeUsed u :=
      totalFreeUsed_add (k := week) (n := 0) fun w ↦ by simpa using h.free w
    obtain ⟨wallet, hfind, _, hpos, hspent⟩ := h.stock rfl
    have hbefore : db.credits u = wallet.advertisingCredits := by simp [Db.credits, hfind]
    have hafter : db'.credits u = wallet.advertisingCredits - 1 := by
      simp [Db.credits, hspent, Wallet.spend]
    omega

end Totals

section Conservation

variable {w : World} {a : Action}

/-- The event confirms a match of the user while the user's plan is limited. -/
def Event.charges (db : Db) (u : Uuid) : Event → Bool
  | .confirmed id _ _ =>
      (db.matchInit.find? id).any (fun m ↦ m.isParticipant u) &&
        (db.effectivePlanOn u).weeklyCredits.isSome
  | _ => false

/-- The matches that a step confirms for a user on a limited plan. -/
def limitedConfirmations (u : Uuid) (w : World) (a : Action) : ℕ :=
  (a.apply w.db).2.countP (Event.charges w.db u)

/-- The advertising credits that a confirmation takes from a user's wallet. -/
def debitedCredits (u : Uuid) (w : World) (a : Action) : ℕ :=
  if (a.apply w.db).2.any Event.isConfirmation then
    w.db.credits u - (w.next a).db.credits u
  else 0

theorem events_of_confirms {matchId : Uuid} (h : a.confirms w matchId = true) :
    ∃ guard trigger, (a.apply w.db).2 = [.confirmed matchId guard trigger] := by
  obtain ⟨event, hevent, hconfirms⟩ := List.any_eq_true.mp h
  have hlength := countP_events_le_one a w.db fun _ ↦ true
  rw [List.countP_true] at hlength
  obtain ⟨other, hsingle⟩ := List.length_eq_one_iff.mp
    (le_antisymm hlength (List.length_pos_of_mem hevent))
  rw [hsingle, List.mem_singleton] at hevent
  subst hevent
  cases event with
  | confirmed id guard trigger =>
      obtain rfl : id = matchId := by simpa [Event.confirms] using hconfirms
      exact ⟨guard, trigger, hsingle⟩
  | created m => cases hconfirms
  | stored message locked => cases hconfirms

theorem ConfirmedStep.cases {matchId : Uuid} {m : MatchRecord} {t : RecordClock} {held : Db}
    {r₁ r₂ : Reservation} (h : ConfirmedStep w a matchId m t held r₁ r₂) (u : Uuid) :
    (m.isParticipant u && (w.db.effectivePlanOn u).weeklyCredits.isSome) = false ∧
        Untouched w.db u (w.next a).db ∨
      (m.isParticipant u && (w.db.effectivePlanOn u).weeklyCredits.isSome) = true ∧
        ∃ r, r ∈ held.reservations ∧ r.key = (matchId, u) ∧
          (r.source = .free ∨ r.source = .advertising) ∧
          (r.source = .advertising → r.weekStart = startOfUtcWeek t.now) ∧
          Charged w.db u r.source r.weekStart t.now (w.next a).db := by
  have hparticipant {v : Uuid} {r : Reservation} (hv : m.isParticipant v = true)
      (hr : r ∈ held.reservations ∧ r.key = (matchId, v))
      (hsettles : Settles w.db v r t.now (w.next a).db) :
      (m.isParticipant v && (w.db.effectivePlanOn v).weeklyCredits.isSome) = false ∧
          Untouched w.db v (w.next a).db ∨
        (m.isParticipant v && (w.db.effectivePlanOn v).weeklyCredits.isSome) = true ∧
          ∃ r, r ∈ held.reservations ∧ r.key = (matchId, v) ∧
            (r.source = .free ∨ r.source = .advertising) ∧
            (r.source = .advertising → r.weekStart = startOfUtcWeek t.now) ∧
            Charged w.db v r.source r.weekStart t.now (w.next a).db := by
    cases hplan : (w.db.effectivePlanOn v).weeklyCredits with
    | none => exact Or.inl ⟨by simp, hsettles.premium hplan⟩
    | some included =>
        obtain ⟨hsource, hcharged⟩ := hsettles.limited (by simp [hplan])
        exact Or.inr ⟨by simp [hv], r, hr.1, hr.2, hsource, hsettles.current, hcharged⟩
  by_cases hu₁ : u = m.user1Id
  · subst hu₁
    exact hparticipant (by simp [MatchRecord.isParticipant]) h.first h.settlesFirst
  by_cases hu₂ : u = m.user2Id
  · subst hu₂
    exact hparticipant (by simp [MatchRecord.isParticipant]) h.second h.settlesSecond
  · refine Or.inl ⟨?_, h.others u hu₁ hu₂⟩
    simp [MatchRecord.isParticipant, Ne.symm hu₁, Ne.symm hu₂]

theorem CreditInvariant.totals (h : CreditInvariant w) (henabled : a.Enabled w) (u : Uuid) :
    (w.next a).db.totalUsed u = w.db.totalUsed u + limitedConfirmations u w a ∧
      (w.next a).db.totalFreeUsed u + debitedCredits u w a =
        w.db.totalFreeUsed u + limitedConfirmations u w a := by
  by_cases hconfirms : ∃ matchId, a.confirms w matchId = true
  · obtain ⟨matchId, hconfirms⟩ := hconfirms
    obtain ⟨guard, trigger, hevents⟩ := events_of_confirms hconfirms
    obtain ⟨m, t, held, r₁, r₂, hstep⟩ := h.confirmedStep henabled hconfirms
    have hfind : w.db.matchInit.find? matchId = some m :=
      Table.find?_eq_some_iff.mpr ⟨hstep.before.1, hstep.before.2.1⟩
    have hcount : limitedConfirmations u w a =
        if m.isParticipant u && (w.db.effectivePlanOn u).weeklyCredits.isSome then 1 else 0 := by
      simp [limitedConfirmations, hevents, Event.charges, hfind, List.countP_cons]
    have hdebited : debitedCredits u w a = w.db.credits u - (w.next a).db.credits u := by
      simp [debitedCredits, hevents, Event.isConfirmation]
    rw [hcount, hdebited]
    rcases hstep.cases u with ⟨hfalse, huntouched⟩ | ⟨htrue, r, _, _, hsource, _, hcharged⟩
    · have hcredits : (w.next a).db.credits u = w.db.credits u := by
        rw [Db.credits, huntouched.wallet, Db.credits]
      have htotals := huntouched.totals
      rw [hfalse, hcredits]
      simpa using htotals
    · rw [htrue]
      exact hcharged.totals hsource
  · have hnone : ∀ event ∈ (a.apply w.db).2, Event.isConfirmation event = false := by
      intro event hevent
      cases event with
      | confirmed id guard trigger =>
          exact absurd ⟨id, List.any_eq_true.mpr ⟨_, hevent, by simp [Event.confirms]⟩⟩ hconfirms
      | created m => rfl
      | stored message locked => rfl
    have hcount : limitedConfirmations u w a = 0 := by
      rw [limitedConfirmations, List.countP_eq_zero]
      intro event hevent hcharges
      have hfalse := hnone event hevent
      cases event with
      | confirmed id guard trigger => cases hfalse
      | created m => cases hcharges
      | stored message locked => cases hcharges
    have hdebited : debitedCredits u w a = 0 := by
      have hany : (a.apply w.db).2.any Event.isConfirmation = false := by
        rw [List.any_eq_false]
        intro event hevent
        simp [hnone event hevent]
      simp [debitedCredits, hany]
    have hquiet : ∀ matchId, a.confirms w matchId = false := by
      intro matchId
      by_contra hne
      exact hconfirms ⟨matchId, by simpa using hne⟩
    obtain ⟨hused, hfree, _⟩ := untouched_of_not_confirms h.issued henabled hquiet u
    rw [hcount, hdebited]
    constructor
    · exact totalUsed_add (k := 0) (n := 0) fun week ↦ by simp [hused]
    · exact totalFreeUsed_add (k := 0) (n := 0) fun week ↦ by simp [hfree]

end Conservation

section Runs

/-- The confirmations of one match in a step. -/
def confirmations (matchId : Uuid) (w : World) (a : Action) : ℕ :=
  (a.apply w.db).2.countP (Event.confirms matchId)

variable {w₀ : World} {as : List Action}

theorem creditInvariant_exec (h₀ : Initial w₀) (hvalid : service.Valid w₀ as) :
    CreditInvariant (service.exec w₀ as) :=
  creditInvariant_of_reachable ⟨w₀, as, h₀, hvalid, rfl⟩

theorem creditInvariant_before {pre post : List Action} {a : Action} (h₀ : Initial w₀)
    (hvalid : service.Valid w₀ (pre ++ a :: post)) :
    CreditInvariant (service.exec w₀ pre) ∧ a.Enabled (service.exec w₀ pre) :=
  ⟨creditInvariant_exec h₀ (hvalid.of_prefix (List.prefix_append _ _)), hvalid.enabled⟩

theorem tally_confirmations_le_one (h₀ : Initial w₀) (hvalid : service.Valid w₀ as)
    (matchId : Uuid) : service.tally (confirmations matchId) w₀ as ≤ 1 := by
  have hbalance := hvalid.tally_balance (I := fun _ ↦ True)
    (q := fun w ↦ w.log.countP (Event.confirms matchId)) (f := confirmations matchId)
    (g := fun _ _ ↦ 0) trivial (fun _ _ _ _ ↦ trivial)
    fun w a _ _ ↦ (countP_confirms w a matchId).trans (Nat.add_comm _ _)
  have honce : (service.exec w₀ as).log.countP (Event.confirms matchId) ≤ 1 :=
    (confirmedOnce_of_valid h₀ hvalid).1.once
  simp only [h₀.log, List.countP_nil, System.tally_zero] at hbalance
  omega

theorem totals_of_valid (h₀ : Initial w₀) (hvalid : service.Valid w₀ as) (u : Uuid) :
    (service.exec w₀ as).db.totalUsed u = service.tally (limitedConfirmations u) w₀ as ∧
      (service.exec w₀ as).db.totalFreeUsed u + service.tally (debitedCredits u) w₀ as =
        service.tally (limitedConfirmations u) w₀ as := by
  have hweeks : w₀.db.weeks u = ∅ := by
    rw [Db.weeks, h₀.usage]
    rfl
  have hstep (w : World) (a : Action) (hinv : CreditInvariant w) (henabled : a.Enabled w) :
      CreditInvariant (w.next a) := hinv.next henabled
  have hused := hvalid.tally_balance (q := fun w ↦ w.db.totalUsed u)
    (f := limitedConfirmations u) (g := fun _ _ ↦ 0) h₀.creditInvariant hstep
    fun w a hinv henabled ↦ (hinv.totals henabled u).1
  have hfree := hvalid.tally_balance (q := fun w ↦ w.db.totalFreeUsed u)
    (f := limitedConfirmations u) (g := debitedCredits u) h₀.creditInvariant hstep
    fun w a hinv henabled ↦ (hinv.totals henabled u).2
  simp only [Db.totalUsed, hweeks, Finset.sum_empty, System.tally_zero, Nat.add_zero,
    Nat.zero_add] at hused
  simp only [Db.totalFreeUsed, hweeks, Finset.sum_empty, Nat.zero_add] at hfree
  exact ⟨hused, hfree⟩

/-- Along every run a match is confirmed at most once, in a step that charges
each participant on a limited plan once; no other step spends, and the
counters of a user add up to the confirmations under a limited plan. -/
theorem one_debit_per_confirmation (w₀ : World) (as : List Action) (h₀ : Initial w₀)
    (hvalid : service.Valid w₀ as) :
    (∀ matchId, service.tally (confirmations matchId) w₀ as ≤ 1) ∧
      (∀ pre a post, as = pre ++ a :: post →
        (∀ m' ∈ (service.exec w₀ (pre ++ [a])).db.matchInit, m'.status = .confirmed →
          (∃ m ∈ (service.exec w₀ pre).db.matchInit, m.id = m'.id ∧ m.status = .confirmed) ∨
            a.confirms (service.exec w₀ pre) m'.id = true) ∧
        (∀ matchId, a.confirms (service.exec w₀ pre) matchId = true →
          ∃ m t held r₁ r₂, ConfirmedStep (service.exec w₀ pre) a matchId m t held r₁ r₂) ∧
        ((∀ matchId, a.confirms (service.exec w₀ pre) matchId = false) → ∀ u,
          (∀ week, (service.exec w₀ (pre ++ [a])).db.usedCount u week =
            (service.exec w₀ pre).db.usedCount u week) ∧
          (∀ week, (service.exec w₀ (pre ++ [a])).db.freeUsedCount u week =
            (service.exec w₀ pre).db.freeUsedCount u week) ∧
          ((∀ now, a ≠ .grantAdvertisingCredit u now) →
            (service.exec w₀ (pre ++ [a])).db.wallets.find? u =
              (service.exec w₀ pre).db.wallets.find? u))) ∧
      ∀ u,
        (service.exec w₀ as).db.totalUsed u = service.tally (limitedConfirmations u) w₀ as ∧
        (service.exec w₀ as).db.totalUsed u =
          (service.exec w₀ as).db.totalFreeUsed u + service.tally (debitedCredits u) w₀ as := by
  refine ⟨tally_confirmations_le_one h₀ hvalid, ?_, fun u ↦ ?_⟩
  · rintro pre a post rfl
    obtain ⟨hinv, henabled⟩ := creditInvariant_before h₀ hvalid
    rw [System.exec_concat]
    refine ⟨fun m' hm' hstatus ↦ ?_, fun matchId hconfirms ↦ ?_, fun hnone u ↦ ?_⟩
    · exact confirms_of_entered hinv.issued henabled hm' hstatus
    · exact hinv.confirmedStep henabled hconfirms
    · exact untouched_of_not_confirms hinv.issued henabled hnone u
  · obtain ⟨hused, hfree⟩ := totals_of_valid h₀ hvalid u
    exact ⟨hused, hused.trans hfree.symm⟩

end Runs

theorem one_debit_per_confirmation_bothContinue :
    service.tally (limitedConfirmations 1) pairWorld bothContinue = 1 ∧
      (service.exec pairWorld bothContinue).db.totalUsed 1 =
        service.tally (limitedConfirmations 1) pairWorld bothContinue :=
  ⟨by decide +kernel,
    ((one_debit_per_confirmation pairWorld bothContinue initial_pairWorld valid_bothContinue).2.2
      1).1⟩

end Histae.Matches
