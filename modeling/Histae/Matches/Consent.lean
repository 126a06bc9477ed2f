import Histae.Matches.Debits

/-!
# Priced consent

The partner's call usually executes a user's debit. The reservation that it
pays was stored by a call of the user that acknowledged the cost, and it has
been there ever since.
-/

namespace Histae.Matches

open Relational Systems

section Steps

variable {w : World} {a : Action} {r : Reservation}

theorem Reserves.limited {db₁ db₂ : Db} {matchId userId : Uuid} {cost : ℤ} {t : RecordClock}
    (h : Reserves db₁ matchId userId cost t r db₂) (hpaid : r.source ≠ .premium) :
    (db₁.effectivePlanOn userId).weeklyCredits.isSome := by
  obtain ⟨db₀, reservations, hbase, hsource, _, _⟩ := h.stored
  have hplans : db₀.plans = db₁.plans := by rcases hbase with rfl | rfl <;> rfl
  cases hplan : (db₁.effectivePlanOn userId).weeklyCredits with
  | some included => rfl
  | none =>
      have hunlimited : (quotaOn db₀ userId t.now).weeklyLimit.isNone = true := by
        rw [quotaOn_weeklyLimit, Db.effectivePlanOn, hplans, ← Db.effectivePlanOn, hplan]
        rfl
      rw [reservationSource, if_pos hunlimited] at hsource
      exact absurd (Option.some.inj hsource).symm hpaid

/-- A call that stores a payable reservation acknowledged the cost. -/
theorem Reserves.acknowledged {db₁ db₂ : Db} {matchId userId : Uuid} {cost : ℤ} {t : RecordClock}
    (h : Reserves db₁ matchId userId cost t r db₂) (hpaid : r.source ≠ .premium) : cost = 1 :=
  h.cost (h.limited hpaid)

/-- Only a priced call of its owner stores a payable reservation. -/
theorem call_of_reserved (hissued : w.Issued) (henabled : a.Enabled w)
    (hpaid : r.source ≠ .premium) (hbefore : r ∉ w.db.reservations)
    (hafter : r ∈ (w.next a).db.reservations) :
    ∃ legal t sourceId, a = .recordContinuation r.matchId r.userId legal 1 t sourceId := by
  cases stepEffect hissued henabled with
  | quiet _ hshrinks hlog => exact absurd (hshrinks.kept r hafter) hbefore
  | stored q t m db₁ messages hlock hstatus hinsert hdb hlog =>
      have hshrinks := (MessageOutcome.stored m db₁ messages hlock hstatus hinsert).shrinks
      rw [← hdb] at hshrinks
      exact absurd (hshrinks.kept r hafter) hbefore
  | created id first second now clock hinserts hlog =>
      rw [hinserts.reservations] at hafter
      exact absurd hafter hbefore
  | reserved id userId legal cost t sourceId m db₁ s db₂ hdeciding hopen hreserves hshrinks hlog =>
      have hlock : Shrinks t.locked none w.db db₁ := (LockOutcome.of_eq hdeciding.lock).shrinks
      rcases hreserves.mem_reservations.mp (hshrinks.kept r hafter) with rfl | ⟨hr, _⟩
      · obtain rfl := hreserves.acknowledged hpaid
        have hrow := hreserves.row
        refine ⟨legal, t, sourceId, ?_⟩
        rw [hrow]
      · exact absurd (hlock.kept r hr) hbefore
  | confirmed id userId legal cost t sourceId m db₁ s db₂ charges db₃ hdeciding hopen hreserves
      hconfirms hdb hlog =>
      have hlock : Shrinks t.locked none w.db db₁ := (LockOutcome.of_eq hdeciding.lock).shrinks
      rw [hdb] at hafter
      obtain ⟨hr, hne⟩ := mem_confirmedDb_reservations.mp hafter
      rw [hconfirms.reservations] at hr
      rcases hreserves.mem_reservations.mp hr with rfl | ⟨hr, _⟩
      · exact absurd (by rw [hreserves.row]) hne
      · exact absurd (hlock.kept r hr) hbefore
  | granted userId now hdb hlog =>
      obtain ⟨wallets, hgrant⟩ := grantAdvertisingCredit_frame w.db userId now
      rw [hdb, hgrant] at hafter
      exact absurd hafter hbefore

/-- The step changes a counter of the user, or its wallet other than by a
grant to the user. -/
def Debited (w : World) (a : Action) (u : Uuid) : Prop :=
  (∃ week, (w.next a).db.usedCount u week ≠ w.db.usedCount u week) ∨
    (∃ week, (w.next a).db.freeUsedCount u week ≠ w.db.freeUsedCount u week) ∨
    (∀ now, a ≠ .grantAdvertisingCredit u now) ∧
      (w.next a).db.wallets.find? u ≠ w.db.wallets.find? u

theorem Untouched.not_debited {u : Uuid} (h : Untouched w.db u (w.next a).db) :
    ¬ Debited w a u := by
  rintro (⟨week, hne⟩ | ⟨week, hne⟩ | ⟨_, hne⟩)
  · exact hne (h.used week)
  · exact hne (h.free week)
  · exact hne h.wallet

theorem Debited.confirms {u : Uuid} (h : Debited w a u) (hissued : w.Issued)
    (henabled : a.Enabled w) : ∃ matchId, a.confirms w matchId = true := by
  by_contra hnone
  have hquiet : ∀ matchId, a.confirms w matchId = false := by
    intro matchId
    by_contra hne
    exact hnone ⟨matchId, by simpa using hne⟩
  obtain ⟨hused, hfree, hwallet⟩ := untouched_of_not_confirms hissued henabled hquiet u
  rcases h with ⟨week, hne⟩ | ⟨week, hne⟩ | ⟨hgrant, hne⟩
  · exact hne (hused week)
  · exact hne (hfree week)
  · exact hne (hwallet hgrant)

/-- The reservation that a confirmation pays was there before the step, or
the step stored it itself. -/
theorem Debited.reservation {u : Uuid} (h : Debited w a u) (hinv : CreditInvariant w)
    (henabled : a.Enabled w) :
    ∃ r t userId legal cost sourceId,
      a = .recordContinuation r.matchId userId legal cost t sourceId ∧
      a.confirms w r.matchId = true ∧ r.userId = u ∧
      (r.source = .free ∨ r.source = .advertising) ∧
      (r.source = .advertising → r.weekStart = startOfUtcWeek t.now) ∧
      Charged w.db u r.source r.weekStart t.now (w.next a).db ∧
      (r ∈ w.db.reservations ∨ userId = u ∧ cost = 1 ∧
        ∃ m db₁ held, Deciding w.db r.matchId u t m db₁ ∧ Reserves db₁ r.matchId u 1 t r held) := by
  obtain ⟨matchId, hconfirms⟩ := h.confirms hinv.issued henabled
  obtain ⟨m, t, held, r₁, r₂, hstep⟩ := hinv.confirmedStep henabled hconfirms
  obtain ⟨userId, legal, cost, sourceId, ha, n, db₁, s, hdeciding, hreserves⟩ := hstep.call
  rcases hstep.cases u with ⟨_, huntouched⟩ | ⟨_, r, hr, hkey, hsource, hcurrent, hcharged⟩
  · exact absurd h huntouched.not_debited
  obtain ⟨rfl, rfl⟩ := Prod.mk.inj hkey
  refine ⟨r, t, userId, legal, cost, sourceId, ha, hconfirms, rfl, hsource, hcurrent, hcharged, ?_⟩
  rcases hreserves.mem_reservations.mp hr with rfl | ⟨hr, _⟩
  · have hpaid : r.source ≠ .premium := by rcases hsource with h | h <;> simp [h]
    have huser : userId = r.userId := by rw [hreserves.row]
    obtain rfl := hreserves.acknowledged hpaid
    subst huser
    exact Or.inr ⟨rfl, rfl, n, db₁, held, hdeciding, hreserves⟩
  · have hlock : Shrinks t.locked none w.db db₁ := (LockOutcome.of_eq hdeciding.lock).shrinks
    exact Or.inl (hlock.kept r hr)

end Steps

/-- The priced call that stored a reservation: the step at hand itself, or an
earlier call after which the reservation was never gone. -/
inductive PricedCall (w₀ : World) (pre : List Action) (a : Action) (r : Reservation) : Prop
  | same (legal : Option LegalConfig) (t : RecordClock) (sourceId : Uuid) (m : MatchRecord)
      (db₁ held : Db)
      (ha : a = .recordContinuation r.matchId r.userId legal 1 t sourceId)
      (hdeciding : Deciding (service.exec w₀ pre).db r.matchId r.userId t m db₁)
      (hreserves : Reserves db₁ r.matchId r.userId 1 t r held) : PricedCall w₀ pre a r
  | earlier (before mid : List Action) (legal : Option LegalConfig) (t : RecordClock)
      (sourceId : Uuid)
      (hpre : pre = before ++ .recordContinuation r.matchId r.userId legal 1 t sourceId :: mid)
      (habsent : r ∉ (service.exec w₀ before).db.reservations)
      (hheld : ∀ since, since <+: mid →
        r ∈ (service.exec w₀ (before ++
          .recordContinuation r.matchId r.userId legal 1 t sourceId :: since)).db.reservations) :
      PricedCall w₀ pre a r

section Runs

variable {w₀ : World} {pre post : List Action} {a : Action} {r : Reservation}

theorem exists_pricedCall (h₀ : Initial w₀) (hvalid : service.Valid w₀ pre)
    (hpaid : r.source ≠ .premium) (hr : r ∈ (service.exec w₀ pre).db.reservations) :
    PricedCall w₀ pre a r := by
  have hstart : r ∉ w₀.db.reservations := by
    rw [h₀.reservations]
    exact Table.notMem_empty r
  obtain ⟨before, b, mid, rfl, habsent, hheld⟩ :=
    System.exists_establishing_step (P := fun w : World ↦ r ∈ w.db.reservations) hstart hr
  obtain ⟨hinv, henabled⟩ := creditInvariant_before h₀ hvalid
  have hstored : r ∈ ((service.exec w₀ before).next b).db.reservations := by
    have hnow := hheld [] List.nil_prefix
    rwa [System.exec_concat] at hnow
  obtain ⟨legal, t, sourceId, rfl⟩ :=
    call_of_reserved hinv.issued henabled hpaid habsent hstored
  exact .earlier before mid legal t sourceId rfl habsent hheld

theorem PricedCall.mem (h : PricedCall w₀ pre a r) (post : List Action) :
    ∃ legal t sourceId,
      Action.recordContinuation r.matchId r.userId legal 1 t sourceId ∈ pre ++ a :: post := by
  cases h with
  | same legal t sourceId m db₁ held ha hdeciding hreserves =>
      exact ⟨legal, t, sourceId, by simp [ha]⟩
  | earlier before mid legal t sourceId hpre habsent hheld =>
      exact ⟨legal, t, sourceId, by simp [hpre]⟩

theorem Debited.pricedCall {u : Uuid} (h₀ : Initial w₀)
    (hvalid : service.Valid w₀ (pre ++ a :: post)) (h : Debited (service.exec w₀ pre) a u) :
    ∃ r t userId legal cost sourceId,
      a = .recordContinuation r.matchId userId legal cost t sourceId ∧
      a.confirms (service.exec w₀ pre) r.matchId = true ∧ r.userId = u ∧
      (r.source = .free ∨ r.source = .advertising) ∧
      (r.source = .advertising → r.weekStart = startOfUtcWeek t.now) ∧
      Charged (service.exec w₀ pre).db u r.source r.weekStart t.now
        (service.exec w₀ (pre ++ [a])).db ∧
      PricedCall w₀ pre a r := by
  obtain ⟨hinv, henabled⟩ := creditInvariant_before h₀ hvalid
  obtain ⟨r, t, userId, legal, cost, sourceId, ha, hconfirms, huser, hsource, hcurrent, hcharged,
    horigin⟩ := h.reservation hinv henabled
  rw [System.exec_concat]
  refine ⟨r, t, userId, legal, cost, sourceId, ha, hconfirms, huser, hsource, hcurrent, hcharged, ?_⟩
  subst huser
  rcases horigin with hr | ⟨rfl, rfl, m, db₁, held, hdeciding, hreserves⟩
  · have hpaid : r.source ≠ .premium := by rcases hsource with h | h <;> simp [h]
    exact exists_pricedCall h₀ (hvalid.of_prefix (List.prefix_append _ _)) hpaid hr
  · exact .same legal t sourceId m db₁ held ha hdeciding hreserves

/-- Whenever a user is debited, the reservation that is paid stems from a
call of that user with cost 1 and has been stored since; a user who never
acknowledges a cost is never debited. -/
theorem debit_follows_priced_call (w₀ : World) (as : List Action) (h₀ : Initial w₀)
    (hvalid : service.Valid w₀ as) (u : Uuid) :
    (∀ pre a post, as = pre ++ a :: post → Debited (service.exec w₀ pre) a u →
      ∃ r t userId legal cost sourceId,
        a = .recordContinuation r.matchId userId legal cost t sourceId ∧
        a.confirms (service.exec w₀ pre) r.matchId = true ∧ r.userId = u ∧
        (r.source = .free ∨ r.source = .advertising) ∧
        (r.source = .advertising → r.weekStart = startOfUtcWeek t.now) ∧
        Charged (service.exec w₀ pre).db u r.source r.weekStart t.now
          (service.exec w₀ (pre ++ [a])).db ∧
        PricedCall w₀ pre a r) ∧
      ((∀ matchId legal cost t sourceId,
          Action.recordContinuation matchId u legal cost t sourceId ∈ as → cost ≠ 1) →
        ∀ pre a post, as = pre ++ a :: post → ¬ Debited (service.exec w₀ pre) a u) := by
  constructor
  · rintro pre a post rfl hdebited
    exact hdebited.pricedCall h₀ hvalid
  · rintro hcost pre a post rfl hdebited
    obtain ⟨r, t, userId, legal, cost, sourceId, _, _, rfl, _, _, _, hcall⟩ :=
      hdebited.pricedCall h₀ hvalid
    obtain ⟨legal', t', sourceId', hmem⟩ := hcall.mem post
    exact hcost r.matchId legal' 1 t' sourceId' hmem rfl

end Runs

/-- The second participant's call debits the first participant. -/
theorem debit_follows_priced_call_bothContinue :
    ∃ r, r.userId = 1 ∧ PricedCall pairWorld (bothContinue.take 2)
      (.recordContinuation 7 2 none 1 (.constant (hours 31)) 21) r := by
  have hdebited : Debited (service.exec pairWorld (bothContinue.take 2))
      (.recordContinuation 7 2 none 1 (.constant (hours 31)) 21) 1 :=
    Or.inl ⟨-3, by decide +kernel⟩
  obtain ⟨r, t, userId, legal, cost, sourceId, _, _, huser, _, _, _, hcall⟩ :=
    (debit_follows_priced_call pairWorld bothContinue initial_pairWorld valid_bothContinue 1).1
      (bothContinue.take 2) _ [] rfl hdebited
  exact ⟨r, huser, hcall⟩

end Histae.Matches
