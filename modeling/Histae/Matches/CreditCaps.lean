import Histae.Matches.Effects
import Histae.Matches.Ledger

/-!
# Credit caps

Every user's rows in the four continuation tables form a ledger. Each step of
the service moves that ledger by one of the moves that keep it sound, so the
caps hold in every reachable state, and a confirmation always finds the
credits it debits.
-/

namespace Histae.Matches

open Relational Systems

def caps : Caps where
  free := freeWeeklyCredits.toNat
  weekly := freeWeeklyContinuationLimit.toNat
  stock := advertisingStockLimit.toNat

/-- The ledger of a user: its counters, its wallet and its live reservations. -/
def Db.ledger (db : Db) (now : ℤ) (u : Uuid) : Ledger where
  used := db.usedCount u
  freeUsed := db.freeUsedCount u
  wallet := (db.wallets.find? u).map fun w ↦ (w.advertisingCredits, w.weekStart)
  held := (db.reservations.select fun r ↦ r.userId = u && db.live now r).toFinset

/-- A reservation belongs to a participant of a stored match that is past its
first period. -/
def Rooted (db : Db) : Prop :=
  ∀ r ∈ db.reservations, ∃ m ∈ db.matchInit,
    m.id = r.matchId ∧ m.status ≠ .active ∧ m.isParticipant r.userId = true

section Ledger

variable {db db' : Db} {now now' T : ℤ} {sent : Option (Uuid × ℤ)} {u : Uuid} {r : Reservation}

theorem live_iff : db.live now r = true ↔ ∃ m ∈ db.matchInit, m.id = r.matchId ∧
    m.status = .awaitingContinuation ∧ now < m.expiresAt := by
  unfold Db.live
  rw [Option.any_eq_true]
  constructor
  · rintro ⟨m, hfind, hguard⟩
    obtain ⟨hm, hid⟩ := Table.find?_eq_some_iff.mp hfind
    exact ⟨m, hm, hid, by simpa using hguard⟩
  · rintro ⟨m, hm, hid, hguard⟩
    exact ⟨m, Table.find?_eq_some_iff.mpr ⟨hm, hid⟩, by simpa using hguard⟩

theorem mem_held : r ∈ (db.ledger now u).held ↔
    r ∈ db.reservations ∧ r.userId = u ∧ db.live now r = true := by
  simp only [Db.ledger, List.mem_toFinset, Table.mem_select, Bool.and_eq_true, decide_eq_true_eq]

theorem holds_ledger (p : Reservation → Bool) :
    (db.ledger now u).holds p = db.liveCount u now p := by
  have hnodup : db.reservations.rows.Nodup := db.reservations.nodup.of_map
  have hcount : db.liveCount u now p =
      ((db.reservations.select fun r ↦ r.userId = u && db.live now r).filter p).length := by
    rw [Db.liveCount, Table.count, List.countP_eq_length_filter, Table.select, List.filter_filter]
    congr 1
    apply List.filter_congr
    intro r _
    rw [Bool.and_comm]
  have hfinset : {r ∈ (db.ledger now u).held | p r} =
      ((db.reservations.select fun r ↦ r.userId = u && db.live now r).filter p).toFinset := by
    ext r
    simp [Db.ledger]
  rw [Ledger.holds, hfinset, hcount]
  exact List.toFinset_card_of_nodup ((hnodup.filter _).filter _)

theorem Rooted.of_shrinks (hrooted : Rooted db) (h : Shrinks T sent db db') : Rooted db' := by
  intro r hr
  obtain ⟨m, hm, hid, hstatus, hparticipant⟩ := hrooted r (h.kept r hr)
  obtain ⟨m', hm', hid'⟩ := h.rooted r hr m hm hid
  obtain ⟨n, hn, hpath⟩ := h.evolves m' hm'
  have hsame := hpath.sameIdentity
  have hnm : n = m := Table.eq_of_key_eq hn hm (hsame.id.symm.trans hid')
  subst hnm
  refine ⟨m', hm', hid'.trans hid, fun hactive ↦ hstatus (hpath.noReopening.active hactive), ?_⟩
  rw [MatchRecord.isParticipant, hsame.user1Id, hsame.user2Id]
  exact hparticipant

theorem live_of_shrinks (hrooted : Rooted db) (h : Shrinks T sent db db') (hnow : now ≤ now')
    (hr : r ∈ db.reservations) (hlive : db'.live now' r = true) : db.live now r = true := by
  obtain ⟨m', hm', hid', hawaiting, hopen⟩ := live_iff.mp hlive
  obtain ⟨m, hm, hpath⟩ := h.evolves m' hm'
  have hid : m.id = r.matchId := hpath.sameIdentity.id.symm.trans hid'
  rcases hpath.noReopening.awaiting hawaiting with hactive | ⟨hstatus, hexpiry⟩
  · obtain ⟨n, hn, hnid, hne, _⟩ := hrooted r hr
    rw [Table.eq_of_key_eq hn hm (hnid.trans hid.symm)] at hne
    exact absurd hactive hne
  · exact live_iff.mpr ⟨m, hm, hid, hstatus, by omega⟩

theorem held_of_shrinks (hrooted : Rooted db) (h : Shrinks T sent db db') (hnow : now ≤ now') :
    (db'.ledger now' u).held ⊆ (db.ledger now u).held := by
  intro r hr
  obtain ⟨hmem, huser, hlive⟩ := mem_held.mp hr
  exact mem_held.mpr ⟨h.kept r hmem, huser, live_of_shrinks hrooted h hnow (h.kept r hmem) hlive⟩

/-- Every ledger is sound at the instant `now`. -/
def Balanced (db : Db) (now : ℤ) : Prop :=
  ∀ u, (db.ledger now u).Sound caps (startOfUtcWeek now)

theorem Balanced.of_shrinks (hbalanced : Balanced db now) (hrooted : Rooted db)
    (h : Shrinks T sent db db') (hnow : now ≤ now') : Balanced db' now' := by
  intro u
  have huntouched : Untouched db u db' := .of_eq h.usage h.wallets
  refine (hbalanced u).release (startOfUtcWeek_mono hnow) ?_ ?_ ?_
    (held_of_shrinks hrooted h hnow)
  · exact funext huntouched.used
  · exact funext huntouched.free
  · exact congrArg (Option.map _) huntouched.wallet

end Ledger

section Creation

variable {db db' : Db} {record : MatchRecord} {now now' : ℤ}

theorem Rooted.of_inserts (hrooted : Rooted db) (h : Inserts db record db') : Rooted db' := by
  intro r hr
  rw [h.reservations] at hr
  obtain ⟨m, hm, hrest⟩ := hrooted r hr
  exact ⟨m, (Table.mem_insert h.matchInit).mpr (Or.inr hm), hrest⟩

theorem Balanced.of_inserts (hbalanced : Balanced db now) (h : Inserts db record db')
    (hactive : record.status = .active) (hnow : now ≤ now') : Balanced db' now' := by
  intro u
  have huntouched : Untouched db u db' := .of_eq h.usage h.wallets
  refine (hbalanced u).release (startOfUtcWeek_mono hnow) ?_ ?_ ?_ ?_
  · exact funext huntouched.used
  · exact funext huntouched.free
  · exact congrArg (Option.map _) huntouched.wallet
  · intro r hr
    obtain ⟨hmem, huser, hlive⟩ := mem_held.mp hr
    obtain ⟨m, hm, hid, hawaiting, hopen⟩ := live_iff.mp hlive
    rcases (Table.mem_insert h.matchInit).mp hm with rfl | hm
    · rw [hactive] at hawaiting
      cases hawaiting
    · refine mem_held.mpr ⟨h.reservations ▸ hmem, huser, live_iff.mpr ⟨m, hm, hid, hawaiting, ?_⟩⟩
      omega

end Creation

section Reservation

variable {db : Db} {u : Uuid} {now : ℤ}

theorem balance_eq {week : ℤ} (h : 0 < db.balance u week) :
    (db.ledger now u).wallet = some (db.balance u week, week) := by
  unfold Db.balance at h ⊢
  cases hfind : db.wallets.find? u with
  | none => simp [hfind] at h
  | some wallet =>
      by_cases hweek : wallet.weekStart = week
      · simp [Db.ledger, hfind, hweek, Option.filter]
      · simp [hfind, hweek, Option.filter] at h

/-- A reservation is granted only when the ledger has room for it. -/
theorem room_of_reservationSource {source : Source}
    (h : reservationSource (quotaOn db u now) = some source) :
    (db.ledger now u).Room caps (startOfUtcWeek now) source := by
  have hcaps : caps.free = 2 ∧ caps.weekly = 5 := ⟨rfl, rfl⟩
  unfold reservationSource quotaOn at h
  cases hplan : (db.effectivePlanOn u).weeklyCredits with
  | none =>
      obtain rfl : Source.premium = source := by simpa [hplan] using h
      exact ⟨by simp, nofun, nofun⟩
  | some included =>
      simp only [hplan, Option.isNone_some, Bool.false_eq_true, if_false, Option.getD_some] at h
      split at h
      · cases h
      rename_i hremaining
      have hweekly : (db.ledger now u).used (startOfUtcWeek now) +
          (db.ledger now u).holds (countsAsReserved (startOfUtcWeek now)) < caps.weekly := by
        rw [holds_ledger, hcaps.2]
        change db.usedCount u (startOfUtcWeek now) + db.reserved u now < 5
        simp only [freeWeeklyContinuationLimit] at hremaining
        omega
      split at h
      · rename_i hfree
        obtain rfl := Option.some.inj h
        refine ⟨fun _ ↦ hweekly, fun _ ↦ ?_, nofun⟩
        rw [holds_ledger, hcaps.1]
        change db.freeUsedCount u (startOfUtcWeek now) + _ < 2
        simp only [freeWeeklyCredits] at hfree
        omega
      · rename_i hfree
        obtain rfl := Option.some.inj h
        refine ⟨fun _ ↦ hweekly, nofun, fun _ ↦ ?_⟩
        have hroom : db.liveCount u now (countsAs .advertising (startOfUtcWeek now)) <
            db.balance u (startOfUtcWeek now) := by
          omega
        refine ⟨db.balance u (startOfUtcWeek now), balance_eq (by omega), ?_⟩
        rw [holds_ledger]
        exact hroom

variable {db₁ db₂ : Db} {matchId userId : Uuid} {cost : ℤ} {t : RecordClock} {r : Reservation}
  {m : MatchRecord}

theorem Reserves.rooted (h : Reserves db₁ matchId userId cost t r db₂) (hrooted : Rooted db₁)
    (hm : m ∈ db₁.matchInit) (hid : m.id = matchId) (hawaiting : m.status = .awaitingContinuation)
    (hparticipant : m.isParticipant userId = true) : Rooted db₂ := by
  intro s hs
  rw [h.matchInit]
  rcases h.mem_reservations.mp hs with rfl | ⟨hs, _⟩
  · refine ⟨m, hm, ?_, by simp [hawaiting], ?_⟩
    · rw [hid, h.row]
    · rw [h.row]
      exact hparticipant
  · exact hrooted s hs

theorem Reserves.balanced (h : Reserves db₁ matchId userId cost t r db₂) (hrooted : Rooted db₁)
    (hbalanced : Balanced db₁ t.now) : Balanced db₂ t.now := by
  obtain ⟨db₀, reservations, hbase, hsource, hinsert, hdb₂⟩ := h.stored
  have hbase' : Shrinks t.now none db₁ db₀ := by
    rcases hbase with rfl | rfl
    · exact .refl _
    · exact shrinks_clearChoice ..
  have hbalanced₀ := hbalanced.of_shrinks hrooted hbase' le_rfl
  intro u
  have hheld : (db₂.ledger t.now u).held ⊆ insert r (db₀.ledger t.now u).held := by
    intro s hs
    obtain ⟨hmem, huser, hlive⟩ := mem_held.mp hs
    subst hdb₂
    rcases (Table.mem_insert hinsert).mp hmem with rfl | hmem
    · exact Finset.mem_insert_self _ _
    · exact Finset.mem_insert_of_mem (mem_held.mpr ⟨hmem, huser, hlive⟩)
  by_cases huser : u = userId
  · subst huser
    have hroom := room_of_reservationSource hsource
    have hweek : r.weekStart = startOfUtcWeek t.now := by rw [h.row]
    refine (hbalanced₀ u).hold hroom hweek ?_ ?_ ?_ hheld <;> subst hdb₂ <;> rfl
  · refine (hbalanced₀ u).release le_rfl ?_ ?_ ?_ ?_
    · subst hdb₂
      rfl
    · subst hdb₂
      rfl
    · subst hdb₂
      rfl
    · intro s hs
      rcases Finset.mem_insert.mp (hheld hs) with rfl | hs'
      · have huser' : s.userId = userId := by rw [h.row]
        exact absurd ((mem_held.mp hs).2.1.symm.trans huser') huser
      · exact hs'

end Reservation

section Confirmation

variable {db₂ db₃ : Db} {matchId : Uuid} {t : RecordClock} {charges : List Charge}
  {m : MatchRecord}

theorem held_confirmedDb {u : Uuid} (hmatch : db₃.matchInit = db₂.matchInit)
    (hreservations : db₃.reservations = db₂.reservations) (ht : t.now ≤ t.trigger)
    {r : Reservation} (hr : r ∈ ((confirmedDb db₃ m matchId t).ledger t.trigger u).held) :
    r ∈ (db₂.ledger t.now u).held ∧ r.matchId ≠ matchId := by
  obtain ⟨hmem, huser, hlive⟩ := mem_held.mp hr
  obtain ⟨hmem, hne⟩ := mem_confirmedDb_reservations.mp hmem
  obtain ⟨n, hn, hid, hawaiting, hopen⟩ := live_iff.mp hlive
  have hn' := (mem_confirmedDb_matchInit (hid ▸ hne)).mp hn
  refine ⟨mem_held.mpr ⟨hreservations ▸ hmem, huser, live_iff.mpr ⟨n, hmatch ▸ hn', hid, hawaiting, ?_⟩⟩, hne⟩
  omega

/-- A reservation of the match being decided is live. -/
theorem held_of_mem_reservationsOf {r : Reservation} (hm : m ∈ db₂.matchInit)
    (hid : m.id = matchId) (hawaiting : m.status = .awaitingContinuation)
    (hopen : t.now < m.expiresAt) (hr : r ∈ db₂.reservationsOf matchId) :
    r ∈ (db₂.ledger t.now r.userId).held := by
  obtain ⟨hmem, hmatch⟩ := mem_reservationsOf.mp hr
  exact mem_held.mpr ⟨hmem, rfl, live_iff.mpr ⟨m, hm, hid.trans hmatch.symm, hawaiting, hopen⟩⟩

/-- In a sound state the debits of a confirmation cannot fail. -/
theorem payable_of_balanced (hbalanced : Balanced db₂ t.now) (hm : m ∈ db₂.matchInit)
    (hid : m.id = matchId) (hawaiting : m.status = .awaitingContinuation)
    (hopen : t.now < m.expiresAt)
    (hcharges : List.Forall₂ (ChargeOf db₂ t.now) (db₂.reservationsOf matchId) charges)
    {c : Charge} (hc : c ∈ charges) : Payable db₂ c := by
  intro hsource
  obtain ⟨r, hr, hcharge⟩ := exists_reservation_of_charge hcharges hc
  rcases hcharge.source with ⟨_, hpremium⟩ | ⟨_, hsame, _⟩
  · rw [hpremium] at hsource
    cases hsource
  rw [hsame] at hsource
  have hheld := held_of_mem_reservationsOf hm hid hawaiting hopen hr
  have hsound := hbalanced r.userId
  obtain ⟨credits, week, hwallet, hle⟩ := hsound.backed r hheld hsource
  obtain ⟨_, hweek, hstock⟩ := hsound.stock credits week hwallet
  have hcurrent := hcharge.current hsource
  have heq : week = r.weekStart := by omega
  subst heq
  have hpos : 0 < (db₂.ledger t.now r.userId).holds (countsAs .advertising r.weekStart) :=
    Ledger.holds_pos hheld (by simp [countsAs, hsource])
  rw [hcharge.participant, hcharge.week]
  cases hfind : db₂.wallets.find? r.userId with
  | none => simp [Db.ledger, hfind] at hwallet
  | some wallet =>
      have hwallet : wallet.advertisingCredits = credits ∧ wallet.weekStart = r.weekStart := by
        simpa [Db.ledger, hfind] using hwallet
      exact ⟨wallet, rfl, hwallet.2, by omega⟩

theorem Confirms.balanced (h : Confirms db₂ matchId t charges db₃)
    (hbalanced : Balanced db₂ t.now) (hm : m ∈ db₂.matchInit) (hid : m.id = matchId)
    (hawaiting : m.status = .awaitingContinuation) (hopen : t.now < m.expiresAt)
    (ht : t.now ≤ t.trigger) : Balanced (confirmedDb db₃ m matchId t) t.trigger := by
  have hcharges := validateCharges_eq_ok h.valid
  have hnodup : (charges.map Charge.participant).Nodup := by
    rw [participants_of_validateCharges hcharges]
    exact nodup_reservationsOf db₂ matchId
  have hmatch := h.matchInit
  have hreservations := h.reservations
  have hsame := sameLedger_confirmedDb db₃ m matchId t
  intro u
  have hkept : Untouched db₃ u (confirmedDb db₃ m matchId t) := .of_eq hsame.usage hsame.wallets
  have hheld : ((confirmedDb db₃ m matchId t).ledger t.trigger u).held ⊆
      (db₂.ledger t.now u).held := fun r hr ↦ (held_confirmedDb hmatch hreservations ht hr).1
  have hunpaid (huntouched : Untouched db₂ u db₃) :
      ((confirmedDb db₃ m matchId t).ledger t.trigger u).Sound caps (startOfUtcWeek t.trigger) := by
    have hall := huntouched.trans hkept
    exact (hbalanced u).release (startOfUtcWeek_mono ht) (funext hall.used) (funext hall.free)
      (congrArg (Option.map _) hall.wallet) hheld
  by_cases hu : u ∈ charges.map Charge.participant
  · obtain ⟨c, hc, rfl⟩ := List.mem_map.mp hu
    have hcharged := (debitAll_charged h.paid hnodup hc).trans_untouched hkept
    obtain ⟨r, hr, hcharge⟩ := exists_reservation_of_charge hcharges hc
    rcases hcharge.source with ⟨_, hpremium⟩ | ⟨_, hsource, hne⟩
    · apply hunpaid
      have hcharged₃ := debitAll_charged h.paid hnodup hc
      refine ⟨fun w ↦ ?_, fun w ↦ ?_, hcharged₃.wallet (by simp [hpremium])⟩
      · simpa [hpremium] using hcharged₃.used w
      · simpa [hpremium] using hcharged₃.free w
    · have hrheld : r ∈ (db₂.ledger t.now c.participant).held := by
        rw [hcharge.participant]
        exact held_of_mem_reservationsOf hm hid hawaiting hopen hr
      have hpays : (db₂.ledger t.now c.participant).Pays (startOfUtcWeek t.now) r
          ((confirmedDb db₃ m matchId t).ledger t.trigger c.participant) := by
        refine ⟨fun w ↦ ?_, fun hfree ↦ ⟨fun w ↦ ?_, ?_⟩, fun had ↦ ⟨funext fun w ↦ ?_, ?_⟩⟩
        · refine (hcharged.used w).trans ?_
          simp [hsource, hne, Db.ledger]
        · refine (hcharged.free w).trans ?_
          simp [hsource, hfree, hcharge.week, Db.ledger]
        · exact congrArg (Option.map _) (hcharged.wallet (by simp [hsource, hfree]))
        · refine (hcharged.free w).trans ?_
          simp [hsource, had, Db.ledger]
        · obtain ⟨wallet, hfind, hweek, hpos, hspent⟩ := hcharged.stock (hsource.trans had)
          refine ⟨wallet.advertisingCredits - 1, ?_, ?_⟩
          · have hcredits : wallet.advertisingCredits - 1 + 1 = wallet.advertisingCredits := by
              omega
            simp [Db.ledger, hfind, hweek, hcharge.week, hcredits]
          · simp [Db.ledger, hspent, Wallet.spend, hweek, hcharge.week]
      have hsound : ((confirmedDb db₃ m matchId t).ledger t.trigger c.participant).Sound caps
          (startOfUtcWeek t.now) := by
        refine (hbalanced c.participant).pay hrheld hpays hne hcharge.current ?_
        intro s hs
        obtain ⟨hs', hsne⟩ := held_confirmedDb hmatch hreservations ht hs
        refine Finset.mem_erase.mpr ⟨?_, hs'⟩
        rintro rfl
        exact hsne (mem_reservationsOf.mp hr).2
      exact hsound.release (startOfUtcWeek_mono ht) rfl rfl rfl (Finset.Subset.refl _)
  · exact hunpaid (debitAll_untouched h.paid hu)

theorem rooted_confirmedDb (hrooted : Rooted db₂) (hmatch : db₃.matchInit = db₂.matchInit)
    (hreservations : db₃.reservations = db₂.reservations) :
    Rooted (confirmedDb db₃ m matchId t) := by
  intro r hr
  obtain ⟨hmem, hne⟩ := mem_confirmedDb_reservations.mp hr
  obtain ⟨n, hn, hid, hrest⟩ := hrooted r (hreservations ▸ hmem)
  exact ⟨n, (mem_confirmedDb_matchInit (hid ▸ hne)).mpr (hmatch ▸ hn), hid, hrest⟩

end Confirmation

section Grant

variable {db : Db} {userId : Uuid} {now : ℤ}

theorem Balanced.of_grant (hbalanced : Balanced db now) :
    Balanced (grantAdvertisingCredit db userId now).2 now := by
  rcases grantAdvertisingCredit_cases db userId now with hsame |
    ⟨wallets, wallet, hdb, hother, hfind, hweek, hcredits⟩
  · rw [hsame]
    exact hbalanced
  rw [hdb]
  intro u
  by_cases hu : u = userId
  · subst hu
    refine (hbalanced u).grant (by decide) rfl rfl rfl ?_
    rcases hcredits with ⟨hold, hone⟩ | ⟨old, hold, holdWeek, hroom, hmore⟩
    · refine Or.inl ⟨fun c w hw ↦ ?_, ?_⟩
      · obtain ⟨old, hfindOld, hpair⟩ := Option.map_eq_some_iff.mp hw
        have hlt := hold old hfindOld
        rw [Prod.mk.injEq] at hpair
        rw [← hpair.2]
        exact hlt
      · simp [Db.ledger, hfind, hone, hweek]
    · have hlimit : advertisingStockLimit = 3 := rfl
      have hstock : caps.stock = 3 := rfl
      refine Or.inr ⟨old.advertisingCredits, ?_, by omega, ?_⟩
      · simp [Db.ledger, hold, holdWeek]
      · simp [Db.ledger, hfind, hmore, hweek]
  · refine (hbalanced u).release le_rfl rfl rfl ?_ (Finset.Subset.refl _)
    exact congrArg (Option.map _) (hother u hu)

end Grant

section Runs

variable {w : World} {a : Action}

structure CreditInvariant (w : World) : Prop where
  issued : w.Issued
  rooted : Rooted w.db
  balanced : Balanced w.db w.clock

/-- The tables of an undecided match after the reservation of the caller. -/
theorem Reserves.creditInvariant {db db₁ db₂ : Db} {matchId userId : Uuid} {cost clock : ℤ}
    {t : RecordClock} {m : MatchRecord} {r : Reservation} (hrooted : Rooted db)
    (hbalanced : Balanced db clock) (hclock : clock ≤ t.now)
    (hdeciding : Deciding db matchId userId t m db₁)
    (hreserves : Reserves db₁ matchId userId cost t r db₂) :
    Rooted db₂ ∧ Balanced db₂ t.now ∧ m ∈ db₂.matchInit ∧ m.id = matchId := by
  have hlock := LockOutcome.of_eq hdeciding.lock
  have hshrinks : Shrinks t.locked none db db₁ := hlock.shrinks
  obtain ⟨hm, hid, hparticipant, _, _⟩ := hlock.mem_of_available
  have hrooted₁ := hrooted.of_shrinks hshrinks
  have hbalanced₁ := hbalanced.of_shrinks hrooted hshrinks hclock
  exact ⟨hreserves.rooted hrooted₁ hm hid hdeciding.awaiting hparticipant,
    hreserves.balanced hrooted₁ hbalanced₁, hreserves.matchInit ▸ hm, hid⟩

theorem CreditInvariant.next (h : CreditInvariant w) (henabled : a.Enabled w) :
    CreditInvariant (w.next a) := by
  have hclock := henabled.clock_le
  suffices hcredits : Rooted (w.next a).db ∧ Balanced (w.next a).db (w.next a).clock from
    ⟨h.issued.next henabled, hcredits.1, hcredits.2⟩
  cases stepEffect h.issued henabled with
  | quiet _ hshrinks hlog =>
      exact ⟨h.rooted.of_shrinks hshrinks, h.balanced.of_shrinks h.rooted hshrinks hclock⟩
  | stored q t m db₁ messages hlock hstatus hinsert hdb hlog =>
      have hshrinks : Shrinks t.locked (some (q.matchId, t.inserted)) w.db
          (w.next (.createMessage q t)).db := by
        rw [hdb]
        exact (MessageOutcome.stored m db₁ messages hlock hstatus hinsert).shrinks
      exact ⟨h.rooted.of_shrinks hshrinks, h.balanced.of_shrinks h.rooted hshrinks hclock⟩
  | created id first second now clock hinserts hlog =>
      exact ⟨h.rooted.of_inserts hinserts, h.balanced.of_inserts hinserts rfl hclock⟩
  | reserved matchId userId legal cost t sourceId m db₁ r db₂ hdeciding hopen hreserves hafter
      hlog =>
      have hnow : w.clock ≤ t.now ∧ t.now ≤ t.trigger := henabled.start (t.now, t.trigger) rfl
      obtain ⟨hrooted, hbalanced, _, _⟩ :=
        hreserves.creditInvariant h.rooted h.balanced hnow.1 hdeciding
      exact ⟨hrooted.of_shrinks hafter, hbalanced.of_shrinks hrooted hafter hnow.2⟩
  | confirmed matchId userId legal cost t sourceId m db₁ r db₂ charges db₃ hdeciding hopen
      hreserves hconfirms hdb hlog =>
      have hnow : w.clock ≤ t.now ∧ t.now ≤ t.trigger := henabled.start (t.now, t.trigger) rfl
      obtain ⟨hrooted, hbalanced, hm, hid⟩ :=
        hreserves.creditInvariant h.rooted h.balanced hnow.1 hdeciding
      rw [hdb]
      exact ⟨rooted_confirmedDb hrooted hconfirms.matchInit hconfirms.reservations,
        hconfirms.balanced hbalanced hm hid hdeciding.awaiting hopen hnow.2⟩
  | granted userId now hdb hlog =>
      have hnow : w.clock ≤ now := (henabled.start (now, now) rfl).1
      have hsame : Shrinks now none w.db w.db := .refl w.db
      have hbalanced : Balanced w.db now := h.balanced.of_shrinks h.rooted hsame hnow
      refine ⟨?_, hdb ▸ hbalanced.of_grant⟩
      obtain ⟨wallets, hgrant⟩ := grantAdvertisingCredit_frame w.db userId now
      rw [hdb, hgrant]
      exact h.rooted

theorem Initial.creditInvariant (h : Initial w) : CreditInvariant w where
  issued m hm := absurd (h.matchInit ▸ hm) (Table.notMem_empty m)
  rooted r hr := absurd (h.reservations ▸ hr) (Table.notMem_empty r)
  balanced u := by
    have hused (v : Uuid) (week : ℤ) : w.db.usedCount v week = 0 := by
      rw [Db.usedCount, h.usage, Table.find?_empty]
      rfl
    have hfree (v : Uuid) (week : ℤ) : w.db.freeUsedCount v week = 0 := by
      rw [Db.freeUsedCount, h.usage, Table.find?_empty]
      rfl
    have hheld : (w.db.ledger w.clock u).held = ∅ := by
      apply Finset.eq_empty_of_forall_notMem
      intro r hr
      have hmem := (mem_held.mp hr).1
      rw [h.reservations] at hmem
      exact Table.notMem_empty r hmem
    have hholds (p : Reservation → Bool) : (w.db.ledger w.clock u).holds p = 0 := by
      rw [Ledger.holds, hheld]
      rfl
    have hwallet : (w.db.ledger w.clock u).wallet = none := by
      simp [Db.ledger, h.wallets]
    refine ⟨fun week ↦ ?_, fun week ↦ ?_, ?_, fun week _ ↦ hused u week, fun c week hw ↦ ?_,
      fun r hr ↦ ?_⟩
    · rw [hholds]
      exact (hfree u week).le.trans (Nat.zero_le _)
    · exact (hused u week).le.trans (Nat.zero_le _)
    · rw [hholds]
      exact (hused u _).le.trans (Nat.zero_le _)
    · rw [hwallet] at hw
      cases hw
    · rw [hheld] at hr
      exact absurd hr (Finset.notMem_empty r)

theorem creditInvariant_of_reachable (h : service.Reachable Initial w) : CreditInvariant w :=
  h.invariant (fun _ hinit ↦ hinit.creditInvariant) fun _ _ hinv henabled ↦ hinv.next henabled

theorem record_ne_queryFailed (h : CreditInvariant w) {matchId userId : Uuid}
    {legal : Option LegalConfig} {cost : ℤ} {t : RecordClock} {sourceId : Uuid}
    (henabled : (Action.recordContinuation matchId userId legal cost t sourceId).Enabled w) :
    record w.db matchId userId legal cost t sourceId ≠ .error (.database .queryFailed) := by
  intro hfailed
  obtain ⟨m, db₁, r, db₂, charges, error, hdeciding, hopen, hreserves, hvalid, hdebit⟩ :=
    record_queryFailed hfailed
  have hnow : w.clock ≤ t.now := (henabled.start (t.now, t.trigger) rfl).1
  obtain ⟨_, hbalanced, hm, hid⟩ :=
    hreserves.creditInvariant h.rooted h.balanced hnow hdeciding
  have hcharges := validateCharges_eq_ok hvalid
  have hnodup : (charges.map Charge.participant).Nodup := by
    rw [participants_of_validateCharges hcharges]
    exact nodup_reservationsOf db₂ matchId
  obtain ⟨db₃, hpaid⟩ : ∃ db₃, debitAll t.now charges db₂ = .ok db₃ :=
    debitAll_isOk hnodup fun c hc ↦
      payable_of_balanced hbalanced hm hid hdeciding.awaiting hopen hcharges hc
  rw [hpaid] at hdebit
  cases hdebit

/-- In every reachable state the caps hold for every user and week, and a
continuation never fails in the wallet update of `debit`. -/
theorem credit_caps (w : World) (h : service.Reachable Initial w) (u : Uuid) (week : ℤ) :
    w.db.freeUsedCount u week + w.db.liveCount u w.clock (countsAs .free week) ≤ 2 ∧
      w.db.usedCount u week ≤ 5 ∧
      w.db.usedCount u (startOfUtcWeek w.clock) + w.db.reserved u w.clock ≤ 5 ∧
      (∀ wallet, w.db.wallets.find? u = some wallet →
        wallet.advertisingCredits ≤ 3 ∧
          w.db.liveCount u w.clock (countsAs .advertising wallet.weekStart) ≤
            wallet.advertisingCredits) ∧
      ∀ matchId legal cost t sourceId,
        (Action.recordContinuation matchId u legal cost t sourceId).Enabled w →
          record w.db matchId u legal cost t sourceId ≠ .error (.database .queryFailed) := by
  have hinv := creditInvariant_of_reachable h
  have hsound := hinv.balanced u
  refine ⟨?_, hsound.used week, ?_, fun wallet hwallet ↦ ?_, fun _ _ _ _ _ henabled ↦ ?_⟩
  · have hfree := hsound.free week
    rw [holds_ledger] at hfree
    exact hfree
  · have hquota := hsound.quota
    rw [holds_ledger] at hquota
    exact hquota
  · have hstock := hsound.stock wallet.advertisingCredits wallet.weekStart
      (by simp [Db.ledger, hwallet])
    rw [holds_ledger] at hstock
    exact ⟨hstock.1, hstock.2.2⟩
  · exact record_ne_queryFailed hinv henabled

end Runs

def pairWorld : World := ⟨pairDb, 0, []⟩

def RecordClock.constant (t : ℤ) : RecordClock := ⟨t, t, t, t, t⟩

theorem RecordClock.ordered_constant (t : ℤ) : (RecordClock.constant t).Ordered :=
  ⟨le_rfl, le_rfl, le_rfl, le_rfl⟩

/-- Both participants of a match choose to continue it. -/
def bothContinue : List Action :=
  [.createFromMutualLike 7 1 2 0 0,
    .recordContinuation 7 1 none 1 (.constant (hours 30)) 20,
    .recordContinuation 7 2 none 1 (.constant (hours 31)) 21]

theorem Action.enabled_recordContinuation {w : World} {matchId userId : Uuid}
    {legal : Option LegalConfig} {cost t : ℤ} {sourceId : Uuid} (h : w.clock ≤ t) :
    (Action.recordContinuation matchId userId legal cost (.constant t) sourceId).Enabled w where
  ordered := RecordClock.ordered_constant t
  start span hspan := by
    obtain rfl := Option.some.inj hspan
    exact ⟨h, le_rfl⟩
  captured := nofun
  fresh := nofun

theorem initial_pairWorld : Initial pairWorld := ⟨rfl, rfl, rfl, rfl, rfl, rfl, rfl⟩

theorem valid_bothContinue : service.Valid pairWorld bothContinue := by
  refine ⟨?_, ?_, ?_, trivial⟩
  · refine ⟨le_rfl, ?_, nofun, fun _ _ _ _ _ _ ↦ List.not_mem_nil⟩
    intro span hspan
    obtain rfl := Option.some.inj hspan
    exact ⟨le_rfl, le_rfl⟩
  · exact Action.enabled_recordContinuation (by decide)
  · exact Action.enabled_recordContinuation (by decide)

theorem credit_caps_bothContinue :
    (service.exec pairWorld bothContinue).db.usedCount 1 (-3) = 1 ∧
      (service.exec pairWorld bothContinue).db.usedCount 1 (-3) ≤ 5 :=
  ⟨by decide +kernel,
    (credit_caps (service.exec pairWorld bothContinue)
      ⟨pairWorld, bothContinue, initial_pairWorld, valid_bothContinue, rfl⟩ 1 (-3)).2.1⟩

end Histae.Matches
