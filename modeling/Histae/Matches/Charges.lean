import Histae.Matches.Continuation

/-!
# What a confirmation charges

The reservations of a match name each participant once, the validated charges
follow them one by one, and the debits of distinct participants do not disturb
each other. Together these facts say what each user pays when a match is
confirmed.
-/

namespace Histae.Matches

open Relational

section Reservations

variable {db : Db} {matchId : Uuid} {r : Reservation}

theorem mem_reservationsOf : r ∈ db.reservationsOf matchId ↔ r ∈ db.reservations ∧ r.matchId = matchId := by
  rw [Db.reservationsOf, (List.perm_insertionSort _ _).mem_iff, Table.mem_select]
  simp

theorem nodup_reservationsOf (db : Db) (matchId : Uuid) :
    ((db.reservationsOf matchId).map Reservation.userId).Nodup := by
  have hperm : ((db.reservationsOf matchId).map Reservation.userId).Perm
      ((db.reservations.select fun r ↦ r.matchId = matchId).map Reservation.userId) :=
    (List.perm_insertionSort _ _).map _
  rw [hperm.nodup_iff]
  have hkeys : ((db.reservations.select fun r ↦ r.matchId = matchId).map Reservation.key).Nodup :=
    db.reservations.nodup.sublist (List.filter_sublist.map _)
  refine List.Nodup.of_map (fun u ↦ (matchId, u)) ?_
  rw [List.map_map]
  have hcongr : ((db.reservations.select fun r ↦ r.matchId = matchId).map
      ((fun u ↦ (matchId, u)) ∘ Reservation.userId)) =
      (db.reservations.select fun r ↦ r.matchId = matchId).map Reservation.key := by
    apply List.map_congr_left
    intro r hr
    have hmatch : r.matchId = matchId := by simpa using (Table.mem_select.mp hr).2
    simp [Reservation.key, hmatch]
  rw [hcongr]
  exact hkeys

end Reservations

section Validation

variable {db : Db} {now : ℤ}

/-- The charge that follows from a valid reservation. -/
structure ChargeOf (db : Db) (now : ℤ) (r : Reservation) (c : Charge) : Prop where
  participant : c.participant = r.userId
  week : c.week = r.weekStart
  current : r.source = .advertising → r.weekStart = startOfUtcWeek now
  source : (db.effectivePlanOn r.userId).weeklyCredits = none ∧ c.source = .premium ∨
    (db.effectivePlanOn r.userId).weeklyCredits.isSome ∧ c.source = r.source ∧
      r.source ≠ .premium

theorem quotaOn_weeklyLimit (db : Db) (userId : Uuid) (now : ℤ) :
    (quotaOn db userId now).weeklyLimit.isNone =
      (db.effectivePlanOn userId).weeklyCredits.isNone := by
  simp only [quotaOn]
  split <;> simp_all

theorem validateCharges_eq_ok {rs : List Reservation} {cs : List Charge}
    (h : validateCharges db now rs = .ok cs) : List.Forall₂ (ChargeOf db now) rs cs := by
  induction rs generalizing cs with
  | nil =>
      obtain rfl := Except.ok.inj h
      exact .nil
  | cons r rest ih =>
      unfold validateCharges at h
      split at h
      · cases h
      rename_i hfresh
      have hcurrent : r.source = .advertising → r.weekStart = startOfUtcWeek now := by
        intro hsource
        by_contra hne
        exact hfresh ⟨hsource, hne⟩
      dsimp only at h
      have hlimit := quotaOn_weeklyLimit db r.userId now
      split at h
      · rename_i hunlimited
        cases hrest : validateCharges db now rest with
        | error participant => rw [hrest] at h; cases h
        | ok tail =>
            rw [hrest] at h
            obtain rfl := Except.ok.inj h
            refine .cons ⟨rfl, rfl, hcurrent, Or.inl ⟨?_, rfl⟩⟩ (ih hrest)
            rw [hlimit] at hunlimited
            exact Option.isNone_iff_eq_none.mp hunlimited
      · rename_i hlimited
        split at h
        · cases h
        rename_i hvalid
        cases hrest : validateCharges db now rest with
        | error participant => rw [hrest] at h; cases h
        | ok tail =>
            rw [hrest] at h
            obtain rfl := Except.ok.inj h
            refine .cons ⟨rfl, rfl, hcurrent, Or.inr ⟨?_, rfl, fun h ↦ hvalid (Or.inl h)⟩⟩
              (ih hrest)
            rw [hlimit] at hlimited
            exact Option.isSome_iff_ne_none.mpr (by simpa using hlimited)

theorem participants_of_validateCharges {rs : List Reservation} {cs : List Charge}
    (h : List.Forall₂ (ChargeOf db now) rs cs) :
    cs.map Charge.participant = rs.map Reservation.userId := by
  induction h with
  | nil => rfl
  | cons hcharge _ ih => rw [List.map_cons, List.map_cons, hcharge.participant, ih]

theorem exists_reservation_of_charge {rs : List Reservation} {cs : List Charge} {c : Charge}
    (h : List.Forall₂ (ChargeOf db now) rs cs) (hc : c ∈ cs) :
    ∃ r ∈ rs, ChargeOf db now r c := by
  induction h with
  | nil => cases hc
  | cons hcharge _ ih =>
      rcases List.mem_cons.mp hc with rfl | hc
      · exact ⟨_, List.mem_cons_self, hcharge⟩
      · obtain ⟨r, hr, hcharge⟩ := ih hc
        exact ⟨r, List.mem_cons_of_mem _ hr, hcharge⟩

theorem exists_charge_of_reservation {rs : List Reservation} {cs : List Charge} {r : Reservation}
    (h : List.Forall₂ (ChargeOf db now) rs cs) (hr : r ∈ rs) :
    ∃ c ∈ cs, ChargeOf db now r c := by
  induction h with
  | nil => cases hr
  | cons hcharge _ ih =>
      rcases List.mem_cons.mp hr with rfl | hr
      · exact ⟨_, List.mem_cons_self, hcharge⟩
      · obtain ⟨c, hc, hcharge⟩ := ih hr
        exact ⟨c, List.mem_cons_of_mem _ hc, hcharge⟩

end Validation

section Debits

variable {db db' : Db} {now : ℤ} {cs : List Charge}

theorem debitAll_cons_eq_ok {c : Charge} (h : debitAll now (c :: cs) db = .ok db') :
    ∃ db₁, debit db c.participant c.source c.week now = .ok db₁ ∧
      debitAll now cs db₁ = .ok db' := by
  simp only [debitAll] at h
  cases hdebit : debit db c.participant c.source c.week now with
  | error error => rw [hdebit] at h; cases h
  | ok db₁ => rw [hdebit] at h; exact ⟨db₁, rfl, h⟩

theorem debitAll_frame (h : debitAll now cs db = .ok db') :
    ∃ usage wallets, db' = { db with usage, wallets } := by
  induction cs generalizing db with
  | nil => exact ⟨db.usage, db.wallets, (Except.ok.inj h).symm⟩
  | cons c cs ih =>
      obtain ⟨db₁, hdebit, hrest⟩ := debitAll_cons_eq_ok h
      obtain ⟨_, _, rfl⟩ := debit_frame hdebit
      obtain ⟨usage, wallets, rfl⟩ := ih hrest
      exact ⟨usage, wallets, rfl⟩

theorem debitAll_untouched {u : Uuid} (h : debitAll now cs db = .ok db')
    (hu : u ∉ cs.map Charge.participant) : Untouched db u db' := by
  induction cs generalizing db with
  | nil =>
      obtain rfl := Except.ok.inj h
      exact .of_eq rfl rfl
  | cons c cs ih =>
      obtain ⟨db₁, hdebit, hrest⟩ := debitAll_cons_eq_ok h
      rw [List.map_cons, List.mem_cons, not_or] at hu
      exact (debit_untouched hdebit hu.1).trans (ih hrest hu.2)

theorem debitAll_charged {c : Charge} (h : debitAll now cs db = .ok db')
    (hnodup : (cs.map Charge.participant).Nodup) (hc : c ∈ cs) :
    Charged db c.participant c.source c.week now db' := by
  induction cs generalizing db with
  | nil => cases hc
  | cons d cs ih =>
      obtain ⟨db₁, hdebit, hrest⟩ := debitAll_cons_eq_ok h
      rw [List.map_cons, List.nodup_cons] at hnodup
      rcases List.mem_cons.mp hc with rfl | hc
      · exact (debit_charged hdebit).trans_untouched (debitAll_untouched hrest hnodup.1)
      · have hne : c.participant ≠ d.participant := by
          intro heq
          exact hnodup.1 (heq ▸ List.mem_map_of_mem hc)
        exact (debit_untouched hdebit hne).trans_charged (ih hrest hnodup.2 hc)

/-- The participant can pay the charge. -/
def Payable (db : Db) (c : Charge) : Prop :=
  c.source = .advertising → ∃ wallet, db.wallets.find? c.participant = some wallet ∧
    wallet.weekStart = c.week ∧ 0 < wallet.advertisingCredits

theorem debitAll_isOk (hnodup : (cs.map Charge.participant).Nodup)
    (hpay : ∀ c ∈ cs, Payable db c) : ∃ db', debitAll now cs db = .ok db' := by
  induction cs generalizing db with
  | nil => exact ⟨db, rfl⟩
  | cons c cs ih =>
      rw [List.map_cons, List.nodup_cons] at hnodup
      obtain ⟨db₁, hdebit⟩ : ∃ db₁, debit db c.participant c.source c.week now = .ok db₁ :=
        debit_isOk (hpay c List.mem_cons_self)
      have hpay' : ∀ d ∈ cs, Payable db₁ d := by
        intro d hd hsource
        have hne : d.participant ≠ c.participant := by
          intro heq
          exact hnodup.1 (heq ▸ List.mem_map_of_mem hd)
        rw [(debit_untouched hdebit hne).wallet]
        exact hpay d (List.mem_cons_of_mem c hd) hsource
      obtain ⟨db', hrest⟩ := ih hnodup.2 hpay'
      refine ⟨db', ?_⟩
      simp only [debitAll, hdebit]
      exact hrest

end Debits

section Stages

variable {db₁ db₂ db₃ : Db} {matchId userId : Uuid} {cost : ℤ} {t : RecordClock}
  {r : Reservation} {m : MatchRecord}

theorem Reserves.matchInit (h : Reserves db₁ matchId userId cost t r db₂) :
    db₂.matchInit = db₁.matchInit := by
  obtain ⟨db₀, reservations, hbase, _, _, rfl⟩ := h.stored
  rcases hbase with rfl | rfl <;> rfl

theorem Reserves.usage (h : Reserves db₁ matchId userId cost t r db₂) :
    db₂.usage = db₁.usage := by
  obtain ⟨db₀, reservations, hbase, _, _, rfl⟩ := h.stored
  rcases hbase with rfl | rfl <;> rfl

theorem Reserves.wallets (h : Reserves db₁ matchId userId cost t r db₂) :
    db₂.wallets = db₁.wallets := by
  obtain ⟨db₀, reservations, hbase, _, _, rfl⟩ := h.stored
  rcases hbase with rfl | rfl <;> rfl

theorem Reserves.plans (h : Reserves db₁ matchId userId cost t r db₂) :
    db₂.plans = db₁.plans := by
  obtain ⟨db₀, reservations, hbase, _, _, rfl⟩ := h.stored
  rcases hbase with rfl | rfl <;> rfl

theorem Reserves.mem_reservations (h : Reserves db₁ matchId userId cost t r db₂)
    {s : Reservation} :
    s ∈ db₂.reservations ↔ s = r ∨ s ∈ db₁.reservations ∧ s.key ≠ (matchId, userId) := by
  obtain ⟨db₀, reservations, hbase, _, hinsert, rfl⟩ := h.stored
  have hkey : r.key = (matchId, userId) := by rw [h.row]; rfl
  refine (Table.mem_insert hinsert).trans (or_congr_right ?_)
  rcases hbase with rfl | rfl
  · refine ⟨fun hs ↦ ⟨hs, ?_⟩, fun hs ↦ hs.1⟩
    have hnone := (Table.insert?_eq_some_iff.mp hinsert).1
    rw [hkey] at hnone
    exact Table.find?_eq_none_iff.mp hnone s hs
  · change s ∈ db₁.reservations.delete _ ↔ _
    rw [Table.mem_delete]
    simp

def MatchRecord.confirmedAt (trigger : ℤ) (m : MatchRecord) : MatchRecord :=
  { m with
    status := .confirmed
    purgeAfter := none
    expiresAt := trigger + days matchInactivityDays }

theorem trackMatchInactivity_confirmedAt {trigger : ℤ} {m : MatchRecord}
    (h : m.status ≠ .confirmed) :
    trackMatchInactivity trigger m { m with status := .confirmed, purgeAfter := none } =
      m.confirmedAt trigger := by
  simp [trackMatchInactivity, h, MatchRecord.confirmedAt]

theorem sameLedger_confirmedDb (db₃ : Db) (m : MatchRecord) (matchId : Uuid) (t : RecordClock) :
    SameLedger (deleteReservations (confirmMatch db₃ matchId t.guard t.trigger) matchId)
      (confirmedDb db₃ m matchId t) := by
  have hnotices : SameLedger (confirmMatch db₃ matchId t.guard t.trigger) _ :=
    (sameLedger_enqueueNotification _ t.trigger m.user1Id (.id matchId)
      (.conversationContinued matchId)).trans
      (sameLedger_enqueueNotification _ t.trigger m.user2Id (.id matchId)
        (.conversationContinued matchId))
  refine ⟨hnotices.matchInit, ?_, hnotices.usage, hnotices.wallets⟩
  exact congrArg (fun table ↦ Table.delete table fun r ↦ r.matchId = matchId)
    hnotices.reservations

theorem mem_confirmedDb_reservations {r : Reservation} :
    r ∈ (confirmedDb db₃ m matchId t).reservations ↔
      r ∈ db₃.reservations ∧ r.matchId ≠ matchId := by
  rw [(sameLedger_confirmedDb db₃ m matchId t).reservations]
  refine Table.mem_delete.trans (and_congr Iff.rfl ?_)
  simp

theorem mem_confirmMatch {db : Db} {guard trigger : ℤ} {n : MatchRecord} :
    n ∈ (confirmMatch db matchId guard trigger).matchInit ↔ ∃ k ∈ db.matchInit,
      n = if k.id = matchId && decide (guard < k.expiresAt) then
        trackMatchInactivity trigger k { k with status := .confirmed, purgeAfter := none }
      else k := by
  have hid : ∀ k : MatchRecord,
      { k with status := .confirmed, purgeAfter := none }.id = k.id := fun _ ↦ rfl
  exact mem_updateMatch hid

theorem confirmedAt_mem_confirmMatch {db : Db} {guard trigger : ℤ} {n : MatchRecord}
    (hn : n ∈ db.matchInit) (hid : n.id = matchId) (hguard : guard < n.expiresAt)
    (hstatus : n.status ≠ .confirmed) :
    n.confirmedAt trigger ∈ (confirmMatch db matchId guard trigger).matchInit := by
  have hp : (n.id = matchId && decide (guard < n.expiresAt)) = true := by simp [hid, hguard]
  refine mem_confirmMatch.mpr ⟨n, hn, ?_⟩
  rw [if_pos hp, trackMatchInactivity_confirmedAt hstatus]

theorem mem_confirmedDb_matchInit {n : MatchRecord} (hne : n.id ≠ matchId) :
    n ∈ (confirmedDb db₃ m matchId t).matchInit ↔ n ∈ db₃.matchInit := by
  rw [(sameLedger_confirmedDb db₃ m matchId t).matchInit]
  refine mem_confirmMatch.trans ⟨?_, fun hn ↦ ⟨n, hn, by simp [hne]⟩⟩
  rintro ⟨k, hk, rfl⟩
  split
  · rename_i hp
    simp only [hp, if_true, trackMatchInactivity_id] at hne
    simp only [Bool.and_eq_true, decide_eq_true_eq] at hp
    exact absurd hp.1 hne
  · exact hk

theorem Confirms.matchInit {charges : List Charge} (h : Confirms db₂ matchId t charges db₃) :
    db₃.matchInit = db₂.matchInit := by
  obtain ⟨_, _, rfl⟩ := debitAll_frame h.paid
  rfl

theorem Confirms.reservations {charges : List Charge} (h : Confirms db₂ matchId t charges db₃) :
    db₃.reservations = db₂.reservations := by
  obtain ⟨_, _, rfl⟩ := debitAll_frame h.paid
  rfl

/-- The rows after a confirmation: the decided match and the others. -/
theorem mem_confirmedDb_cases {charges : List Charge} (h : Confirms db₂ matchId t charges db₃)
    (hm : m ∈ db₂.matchInit) (hid : m.id = matchId) (hstatus : m.status ≠ .confirmed)
    {n : MatchRecord} (hn : n ∈ (confirmedDb db₃ m matchId t).matchInit) :
    n = m.confirmedAt t.trigger ∧ t.guard < m.expiresAt ∨
      n ∈ db₂.matchInit ∧ n.id ≠ matchId := by
  by_cases hne : n.id = matchId
  · left
    rw [(sameLedger_confirmedDb db₃ m matchId t).matchInit] at hn
    obtain ⟨k, hk, rfl⟩ := mem_confirmMatch.mp hn
    have hkid : k.id = matchId := by
      split at hne
      · rwa [trackMatchInactivity_id] at hne
      · exact hne
    obtain rfl : k = m := by
      rw [h.matchInit] at hk
      exact Table.eq_of_key_eq hk hm (hkid.trans hid.symm)
    obtain ⟨m', hfind, hguard⟩ := h.inTime
    obtain ⟨hm', hid'⟩ := Table.find?_eq_some_iff.mp hfind
    obtain rfl : m' = k := by
      rw [h.matchInit] at hm'
      exact Table.eq_of_key_eq hm' hm (hid'.trans hid.symm)
    have hp : (m'.id = matchId && decide (t.guard < m'.expiresAt)) = true := by
      simp [hid, hguard]
    rw [if_pos hp, trackMatchInactivity_confirmedAt hstatus]
    exact ⟨rfl, hguard⟩
  · right
    rw [mem_confirmedDb_matchInit hne, h.matchInit] at hn
    exact ⟨hn, hne⟩

end Stages

end Histae.Matches
