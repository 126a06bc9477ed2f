import Histae.Matches.Access

/-!
# Continuation credits

The wallet operations of `src/matches/pg/credits.rs`. A quota counts the
reservations whose match still awaits a decision; a reservation is paid for
only when its match is confirmed, so `debit` is the one operation that spends.
-/

namespace Histae.Matches

open Relational

/-- The match of the reservation awaits a decision and has not expired. -/
def Db.live (db : Db) (now : ℤ) (r : Reservation) : Bool :=
  (db.matchInit.find? r.matchId).any fun m ↦
    m.status = .awaitingContinuation && decide (now < m.expiresAt)

def countsAsReserved (week : ℤ) (r : Reservation) : Bool :=
  r.source ≠ .premium && (r.source ≠ .advertising || r.weekStart = week)

def countsAs (source : Source) (week : ℤ) (r : Reservation) : Bool :=
  r.source = source && r.weekStart = week

def Db.liveCount (db : Db) (userId : Uuid) (now : ℤ) (p : Reservation → Bool) : ℕ :=
  db.reservations.count fun r ↦ r.userId = userId && db.live now r && p r

def Db.reserved (db : Db) (userId : Uuid) (now : ℤ) : ℕ :=
  db.liveCount userId now (countsAsReserved (startOfUtcWeek now))

/-- The advertising balance of a week: what the wallet holds for it. -/
def Db.balance (db : Db) (userId : Uuid) (week : ℤ) : ℕ :=
  (((db.wallets.find? userId).filter fun w ↦ w.weekStart = week).map
    Wallet.advertisingCredits).getD 0

def quotaOn (db : Db) (userId : Uuid) (now : ℤ) : ContinuationQuota :=
  let plan := db.effectivePlanOn userId
  let week := startOfUtcWeek now
  let used : ℤ := db.usedCount userId week
  let balance : ℤ := db.balance userId week
  let reserved : ℤ := db.reserved userId now
  match plan.weeklyCredits with
  | none =>
      { plan := plan.plan, used := 0, weeklyLimit := none, remaining := none
        weeklyCredits := 0, freeRemaining := 0, advertisingBalance := balance
        advertisingRemaining := 0, reserved, advertisingStockLimit }
  | some included =>
      let included := min (included : ℤ) freeWeeklyCredits
      let freeRemaining := max (included - db.freeUsedCount userId week -
        db.liveCount userId now (countsAs .free week)) 0
      let advertisingRemaining :=
        max (balance - db.liveCount userId now (countsAs .advertising week)) 0
      { plan := plan.plan, used, weeklyLimit := some freeWeeklyContinuationLimit
        remaining := some (min (freeRemaining + advertisingRemaining)
          (max (freeWeeklyContinuationLimit - used - reserved) 0))
        weeklyCredits := included, freeRemaining, advertisingBalance := balance
        advertisingRemaining, reserved, advertisingStockLimit }

/-- The source a new reservation would take; `none` when the quota is used up. -/
def reservationSource (quota : ContinuationQuota) : Option Source :=
  if quota.weeklyLimit.isNone then some .premium
  else if quota.remaining.getD 0 = 0 then none
  else if 0 < quota.freeRemaining then some .free
  else some .advertising

def reserve (db : Db) (matchId userId : Uuid) (now : ℤ) :
    Except MatchStoreError (Bool × Db) :=
  match reservationSource (quotaOn db userId now) with
  | none => .ok (false, db)
  | some source =>
      match db.reservations.insert? ⟨matchId, userId, source, startOfUtcWeek now⟩ with
      | none => .error (.database (.constraint .unique))
      | some reservations => .ok (true, { db with reservations })

def Usage.use (u : Usage) : Usage := { u with usedCount := u.usedCount + 1 }

def Usage.useFree (u : Usage) : Usage := { u with freeUsedCount := u.freeUsedCount + 1 }

theorem Usage.key_use (u : Usage) : u.use.key = u.key := rfl

theorem Usage.key_useFree (u : Usage) : u.useFree.key = u.key := rfl

def countUse (db : Db) (userId : Uuid) (week : ℤ) : Db :=
  { db with usage := db.usage.upsert ⟨userId, week, 1, 0⟩ Usage.use Usage.key_use }

def countFreeUse (db : Db) (userId : Uuid) (week : ℤ) : Db :=
  { db with usage := db.usage.upsert ⟨userId, week, 0, 1⟩ Usage.useFree Usage.key_useFree }

def Wallet.spend (w : Wallet) : Wallet := { w with advertisingCredits := w.advertisingCredits - 1 }

theorem Wallet.userId_spend (w : Wallet) : w.spend.userId = w.userId := rfl

/-- One credit less in the wallet of `week`; `none` when no row is decremented. -/
def spendAdvertisingCredit (db : Db) (userId : Uuid) (week : ℤ) : Option Db :=
  if (db.wallets.find? userId).any fun w ↦ w.weekStart = week && 0 < w.advertisingCredits then
    some { db with
      wallets := db.wallets.modify
        (fun w ↦ w.userId = userId && w.weekStart = week && 0 < w.advertisingCredits)
        Wallet.spend Wallet.userId_spend }
  else none

def debit (db : Db) (userId : Uuid) (source : Source) (reservedWeek now : ℤ) :
    Except MatchStoreError Db :=
  match source with
  | .premium => .ok db
  | .free => .ok (countFreeUse (countUse db userId (startOfUtcWeek now)) userId reservedWeek)
  | .advertising =>
      match spendAdvertisingCredit (countUse db userId (startOfUtcWeek now)) userId
        reservedWeek with
      | none => .error (.database .queryFailed)
      | some db => .ok db

def Wallet.credit (week : ℤ) (w : Wallet) : Wallet :=
  { w with
    advertisingCredits := if w.weekStart = week then w.advertisingCredits + 1 else 1
    weekStart := week }

theorem Wallet.userId_credit (week : ℤ) (w : Wallet) : (w.credit week).userId = w.userId := rfl

/-- The caller holds the wallet lock and has verified the reward proof. -/
def grantAdvertisingCredit (db : Db) (userId : Uuid) (now : ℤ) : Bool × Db :=
  let week := startOfUtcWeek now
  if (db.wallets.find? userId).all fun w ↦ w.weekStart < week ||
      (w.weekStart = week && (w.advertisingCredits : ℤ) < advertisingStockLimit) then
    (true, { db with
      wallets := db.wallets.upsert ⟨userId, 1, week⟩ (Wallet.credit week)
        (Wallet.userId_credit week) })
  else (false, db)

section Usage

variable (db : Db) (userId : Uuid) (week : ℤ)

theorem find?_usage_countUse (v : Uuid) (w : ℤ) :
    (countUse db userId week).usage.find? (v, w) =
      if (v, w) = (userId, week) then
        some (((db.usage.find? (v, w)).map Usage.use).getD ⟨userId, week, 1, 0⟩)
      else db.usage.find? (v, w) := Table.find?_upsert Usage.key_use

theorem find?_usage_countFreeUse (v : Uuid) (w : ℤ) :
    (countFreeUse db userId week).usage.find? (v, w) =
      if (v, w) = (userId, week) then
        some (((db.usage.find? (v, w)).map Usage.useFree).getD ⟨userId, week, 0, 1⟩)
      else db.usage.find? (v, w) := Table.find?_upsert Usage.key_useFree

theorem usedCount_countUse (v : Uuid) (w : ℤ) :
    (countUse db userId week).usedCount v w =
      db.usedCount v w + if v = userId ∧ w = week then 1 else 0 := by
  rw [Db.usedCount, find?_usage_countUse, Db.usedCount]
  simp only [Prod.mk.injEq]
  split
  · cases db.usage.find? (v, w) <;> simp [Usage.use]
  · simp

theorem freeUsedCount_countUse (v : Uuid) (w : ℤ) :
    (countUse db userId week).freeUsedCount v w = db.freeUsedCount v w := by
  rw [Db.freeUsedCount, find?_usage_countUse, Db.freeUsedCount]
  split
  · cases db.usage.find? (v, w) <;> simp [Usage.use]
  · rfl

theorem usedCount_countFreeUse (v : Uuid) (w : ℤ) :
    (countFreeUse db userId week).usedCount v w = db.usedCount v w := by
  rw [Db.usedCount, find?_usage_countFreeUse, Db.usedCount]
  split
  · cases db.usage.find? (v, w) <;> simp [Usage.useFree]
  · rfl

theorem freeUsedCount_countFreeUse (v : Uuid) (w : ℤ) :
    (countFreeUse db userId week).freeUsedCount v w =
      db.freeUsedCount v w + if v = userId ∧ w = week then 1 else 0 := by
  rw [Db.freeUsedCount, find?_usage_countFreeUse, Db.freeUsedCount]
  simp only [Prod.mk.injEq]
  split
  · cases db.usage.find? (v, w) <;> simp [Usage.useFree]
  · simp

end Usage

section Debit

variable {db db' : Db} {u v : Uuid} {source : Source} {week now : ℤ}

/-- What a user paid for one reservation. -/
structure Charged (db : Db) (u : Uuid) (source : Source) (week now : ℤ) (db' : Db) : Prop where
  used : ∀ w, db'.usedCount u w =
    db.usedCount u w + if source ≠ .premium ∧ w = startOfUtcWeek now then 1 else 0
  free : ∀ w, db'.freeUsedCount u w =
    db.freeUsedCount u w + if source = .free ∧ w = week then 1 else 0
  wallet : source ≠ .advertising → db'.wallets.find? u = db.wallets.find? u
  stock : source = .advertising → ∃ wallet, db.wallets.find? u = some wallet ∧
    wallet.weekStart = week ∧ 0 < wallet.advertisingCredits ∧
    db'.wallets.find? u = some wallet.spend

/-- The credits of a user are as they were. -/
structure Untouched (db : Db) (u : Uuid) (db' : Db) : Prop where
  used : ∀ w, db'.usedCount u w = db.usedCount u w
  free : ∀ w, db'.freeUsedCount u w = db.freeUsedCount u w
  wallet : db'.wallets.find? u = db.wallets.find? u

theorem Untouched.of_eq (husage : db'.usage = db.usage) (hwallets : db'.wallets = db.wallets) :
    Untouched db u db' := by
  refine ⟨fun w ↦ ?_, fun w ↦ ?_, by rw [hwallets]⟩
  · rw [Db.usedCount, husage, Db.usedCount]
  · rw [Db.freeUsedCount, husage, Db.freeUsedCount]

theorem Untouched.trans {db'' : Db} (h : Untouched db u db') (h' : Untouched db' u db'') :
    Untouched db u db'' :=
  ⟨fun w ↦ (h'.used w).trans (h.used w), fun w ↦ (h'.free w).trans (h.free w),
    h'.wallet.trans h.wallet⟩

theorem Charged.trans_untouched {db'' : Db} (h : Charged db u source week now db')
    (h' : Untouched db' u db'') : Charged db u source week now db'' := by
  refine ⟨fun w ↦ (h'.used w).trans (h.used w), fun w ↦ (h'.free w).trans (h.free w),
    fun hne ↦ h'.wallet.trans (h.wallet hne), fun hsource ↦ ?_⟩
  obtain ⟨wallet, hfind, hweek, hpos, hafter⟩ := h.stock hsource
  exact ⟨wallet, hfind, hweek, hpos, h'.wallet.trans hafter⟩

theorem Untouched.trans_charged {db'' : Db} (h : Untouched db u db')
    (h' : Charged db' u source week now db'') : Charged db u source week now db'' := by
  refine ⟨fun w ↦ by rw [h'.used, h.used], fun w ↦ by rw [h'.free, h.free],
    fun hne ↦ (h'.wallet hne).trans h.wallet, fun hsource ↦ ?_⟩
  obtain ⟨wallet, hfind, hrest⟩ := h'.stock hsource
  exact ⟨wallet, h.wallet ▸ hfind, hrest⟩

theorem spendAdvertisingCredit_eq_some (h : spendAdvertisingCredit db u week = some db') :
    ∃ wallet wallets, db.wallets.find? u = some wallet ∧ wallet.weekStart = week ∧
      0 < wallet.advertisingCredits ∧ db' = { db with wallets } ∧
      wallets.find? u = some wallet.spend ∧
      ∀ v, v ≠ u → wallets.find? v = db.wallets.find? v := by
  unfold spendAdvertisingCredit at h
  split at h
  · rename_i hany
    obtain ⟨wallet, hfind, hguard⟩ := (Option.any_eq_true _ _).mp hany
    have hguard : wallet.weekStart = week ∧ 0 < wallet.advertisingCredits := by
      simpa using hguard
    have hkey := (Table.find?_eq_some_iff.mp hfind).2
    refine ⟨wallet, _, hfind, hguard.1, hguard.2, (Option.some.inj h).symm, ?_, fun v hv ↦ ?_⟩
    · rw [Table.find?_modify Wallet.userId_spend, hfind]
      simp [hkey, hguard]
    · rw [Table.find?_modify Wallet.userId_spend]
      cases hfind' : db.wallets.find? v with
      | none => rfl
      | some other =>
          have hne : other.userId ≠ u := by
            rw [(Table.find?_eq_some_iff.mp hfind').2]
            exact hv
          simp [hne]
  · cases h

theorem spendAdvertisingCredit_ne_none {wallet : Wallet} (hfind : db.wallets.find? u = some wallet)
    (hweek : wallet.weekStart = week) (hpos : 0 < wallet.advertisingCredits) :
    spendAdvertisingCredit db u week ≠ none := by
  simp [spendAdvertisingCredit, hfind, hweek, hpos]

theorem debit_advertising_eq_ok (h : debit db u .advertising week now = .ok db') :
    spendAdvertisingCredit (countUse db u (startOfUtcWeek now)) u week = some db' := by
  simp only [debit] at h
  split at h
  · cases h
  · rename_i spent hspend
    rw [hspend, Except.ok.inj h]

/-- A debit writes the usage and wallet tables and nothing else. -/
theorem debit_frame (h : debit db u source week now = .ok db') :
    ∃ usage wallets, db' = { db with usage, wallets } := by
  cases source with
  | premium => exact ⟨db.usage, db.wallets, (Except.ok.inj h).symm⟩
  | free => exact ⟨_, db.wallets, (Except.ok.inj h).symm⟩
  | advertising =>
      obtain ⟨_, wallets, _, _, _, rfl, _⟩ :=
        spendAdvertisingCredit_eq_some (debit_advertising_eq_ok h)
      exact ⟨_, wallets, rfl⟩

theorem debit_charged (h : debit db u source week now = .ok db') :
    Charged db u source week now db' := by
  cases source with
  | premium =>
      obtain rfl := Except.ok.inj h
      exact ⟨by simp, by simp, fun _ ↦ rfl, nofun⟩
  | free =>
      obtain rfl := Except.ok.inj h
      refine ⟨fun w ↦ ?_, fun w ↦ ?_, fun _ ↦ rfl, nofun⟩
      · rw [usedCount_countFreeUse, usedCount_countUse]
        simp
      · rw [freeUsedCount_countFreeUse, freeUsedCount_countUse]
        simp
  | advertising =>
      obtain ⟨wallet, wallets, hfind, hweek, hpos, rfl, hspent, _⟩ :=
        spendAdvertisingCredit_eq_some (debit_advertising_eq_ok h)
      refine ⟨fun w ↦ ?_, fun w ↦ ?_, by simp, fun _ ↦ ⟨wallet, hfind, hweek, hpos, hspent⟩⟩
      · refine (usedCount_countUse db u (startOfUtcWeek now) u w).trans ?_
        simp
      · refine (freeUsedCount_countUse db u (startOfUtcWeek now) u w).trans ?_
        simp

theorem debit_untouched (h : debit db u source week now = .ok db') (hv : v ≠ u) :
    Untouched db v db' := by
  cases source with
  | premium =>
      obtain rfl := Except.ok.inj h
      exact .of_eq rfl rfl
  | free =>
      obtain rfl := Except.ok.inj h
      refine ⟨fun w ↦ ?_, fun w ↦ ?_, rfl⟩
      · rw [usedCount_countFreeUse, usedCount_countUse]
        simp [hv]
      · rw [freeUsedCount_countFreeUse, freeUsedCount_countUse]
        simp [hv]
  | advertising =>
      obtain ⟨wallet, wallets, _, _, _, rfl, _, hother⟩ :=
        spendAdvertisingCredit_eq_some (debit_advertising_eq_ok h)
      refine ⟨fun w ↦ ?_, fun w ↦ ?_, hother v hv⟩
      · refine (usedCount_countUse db u (startOfUtcWeek now) v w).trans ?_
        simp [hv]
      · exact freeUsedCount_countUse db u (startOfUtcWeek now) v w

/-- A debit fails only for want of an advertising credit. -/
theorem debit_isOk (h : source = .advertising → ∃ wallet, db.wallets.find? u = some wallet ∧
    wallet.weekStart = week ∧ 0 < wallet.advertisingCredits) :
    ∃ db', debit db u source week now = .ok db' := by
  cases source with
  | premium => exact ⟨db, rfl⟩
  | free => exact ⟨_, rfl⟩
  | advertising =>
      obtain ⟨wallet, hfind, hweek, hpos⟩ := h rfl
      have hfind' : (countUse db u (startOfUtcWeek now)).wallets.find? u = some wallet := hfind
      have hsome := spendAdvertisingCredit_ne_none hfind' hweek hpos
      obtain ⟨spent, hspent⟩ := Option.ne_none_iff_exists'.mp hsome
      exact ⟨spent, by simp only [debit, hspent]⟩

end Debit

section Grant

/-- What a grant does to the wallets, if it does anything. -/
theorem grantAdvertisingCredit_cases (db : Db) (userId : Uuid) (now : ℤ) :
    (grantAdvertisingCredit db userId now).2 = db ∨
      ∃ wallets wallet, (grantAdvertisingCredit db userId now).2 = { db with wallets } ∧
        (∀ v, v ≠ userId → wallets.find? v = db.wallets.find? v) ∧
        wallets.find? userId = some wallet ∧ wallet.weekStart = startOfUtcWeek now ∧
        ((∀ old, db.wallets.find? userId = some old → old.weekStart < startOfUtcWeek now) ∧
            wallet.advertisingCredits = 1 ∨
          ∃ old, db.wallets.find? userId = some old ∧ old.weekStart = startOfUtcWeek now ∧
            (old.advertisingCredits : ℤ) < advertisingStockLimit ∧
            wallet.advertisingCredits = old.advertisingCredits + 1) := by
  unfold grantAdvertisingCredit
  dsimp only
  split
  · rename_i hguard
    have hfind (v : Uuid) : (db.wallets.upsert ⟨userId, 1, startOfUtcWeek now⟩
        (Wallet.credit (startOfUtcWeek now)) (Wallet.userId_credit (startOfUtcWeek now))).find? v =
        if v = userId then some (((db.wallets.find? v).map
          (Wallet.credit (startOfUtcWeek now))).getD ⟨userId, 1, startOfUtcWeek now⟩)
        else db.wallets.find? v := Table.find?_upsert (Wallet.userId_credit (startOfUtcWeek now))
    refine Or.inr ⟨_, _, rfl, fun v hv ↦ ?_, (hfind userId).trans (if_pos rfl), ?_, ?_⟩
    · rw [hfind, if_neg hv]
    · cases db.wallets.find? userId <;> rfl
    · cases hold : db.wallets.find? userId with
      | none => exact Or.inl ⟨fun _ h ↦ (Option.some_ne_none _ h.symm).elim, rfl⟩
      | some old =>
          have hguard : old.weekStart < startOfUtcWeek now ∨
              old.weekStart = startOfUtcWeek now ∧
                (old.advertisingCredits : ℤ) < advertisingStockLimit := by
            simpa [hold] using hguard
          rcases hguard with hlt | ⟨heq, hroom⟩
          · refine Or.inl ⟨fun other hother ↦ Option.some.inj hother ▸ hlt, ?_⟩
            simp [Wallet.credit, hlt.ne]
          · refine Or.inr ⟨old, rfl, heq, hroom, ?_⟩
            simp [Wallet.credit, heq]
  · exact Or.inl rfl

/-- A successful grant credits the wallet of the user, which had room. -/
theorem grantAdvertisingCredit_true {db base : Db} {userId : Uuid} {now : ℤ}
    (h : grantAdvertisingCredit db userId now = (true, base)) :
    ∃ wallets, base = { db with wallets } ∧
      (∀ v, wallets.find? v = if v = userId then some (((db.wallets.find? v).map
          (Wallet.credit (startOfUtcWeek now))).getD ⟨userId, 1, startOfUtcWeek now⟩)
        else db.wallets.find? v) ∧
      ∀ old, db.wallets.find? userId = some old → old.weekStart < startOfUtcWeek now ∨
        old.weekStart = startOfUtcWeek now ∧
          (old.advertisingCredits : ℤ) < advertisingStockLimit := by
  simp only [grantAdvertisingCredit] at h
  split at h
  · rename_i hguard
    obtain ⟨-, rfl⟩ := Prod.mk.inj h
    refine ⟨_, rfl, fun v ↦ Table.find?_upsert (Wallet.userId_credit (startOfUtcWeek now)), ?_⟩
    intro old hold
    simpa [hold] using hguard
  · cases (Prod.mk.inj h).1

/-- A credited wallet differs from what it was. -/
theorem credit_ne {userId : Uuid} {now : ℤ} (before : Option Wallet) :
    some ((before.map (Wallet.credit (startOfUtcWeek now))).getD ⟨userId, 1, startOfUtcWeek now⟩) ≠
      before := by
  cases before with
  | none => exact Option.some_ne_none _
  | some old =>
      intro heq
      have hwallet : old.credit (startOfUtcWeek now) = old := Option.some.inj heq
      have hweek : startOfUtcWeek now = old.weekStart := congrArg Wallet.weekStart hwallet
      have hcredits := congrArg Wallet.advertisingCredits hwallet
      simp only [Wallet.credit, ← hweek, if_true] at hcredits
      omega

theorem grantAdvertisingCredit_frame (db : Db) (userId : Uuid) (now : ℤ) :
    ∃ wallets, (grantAdvertisingCredit db userId now).2 = { db with wallets } := by
  rcases grantAdvertisingCredit_cases db userId now with hsame | ⟨wallets, _, hsame, _⟩
  · exact ⟨db.wallets, hsame⟩
  · exact ⟨wallets, hsame⟩

end Grant

end Histae.Matches
