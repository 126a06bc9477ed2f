import Histae.Advertising.Settlement
import Histae.Matches.Charges
import Histae.Matches.Lifecycle

/-!
# The stock slot of an open intent

A wallet holds at most three credits of a week. A creation is refused while the
wallet is full or an open intent could still be credited, so that the intent
finds room when its proof arrives. The two ends of the late interval do not
meet: at the very instant a day after the expiry, the proof is still accepted
and a second intent is created.

The transactions of a user follow one another under the lock of the wallet;
`record` is the one that spends credits.
-/

namespace Histae.Advertising

open Relational Systems Matches

section Wallets

variable {db db' db'' : Db}

/-- Every wallet has the week it had, and no more credits. -/
def Spends (db db' : Db) : Prop :=
  ∀ u wallet', db'.wallets.find? u = some wallet' → ∃ wallet, db.wallets.find? u = some wallet ∧
    wallet.weekStart = wallet'.weekStart ∧ wallet'.advertisingCredits ≤ wallet.advertisingCredits

theorem Spends.of_eq (h : db'.wallets = db.wallets) : Spends db db' := by
  intro u wallet hwallet
  rw [h] at hwallet
  exact ⟨wallet, hwallet, rfl, le_rfl⟩

theorem Spends.trans (h : Spends db db') (h' : Spends db' db'') : Spends db db'' := by
  intro u wallet'' hwallet''
  obtain ⟨wallet', hwallet', hweek', hcredits'⟩ := h' u wallet'' hwallet''
  obtain ⟨wallet, hwallet, hweek, hcredits⟩ := h u wallet' hwallet'
  exact ⟨wallet, hwallet, hweek.trans hweek', hcredits'.trans hcredits⟩

theorem spends_debit {user : Uuid} {source : Source} {week now : ℤ}
    (h : debit db user source week now = .ok db') : Spends db db' := by
  intro u wallet' hwallet'
  by_cases hu : u = user
  · subst hu
    have hcharged := debit_charged h
    by_cases hsource : source = .advertising
    · obtain ⟨wallet, hwallet, -, -, hspent⟩ := hcharged.stock hsource
      obtain rfl := Option.some.inj (hspent.symm.trans hwallet')
      exact ⟨wallet, hwallet, rfl, Nat.sub_le _ _⟩
    · rw [hcharged.wallet hsource] at hwallet'
      exact ⟨wallet', hwallet', rfl, le_rfl⟩
  · rw [(debit_untouched h hu).wallet] at hwallet'
    exact ⟨wallet', hwallet', rfl, le_rfl⟩

theorem spends_debitAll {now : ℤ} {charges : List Charge}
    (h : debitAll now charges db = .ok db') : Spends db db' := by
  induction charges generalizing db with
  | nil => exact Spends.of_eq (congrArg Db.wallets (Except.ok.inj h).symm)
  | cons c charges ih =>
      obtain ⟨db₁, hdebit, hrest⟩ := debitAll_cons_eq_ok h
      exact (spends_debit hdebit).trans (ih hrest)

theorem lockOutcome_wallets {matchId userId : Uuid} {now : ℤ}
    {result : MatchCommandResult MatchRecord}
    (h : LockOutcome db matchId userId now result db') : db'.wallets = db.wallets := by
  cases h <;> rfl

theorem lock_wallets {matchId userId : Uuid} {now : ℤ} {result : MatchCommandResult MatchRecord}
    (h : lockAvailableMatch db matchId userId now = (result, db')) :
    db'.wallets = db.wallets := by
  have houtcome := lockAvailableMatch_outcome db matchId userId now
  rw [h] at houtcome
  exact lockOutcome_wallets houtcome

/-- A recorded choice spends credits, and grants none. -/
theorem spends_record {matchId userId : Uuid} {legal : Option LegalConfig} {cost : ℤ}
    {t : RecordClock} {sourceId : Uuid} {result : ContinuationResult}
    (h : record db matchId userId legal cost t sourceId = .ok (result, db')) : Spends db db' := by
  cases record_outcome h with
  | unavailable reason db₁ result hlock => exact Spends.of_eq (lock_wallets hlock)
  | kept m db₁ result hlock => exact Spends.of_eq (lock_wallets hlock)
  | late m db₁ hdeciding =>
      have hlock := lock_wallets hdeciding.lock
      exact Spends.of_eq hlock
  | cleared m db₁ result hdeciding =>
      have hlock := lock_wallets hdeciding.lock
      exact Spends.of_eq hlock
  | waiting m db₁ r db₂ source hdeciding hopen hreserves =>
      have hbefore : db₂.wallets = db.wallets :=
        hreserves.wallets.trans (lock_wallets hdeciding.lock)
      exact Spends.of_eq ((sameLedger_notifyWaiting ..).wallets.trans hbefore)
  | released m db₁ r db₂ participant source hdeciding hopen hreserves =>
      have hbefore : db₂.wallets = db.wallets :=
        hreserves.wallets.trans (lock_wallets hdeciding.lock)
      exact Spends.of_eq ((sameLedger_notifyWaiting ..).wallets.trans hbefore)
  | confirmed m db₁ r db₂ charges db₃ hdeciding hopen hreserves hconfirms =>
      have hbefore : db₂.wallets = db.wallets :=
        hreserves.wallets.trans (lock_wallets hdeciding.lock)
      refine (Spends.of_eq hbefore).trans ((spends_debitAll hconfirms.paid).trans (Spends.of_eq ?_))
      exact (sameLedger_confirmedDb db₃ m matchId t).wallets

/-- A wallet of the week with room, or of an earlier week, takes a credit. -/
theorem grant_of_room {u : Uuid} {now : ℤ}
    (hweek : ∀ wallet, db.wallets.find? u = some wallet → wallet.weekStart ≤ startOfUtcWeek now)
    (hroom : (db.balance u (startOfUtcWeek now) : ℤ) < advertisingStockLimit) :
    ∃ base, grantAdvertisingCredit db u now = (true, base) := by
  have hguard : ((db.wallets.find? u).all fun w ↦ w.weekStart < startOfUtcWeek now ||
      (w.weekStart = startOfUtcWeek now &&
        (w.advertisingCredits : ℤ) < advertisingStockLimit)) = true := by
    cases hwallet : db.wallets.find? u with
    | none => rfl
    | some wallet =>
        have hle := hweek wallet hwallet
        rcases hle.lt_or_eq with hlt | heq
        · simp [hlt]
        · simp only [Db.balance, hwallet, Option.filter, heq, decide_true, if_true,
            Option.map_some, Option.getD_some] at hroom
          simp [heq, hroom]
  unfold grantAdvertisingCredit
  dsimp only
  rw [if_pos hguard]
  exact ⟨_, rfl⟩

theorem balance_eq_zero {u : Uuid} {week : ℤ}
    (h : ∀ wallet, db.wallets.find? u = some wallet → wallet.weekStart ≠ week) :
    db.balance u week = 0 := by
  unfold Db.balance
  cases hwallet : db.wallets.find? u with
  | none => rfl
  | some wallet => simp [Option.filter, h wallet hwallet]

theorem Spends.balance_le (h : Spends db db') (u : Uuid) (week : ℤ) :
    db'.balance u week ≤ db.balance u week := by
  unfold Db.balance
  cases hwallet' : db'.wallets.find? u with
  | none => exact Nat.zero_le _
  | some wallet' =>
      obtain ⟨wallet, hwallet, hweek, hcredits⟩ := h u wallet' hwallet'
      rw [hwallet]
      by_cases heq : wallet'.weekStart = week
      · simp [Option.filter, hweek, heq, hcredits]
      · simp [Option.filter, heq]

end Wallets

section Slots

def Intent.IsOpen (row : Intent) : Prop := row.completedAt = none ∧ row.cancelledAt = none

/-- A proof of the intent could still be credited at an instant. -/
def Intent.Creditable (row : Intent) (now : ℤ) : Prop :=
  now ≤ row.expiresAt + hours 24 ∧ days (startOfUtcWeek now) ≤ row.expiresAt

theorem days_mono {m n : ℤ} (h : m ≤ n) : days m ≤ days n := by
  unfold days
  omega

theorem Intent.Creditable.of_le {row : Intent} {now now' : ℤ} (h : row.Creditable now')
    (hle : now ≤ now') : row.Creditable now :=
  ⟨hle.trans h.1, (days_mono (startOfUtcWeek_mono hle)).trans h.2⟩

/-- The week of an instant has begun. -/
theorem days_startOfUtcWeek_le (now : ℤ) : days (startOfUtcWeek now) ≤ now := by
  unfold startOfUtcWeek numDaysFromMonday dateNaive days
  omega

/-- At most one open intent of a user can still be credited, and it finds
room. -/
structure SlotInvariant (db : RewardDb) (now : ℤ) : Prop where
  weeks : ∀ u wallet, db.base.wallets.find? u = some wallet → wallet.weekStart ≤ startOfUtcWeek now
  hashed : ∀ i ∈ db.intents, i.transactionHash = none → i.completedAt = none
  alone : ∀ i ∈ db.intents, ∀ j ∈ db.intents, i.IsOpen → j.IsOpen → i.userId = j.userId →
    i.Creditable now → j.Creditable now → i = j
  room : ∀ i ∈ db.intents, i.IsOpen → i.Creditable now →
    (db.base.balance i.userId (startOfUtcWeek now) : ℤ) < advertisingStockLimit

namespace SlotInvariant

variable {db db' : RewardDb} {now now' : ℤ}

theorem mono (h : SlotInvariant db now) (hle : now ≤ now') : SlotInvariant db now' := by
  have hweek := startOfUtcWeek_mono hle
  refine ⟨fun u wallet hwallet ↦ (h.weeks u wallet hwallet).trans hweek, h.hashed, ?_, ?_⟩
  · intro i hi j hj hiopen hjopen huser hicred hjcred
    exact h.alone i hi j hj hiopen hjopen huser (hicred.of_le hle) (hjcred.of_le hle)
  · intro i hi hiopen hicred
    rcases hweek.lt_or_eq with hlt | heq
    · have hzero : db.base.balance i.userId (startOfUtcWeek now') = 0 := by
        refine balance_eq_zero fun wallet hwallet heq ↦ ?_
        have hle := h.weeks i.userId wallet hwallet
        omega
      rw [hzero]
      decide
    · rw [← heq]
      exact h.room i hi hiopen (hicred.of_le hle)

theorem of_spends (h : SlotInvariant db now) (hspends : Spends db.base db'.base)
    (hintents : db'.intents = db.intents) : SlotInvariant db' now := by
  refine ⟨?_, hintents ▸ h.hashed, hintents ▸ h.alone, ?_⟩
  · intro u wallet' hwallet'
    obtain ⟨wallet, hwallet, hweek, -⟩ := hspends u wallet' hwallet'
    exact hweek ▸ h.weeks u wallet hwallet
  · intro i hi hiopen hicred
    have hroom := h.room i (hintents ▸ hi) hiopen hicred
    have hle := hspends.balance_le i.userId (startOfUtcWeek now)
    omega

/-- Closing an intent leaves the slots of the others. -/
theorem of_modify (h : SlotInvariant db now) {id : Uuid} {f : Intent → Intent}
    (hf : ∀ row, (f row).id = row.id) (hclosed : ∀ row, ¬ (f row).IsOpen)
    (hhash : ∀ row, (f row).transactionHash = none → row.transactionHash = none ∧
      (f row).completedAt = row.completedAt) :
    SlotInvariant { db with intents := db.intents.modify (fun row ↦ row.id = id) f hf } now := by
  have hmem : ∀ i ∈ db.intents.modify (fun row ↦ row.id = id) f hf, i.IsOpen → i ∈ db.intents := by
    intro i hi hopen
    obtain ⟨k, hk, rfl⟩ := (Table.mem_modify hf).mp hi
    by_cases hid : k.id = id
    · simp only [hid, decide_true, if_true] at hopen
      exact absurd hopen (hclosed k)
    · simpa [hid] using hk
  refine ⟨h.weeks, ?_, ?_, ?_⟩
  · intro i hi hnone
    obtain ⟨k, hk, rfl⟩ := (Table.mem_modify hf).mp hi
    by_cases hid : k.id = id
    · simp only [hid, decide_true, if_true] at hnone ⊢
      obtain ⟨hk', heq⟩ := hhash k hnone
      rw [heq]
      exact h.hashed k hk hk'
    · simp only [hid, decide_false, Bool.false_eq_true, if_false] at hnone ⊢
      exact h.hashed k hk hnone
  · intro i hi j hj hiopen hjopen
    exact h.alone i (hmem i hi hiopen) j (hmem j hj hjopen) hiopen hjopen
  · intro i hi hiopen
    exact h.room i (hmem i hi hiopen) hiopen

end SlotInvariant

end Slots

section Transactions

variable {digest : String → String} {config : AdvertisingConfig} {db db' : RewardDb}
  {callback : Callback} {now : ℤ}

theorem outstanding_eq_none {userId : Uuid} (h : outstanding db userId now = none) :
    ∀ row ∈ db.intents, row.userId = userId → row.IsOpen → now < row.expiresAt + hours 24 →
      ¬ days (startOfUtcWeek now) ≤ row.expiresAt := by
  intro row hrow huser hopen hlate hweek
  have hselected : row ∈ db.intents.select fun row ↦
      row.userId = userId && row.completedAt.isNone && row.cancelledAt.isNone &&
        decide (now < row.expiresAt + hours 24) &&
        decide (days (startOfUtcWeek now) ≤ row.expiresAt) :=
    Table.mem_select.mpr ⟨hrow, by simp [huser, hopen.1, hopen.2, hlate, hweek]⟩
  unfold outstanding at h
  rw [List.head?_eq_none_iff] at h
  have hsorted := (List.mem_insertionSort fun row other : Intent ↦
    other.createdAt ≤ row.createdAt).mpr hselected
  rw [h] at hsorted
  exact List.not_mem_nil hsorted

/-- What a creation writes, if it writes: an intent of a user whose wallet has
room and whom no outstanding intent holds back. -/
structure CreatesOn (db : RewardDb) (userId : Uuid) (t : CreationClock) (row : Intent) : Prop where
  user : row.userId = userId
  unproven : row.transactionHash = none
  isOpen : row.IsOpen
  alone : outstanding db userId t.now = none
  room : (db.base.balance userId (startOfUtcWeek t.now) : ℤ) < advertisingStockLimit

theorem createOn_cases {id userId : Uuid} {adUnit : String} {legal : LegalConfig}
    {t : CreationClock} {intent : RewardIntent}
    (h : createOn db id userId adUnit legal t = .ok (intent, db')) :
    db' = db ∨ ∃ row intents, CreatesOn db userId t row ∧ db.intents.insert? row = some intents ∧
      db' = { db with intents } := by
  have hbalance : (quotaOn db.base userId t.now).advertisingBalance =
      (db.base.balance userId (startOfUtcWeek t.now) : ℤ) := by
    simp only [quotaOn]
    split <;> rfl
  simp only [createOn] at h
  split at h
  · cases h
  split at h
  · cases h
  split at h
  · cases h
  rename_i hroom
  rw [hbalance, not_le] at hroom
  split at h
  · split at h
    · split at h
      · cases h
      · exact Or.inl (Prod.mk.inj (Except.ok.inj h)).2.symm
    · cases h
  · rename_i halone
    simp only [insertIntent] at h
    split at h
    · cases h
    split at h
    · cases h
    rename_i intents hinsert
    obtain ⟨-, rfl⟩ := Prod.mk.inj (Except.ok.inj h)
    exact Or.inr ⟨_, intents, ⟨rfl, rfl, ⟨rfl, rfl⟩, halone, hroom⟩, hinsert, rfl⟩

theorem create_cases {id userId : Uuid} {platform : RewardPlatform} {legal : LegalConfig}
    {t : CreationClock} {intent : RewardIntent}
    (h : create config db id userId platform legal t = .ok (intent, db')) :
    db' = db ∨ ∃ row intents, CreatesOn db userId t row ∧ db.intents.insert? row = some intents ∧
      db' = { db with intents } := by
  simp only [create] at h
  split at h
  · cases h
  · exact createOn_cases h

/-- No open intent of the user ends its late interval at the instant. -/
def ApartFrom (db : RewardDb) (userId : Uuid) (now : ℤ) : Prop :=
  ∀ row ∈ db.intents, row.userId = userId → row.completedAt = none → row.cancelledAt = none →
    days (startOfUtcWeek now) ≤ row.expiresAt → row.expiresAt + hours 24 ≠ now

instance (db : RewardDb) (userId : Uuid) (now : ℤ) : Decidable (ApartFrom db userId now) :=
  inferInstanceAs (Decidable (∀ row ∈ db.intents, _))

theorem SlotInvariant.created {userId : Uuid} {t : CreationClock} {row : Intent}
    {intents : Table Intent.id} (h : SlotInvariant db t.now) (hapart : ApartFrom db userId t.now)
    (hcreates : CreatesOn db userId t row) (hinsert : db.intents.insert? row = some intents) :
    SlotInvariant { db with intents } t.now := by
  have hfree : ∀ i ∈ db.intents, i.userId = userId → i.IsOpen → ¬ i.Creditable t.now := by
    intro i hi huser hopen hcred
    refine outstanding_eq_none hcreates.alone i hi huser hopen ?_ hcred.2
    exact lt_of_le_of_ne hcred.1 (Ne.symm (hapart i hi huser hopen.1 hopen.2 hcred.2))
  have hmem {i : Intent} : i ∈ intents ↔ i = row ∨ i ∈ db.intents := Table.mem_insert hinsert
  have huser := hcreates.user
  refine ⟨h.weeks, ?_, ?_, ?_⟩
  · intro i hi hnone
    rcases hmem.mp hi with rfl | hi
    · exact hcreates.isOpen.1
    · exact h.hashed i hi hnone
  · intro i hi j hj hiopen hjopen hsame hicred hjcred
    rcases hmem.mp hi with rfl | hi
    · rcases hmem.mp hj with rfl | hj
      · rfl
      · exact absurd hjcred (hfree j hj (hsame.symm.trans huser) hjopen)
    · rcases hmem.mp hj with rfl | hj
      · exact absurd hicred (hfree i hi (hsame.trans huser) hiopen)
      · exact h.alone i hi j hj hiopen hjopen hsame hicred hjcred
  · intro i hi hiopen hicred
    rcases hmem.mp hi with rfl | hi
    · rw [huser]
      exact hcreates.room
    · exact h.room i hi hiopen hicred

/-- An accepted proof of the current week belongs to an intent that can be
credited. -/
theorem judge_creditable {row : Intent} (h : judge digest row callback now = .ok (.accepted true)) :
    row.Creditable now := by
  unfold judge at h
  split at h
  · cases h
  split at h
  · cases h
  split at h
  · split at h <;> cases h
  split at h
  · cases h
  rename_i event hevent
  split at h
  · cases h
  split at h
  · cases h
  rename_i hexpired
  split at h
  · cases h
  split at h
  · cases h
  rename_i hlate
  have hweek : startOfUtcWeek event = startOfUtcWeek now := by simpa using h
  have hbegun := days_startOfUtcWeek_le event
  rw [hweek] at hbegun
  exact ⟨not_lt.mp hlate, hbegun.trans (not_lt.mp hexpired)⟩

theorem lockIntent_accepted {owner : Uuid} {currentWeek : Bool}
    (h : lockIntent digest db owner callback now = .ok (.accepted currentWeek)) :
    ∃ row, db.intents.find? callback.intentId = some row ∧
      judge digest row callback now = .ok (.accepted currentWeek) := by
  unfold lockIntent at h
  split at h
  · cases h
  split at h
  · cases h
  rename_i row hrow
  exact ⟨row, hrow, h⟩

/-- The intent of an accepted proof of the current week finds room. -/
theorem SlotInvariant.room_of_accepted (h : SlotInvariant db now) {row : Intent}
    (hrow : db.intents.find? callback.intentId = some row)
    (hlock : lockIntent digest db row.userId callback now = .ok (.accepted true)) :
    row.IsOpen ∧ row.Creditable now ∧
      (db.base.balance row.userId (startOfUtcWeek now) : ℤ) < advertisingStockLimit := by
  obtain ⟨row', hrow', hjudge⟩ := lockIntent_accepted hlock
  obtain rfl := Option.some.inj (hrow.symm.trans hrow')
  have hmem := (Table.find?_eq_some_iff.mp hrow).1
  obtain ⟨hcancelled, -, hhash⟩ := judge_accepted hjudge
  have hopen : row.IsOpen := ⟨h.hashed row hmem hhash, hcancelled⟩
  have hcred := judge_creditable hjudge
  exact ⟨hopen, hcred, h.room row hmem hopen hcred⟩

theorem judge_ne_stockFull (row : Intent) :
    judge digest row callback now ≠ .error .stockFull := by
  unfold judge
  split
  · simp
  split
  · simp
  split
  · split <;> simp
  split
  · simp
  split
  · simp
  split
  · simp
  split
  · simp
  split <;> simp

theorem lockIntent_ne_stockFull (owner : Uuid) :
    lockIntent digest db owner callback now ≠ .error .stockFull := by
  unfold lockIntent
  split
  · simp
  split
  · simp
  · exact judge_ne_stockFull _

theorem checkReward_ne_stockFull : checkReward config callback ≠ .error .stockFull := by
  unfold checkReward
  split
  · simp
  split
  · simp
  split <;> simp

/-- What a completion does, once its intent is found. -/
theorem complete_cases (h : complete digest config db callback now = .ok db') :
    db' = db ∨ ∃ row currentWeek base, db.intents.find? callback.intentId = some row ∧
      lockIntent digest db row.userId callback now = .ok (.accepted currentWeek) ∧
      db' = ⟨base, settledIntents digest db callback now currentWeek⟩ ∧
      if currentWeek then grantAdvertisingCredit db.base row.userId now = (true, base)
        else base = db.base := by
  unfold complete at h
  split at h
  · cases h
  unfold completeOn at h
  split at h
  · cases h
  rename_i row hrow
  split at h
  · cases h
  · exact Or.inl (Except.ok.inj h).symm
  · rename_i currentWeek hlock
    split at h
    · cases h
    rename_i consumed hconsume
    obtain ⟨-, rfl⟩ := consumeIntent_ok hconsume
    obtain ⟨base, rfl, hbase⟩ := creditOwner_ok h
    exact Or.inr ⟨row, currentWeek, base, hrow, hlock, rfl, hbase⟩

theorem complete_ne_stockFull (h : SlotInvariant db now) :
    complete digest config db callback now ≠ .error .stockFull := by
  intro hfull
  unfold complete at hfull
  split at hfull
  · rename_i error hcheck
    obtain rfl := Except.error.inj hfull
    exact checkReward_ne_stockFull hcheck
  unfold completeOn at hfull
  split at hfull
  · cases hfull
  rename_i row hrow
  split at hfull
  · rename_i error hlock
    obtain rfl := Except.error.inj hfull
    exact lockIntent_ne_stockFull _ hlock
  · cases hfull
  rename_i currentWeek hlock
  split at hfull
  · rename_i error hconsume
    obtain rfl := Except.error.inj hfull
    simp only [consumeIntent] at hconsume
    split at hconsume <;> cases hconsume
  rename_i consumed hconsume
  obtain ⟨-, rfl⟩ := consumeIntent_ok hconsume
  cases currentWeek with
  | false => cases hfull
  | true =>
      obtain ⟨-, -, hroom⟩ := h.room_of_accepted hrow hlock
      obtain ⟨base, hgrant⟩ := grant_of_room (h.weeks row.userId) hroom
      simp [creditOwner, hgrant] at hfull

theorem mem_settledIntents_of_isOpen {currentWeek : Bool} {i : Intent}
    (hi : i ∈ settledIntents digest db callback now currentWeek) (hopen : i.IsOpen) :
    i ∈ db.intents ∧ i.id ≠ callback.intentId := by
  obtain ⟨k, hk, rfl⟩ := (Table.mem_modify (Intent.id_consume _ _ _)).mp hi
  by_cases hid : k.id = callback.intentId
  · simp only [hid, decide_true, if_true] at hopen
    cases hopen.1
  · simp only [hid, decide_false, Bool.false_eq_true, if_false]
    exact ⟨hk, hid⟩

/-- A completion closes its intent, the only one of its user that could be
credited. -/
theorem SlotInvariant.completed (h : SlotInvariant db now)
    (hcomplete : complete digest config db callback now = .ok db') : SlotInvariant db' now := by
  rcases complete_cases hcomplete with rfl | ⟨row, currentWeek, base, hrow, hlock, rfl, hbase⟩
  · exact h
  have hclosed : SlotInvariant
      { db with intents := settledIntents digest db callback now currentWeek } now := by
    refine h.of_modify (Intent.id_consume _ _ _) (fun i hopen ↦ ?_) (fun i hnone ↦ ?_)
    · cases hopen.1
    · cases hnone
  cases currentWeek with
  | false =>
      obtain rfl := hbase
      exact hclosed
  | true =>
      obtain ⟨hopen, hcred, -⟩ := h.room_of_accepted hrow hlock
      obtain ⟨wallets, rfl, hfind, -⟩ := grantAdvertisingCredit_true hbase
      refine ⟨?_, hclosed.hashed, hclosed.alone, ?_⟩
      · intro u wallet hwallet
        have hwallet := (hfind u).symm.trans hwallet
        split at hwallet
        · obtain rfl := Option.some.inj hwallet
          cases db.base.wallets.find? u <;> exact le_rfl
        · exact h.weeks u wallet hwallet
      · intro i hi hiopen hicred
        obtain ⟨hmem, hid⟩ := mem_settledIntents_of_isOpen hi hiopen
        have hne : i.userId ≠ row.userId := by
          intro huser
          obtain ⟨hrowmem, hrowid⟩ := Table.find?_eq_some_iff.mp hrow
          obtain rfl := h.alone i hmem row hrowmem hiopen hopen huser hicred hcred
          exact hid hrowid
        have hbalance : ({ db.base with wallets } : Db).balance i.userId (startOfUtcWeek now) =
            db.base.balance i.userId (startOfUtcWeek now) := by
          simp only [Db.balance]
          rw [hfind, if_neg hne]
        rw [hbalance]
        exact h.room i hmem hiopen hicred

end Transactions

section Runs

variable (digest : String → String) (config : AdvertisingConfig)

inductive StockAction
  | create (id userId : Uuid) (platform : RewardPlatform) (legal : LegalConfig) (t : CreationClock)
  | cancel (userId id : Uuid) (now : ℤ)
  | complete (callback : Callback) (now : ℤ)
  | record (matchId userId : Uuid) (legal : Option LegalConfig) (acknowledgedCost : ℤ)
      (t : RecordClock) (sourceId : Uuid)

structure StockWorld where
  db : RewardDb
  clock : ℤ

/-- The first and the last clock reading of a transaction. -/
def StockAction.span : StockAction → ℤ × ℤ
  | .create _ _ _ _ t => (t.now, t.expires)
  | .cancel _ _ now => (now, now)
  | .complete _ now => (now, now)
  | .record _ _ _ _ t _ => (t.locked, t.trigger)

def StockAction.Ordered : StockAction → Prop
  | .create _ _ _ _ t => t.now ≤ t.created ∧ t.created ≤ t.expires
  | .record _ _ _ _ t _ => t.Ordered
  | _ => True

/-- The tables after a transaction; an error rolls it back. -/
def StockAction.apply (db : RewardDb) : StockAction → RewardDb
  | .create id userId platform legal t =>
      match Advertising.create config db id userId platform legal t with
      | .error _ => db
      | .ok (_, db) => db
  | .cancel userId id now =>
      match cancelOn db userId id now with
      | .error _ => db
      | .ok db => db
  | .complete callback now =>
      match Advertising.complete digest config db callback now with
      | .error _ => db
      | .ok db => db
  | .record matchId userId legal cost t sourceId =>
      match Matches.record db.base matchId userId legal cost t sourceId with
      | .error _ => db
      | .ok (_, base) => { db with base }

def stock : System StockWorld StockAction where
  Enabled w a := w.clock ≤ a.span.1 ∧ a.Ordered
  next w a := ⟨a.apply digest config w.db, a.span.2⟩

/-- No intent yet, and no wallet of a week to come. -/
structure StockInitial (w : StockWorld) : Prop where
  intents : w.db.intents = ∅
  weeks : ∀ u wallet, w.db.base.wallets.find? u = some wallet →
    wallet.weekStart ≤ startOfUtcWeek w.clock

/-- A completion does not find the stock full, and a proof of the current week
finds room. -/
def KeepsSlot (w : StockWorld) : StockAction → Prop
  | .complete callback now =>
      complete digest config w.db callback now ≠ .error .stockFull ∧
        ∀ row, w.db.intents.find? callback.intentId = some row →
          lockIntent digest w.db row.userId callback now = .ok (.accepted true) →
          (w.db.base.balance row.userId (startOfUtcWeek now) : ℤ) < advertisingStockLimit
  | _ => True

/-- No creation reads the clock at the end of the late interval of an open
intent. -/
def CreatesApart (w : StockWorld) : StockAction → Prop
  | .create _ userId _ _ t => ApartFrom w.db userId t.now
  | _ => True

variable {digest config} {w : StockWorld} {a : StockAction}

theorem StockInitial.slotInvariant (h : StockInitial w) : SlotInvariant w.db w.clock := by
  have hnone : ∀ i, i ∉ w.db.intents := by
    rw [h.intents]
    exact Table.notMem_empty
  exact ⟨h.weeks, fun i hi ↦ absurd hi (hnone i), fun i hi ↦ absurd hi (hnone i),
    fun i hi ↦ absurd hi (hnone i)⟩

theorem StockAction.span_le (h : a.Ordered) : a.span.1 ≤ a.span.2 := by
  cases a with
  | create id userId platform legal t => exact h.1.trans h.2
  | cancel userId id now => exact le_rfl
  | complete callback now => exact le_rfl
  | record matchId userId legal cost t sourceId =>
      exact h.locked_le_now.trans (h.now_le_notice.trans
        (h.notice_le_guard.trans h.guard_le_trigger))

theorem SlotInvariant.apply (h : SlotInvariant w.db a.span.1) (hapart : CreatesApart w a) :
    SlotInvariant (a.apply digest config w.db) a.span.1 := by
  cases a with
  | create id userId platform legal t =>
      simp only [StockAction.apply]
      split
      · exact h
      · rename_i intent db' hcreate
        rcases create_cases hcreate with rfl | ⟨row, intents, hcreates, hinsert, rfl⟩
        · exact h
        · exact h.created hapart hcreates hinsert
  | cancel userId id now =>
      simp only [StockAction.apply]
      split
      · exact h
      · rename_i db' hcancel
        obtain ⟨row, -, -, -, rfl⟩ := cancelOn_ok hcancel
        refine h.of_modify (Intent.id_cancel now) (fun i hopen ↦ ?_) (fun i hnone ↦ ⟨hnone, rfl⟩)
        cases hopen.2
  | complete callback now =>
      simp only [StockAction.apply]
      split
      · exact h
      · rename_i db' hcomplete
        exact h.completed hcomplete
  | record matchId userId legal cost t sourceId =>
      simp only [StockAction.apply]
      split
      · exact h
      · rename_i result base hrecord
        exact h.of_spends (spends_record hrecord) rfl

theorem SlotInvariant.next (h : SlotInvariant w.db w.clock)
    (henabled : (stock digest config).Enabled w a) (hapart : CreatesApart w a) :
    SlotInvariant ((stock digest config).next w a).db ((stock digest config).next w a).clock :=
  ((h.mono henabled.1).apply hapart).mono (StockAction.span_le henabled.2)

theorem SlotInvariant.keepsSlot (h : SlotInvariant w.db w.clock)
    (henabled : (stock digest config).Enabled w a) : KeepsSlot digest config w a := by
  cases a with
  | complete callback now =>
      have hnow : SlotInvariant w.db now := h.mono henabled.1
      refine ⟨complete_ne_stockFull hnow, fun row hrow hlock ↦ ?_⟩
      exact (hnow.room_of_accepted hrow hlock).2.2
  | create => trivial
  | cancel => trivial
  | record => trivial

/-- An open intent keeps its stock slot in every run whose creations keep
apart from the ends of late intervals. -/
theorem open_intent_keeps_slot (digest : String → String) (config : AdvertisingConfig)
    (w₀ : StockWorld) (as : List StockAction) (h₀ : StockInitial w₀)
    (hvalid : (stock digest config).Valid w₀ as)
    (hapart : (stock digest config).Along CreatesApart w₀ as) :
    (stock digest config).Along (KeepsSlot digest config) w₀ as := by
  have hinv := h₀.slotInvariant
  clear h₀
  induction as generalizing w₀ with
  | nil => trivial
  | cons a as ih =>
      exact ⟨hinv.keepsSlot hvalid.1, ih _ hvalid.2 hapart.2 (hinv.next hvalid.1 hapart.1)⟩

end Runs

/-- A digest that is SHA-256 on the transaction ids of the runs below. -/
def stockDigest (text : String) : String :=
  if text = "a" then "ca978112ca1bbdcafac231b39a23dc4da786eff8147c4e72b9807785afee48bb"
  else if text = "b" then "3e23e8160039594a33894f6564e1b1348bbd7a0088d42c4acb73eeaed59c009d"
  else text

def stockConfig : AdvertisingConfig where
  enabled := true
  androidAdUnit := "ca-app-pub-1/1234567890"
  iosAdUnit := "ca-app-pub-1/9876543210"
  rewardItem := "continuation_credit"

/-- The first account of `pairDb`, with two credits of the current week. -/
def nearlyFullWorld : StockWorld where
  db :=
    { base := { pairDb with
        wallets := ⟨[⟨1, 2, -3⟩], by decide⟩
        consents := [⟨1, .termsOfServiceAcceptance, "1", true, none⟩,
          ⟨1, .privacyNoticeAcknowledgement, "1", true, none⟩] }
      intents := ∅ }
  clock := 0

theorem stockInitial_nearlyFullWorld : StockInitial nearlyFullWorld := by
  refine ⟨rfl, fun u wallet hwallet ↦ ?_⟩
  obtain ⟨hmem, -⟩ := Table.find?_eq_some_iff.mp hwallet
  obtain rfl := List.mem_singleton.mp hmem
  decide

def proofOf (intentId : Uuid) (transactionId : String) (timestampMs : ℤ) : Callback where
  intentId := intentId
  adUnit := "1234567890"
  transactionId := transactionId
  timestampMs := timestampMs
  rewardAmount := 1
  rewardItem := "continuation_credit"

def createAt (id : Uuid) (now : ℤ) : StockAction :=
  .create id 1 .android ⟨"1", "1"⟩ ⟨now, now, now⟩

def watchOneAd : List StockAction := [createAt 9 0, .complete (proofOf 9 "a" 1000) (seconds 2)]

theorem open_intent_keeps_slot_watchOneAd :
    (stock stockDigest stockConfig).Along (KeepsSlot stockDigest stockConfig) nearlyFullWorld watchOneAd ∧
      ((stock stockDigest stockConfig).exec nearlyFullWorld watchOneAd).db.base.balance 1 (-3) = 3 := by
  have hvalid : (stock stockDigest stockConfig).Valid nearlyFullWorld watchOneAd := by
    refine ⟨⟨by decide, by decide, by decide⟩, ⟨by decide, trivial⟩, trivial⟩
  have hapart : (stock stockDigest stockConfig).Along CreatesApart nearlyFullWorld watchOneAd := by
    refine ⟨?_, trivial, trivial⟩
    intro row hrow
    exact absurd hrow (Table.notMem_empty row)
  exact ⟨open_intent_keeps_slot stockDigest stockConfig nearlyFullWorld watchOneAd
    stockInitial_nearlyFullWorld hvalid hapart, by decide +kernel⟩

/-- A day after the expiry of the first intent, at the very instant. -/
def watchTwoAds : List StockAction :=
  [createAt 9 0, createAt 10 (minutes 15 + hours 24),
    .complete (proofOf 9 "a" 1000) (minutes 15 + hours 24),
    .complete (proofOf 10 "b" 87301000) (minutes 16 + hours 24)]

def isStockFull : Except RewardError RewardDb → Bool
  | .error .stockFull => true
  | _ => false

theorem eq_of_isStockFull {answer : Except RewardError RewardDb} (h : isStockFull answer = true) :
    answer = .error .stockFull := by
  unfold isStockFull at h
  split at h
  · rfl
  · cases h

/-- Two intents are open at once, and the second finds the stock full. -/
theorem second_intent_finds_stock_full :
    StockInitial nearlyFullWorld ∧ (stock stockDigest stockConfig).Valid nearlyFullWorld watchTwoAds ∧
      ¬ (stock stockDigest stockConfig).Along (KeepsSlot stockDigest stockConfig) nearlyFullWorld watchTwoAds := by
  refine ⟨stockInitial_nearlyFullWorld, ?_, ?_⟩
  · exact ⟨⟨by decide, by decide, by decide⟩, ⟨by decide, by decide, by decide⟩,
      ⟨by decide, trivial⟩, ⟨by decide, trivial⟩, trivial⟩
  · rintro ⟨-, -, -, ⟨hkeeps, -⟩, -⟩
    exact hkeeps (eq_of_isStockFull (by decide +kernel))

section Late

variable (digest : String → String)

/-- The intent of the callback is credited, and so is the wallet of its
owner. -/
def Credits (db : RewardDb) (callback : Callback) (now : ℤ) (db' : RewardDb) : Prop :=
  ∃ row row', db.intents.find? callback.intentId = some row ∧
    db'.intents.find? callback.intentId = some row' ∧ row'.creditedAt = some now ∧
    grantAdvertisingCredit db.base row.userId now = (true, db'.base)

/-- A proof is consumed without a credit exactly when it is late. -/
def UncreditedOnlyIfLate (db : RewardDb) (callback : Callback) (event now : ℤ) (db' : RewardDb) :
    Prop :=
  (¬ Credits db callback now db' → startOfUtcWeek event < startOfUtcWeek now) ∧
    (startOfUtcWeek now ≤ startOfUtcWeek event → Credits db callback now db')

theorem judge_week {digest : String → String} {row : Intent} {callback : Callback} {now event : ℤ}
    {currentWeek : Bool} (h : judge digest row callback now = .ok (.accepted currentWeek))
    (hevent : fromTimestampMillis callback.timestampMs = some event) :
    currentWeek = decide (startOfUtcWeek event = startOfUtcWeek now) := by
  unfold judge at h
  split at h
  · cases h
  split at h
  · cases h
  split at h
  · split at h <;> cases h
  rw [hevent] at h
  simp only at h
  split at h
  · cases h
  split at h
  · cases h
  split at h
  · cases h
  split at h
  · cases h
  simpa using h.symm

theorem judge_replayed_isSome {digest : String → String} {row : Intent} {callback : Callback}
    {now : ℤ} (h : judge digest row callback now = .ok .replayed) :
    row.transactionHash ≠ none := by
  unfold judge at h
  split at h
  · cases h
  split at h
  · cases h
  split at h
  · rename_i existing hhash
    rw [hhash]
    exact Option.some_ne_none existing
  split at h
  · cases h
  split at h
  · cases h
  split at h
  · cases h
  split at h
  · cases h
  split at h <;> cases h

/-- A callback that completes its intent credits it when the event lies in the
week of the processing. -/
theorem completeOn_credits {digest : String → String} {db db' : RewardDb} {callback : Callback}
    {now event : ℤ} {row : Intent} (hrow : db.intents.find? callback.intentId = some row)
    (hopen : row.transactionHash = none)
    (hevent : fromTimestampMillis callback.timestampMs = some event)
    (h : completeOn digest db callback now = .ok db') :
    Credits db callback now db' ↔ startOfUtcWeek event = startOfUtcWeek now := by
  unfold completeOn at h
  rw [hrow] at h
  simp only at h
  split at h
  · cases h
  · rename_i hlock
    unfold lockIntent at hlock
    split at hlock
    · cases hlock
    rw [hrow] at hlock
    exact absurd hopen (judge_replayed_isSome hlock)
  · rename_i currentWeek hlock
    obtain ⟨row₁, hrow₁, hjudge⟩ := lockIntent_accepted hlock
    obtain rfl := Option.some.inj (hrow.symm.trans hrow₁)
    have hweek := judge_week hjudge hevent
    split at h
    · cases h
    rename_i consumed hconsume
    obtain ⟨-, rfl⟩ := consumeIntent_ok hconsume
    obtain ⟨base, rfl, hbase⟩ := creditOwner_ok h
    have hfind : (settledIntents digest db callback now currentWeek).find? callback.intentId =
        some (row.consume now (callback.hash digest) currentWeek) := by
      unfold settledIntents
      rw [Table.find?_modify, hrow]
      simp [(Table.find?_eq_some_iff.mp hrow).2]
    constructor
    · rintro ⟨_, row', -, hrow', hcredited, -⟩
      obtain rfl := Option.some.inj (hfind.symm.trans hrow')
      cases hcase : currentWeek with
      | false =>
          rw [hcase] at hcredited
          cases hcredited
      | true =>
          rw [hcase] at hweek
          simpa using hweek.symm
    · intro hsame
      obtain rfl : currentWeek = true := by
        rw [hweek]
        exact decide_eq_true hsame
      exact ⟨row, _, hrow, hfind, rfl, hbase⟩

/-- A consumed proof goes without a credit only if it is late, exactly when
its event is not of a week to come. -/
theorem uncredited_only_if_late_iff (digest : String → String) (db db' : RewardDb)
    (callback : Callback) (now event : ℤ) (row : Intent)
    (hrow : db.intents.find? callback.intentId = some row) (hopen : row.transactionHash = none)
    (hevent : fromTimestampMillis callback.timestampMs = some event)
    (h : completeOn digest db callback now = .ok db') :
    UncreditedOnlyIfLate db callback event now db' ↔
      startOfUtcWeek event ≤ startOfUtcWeek now := by
  unfold UncreditedOnlyIfLate
  rw [completeOn_credits hrow hopen hevent h]
  omega

end Late

/-- An intent of the last minutes of a Sunday. -/
def sundayDb : RewardDb where
  base := pairDb
  intents := ⟨[{ id := 9, userId := 1, adUnit := "ca-app-pub-1/1234567890"
                 createdAt := days 4 - minutes 10, expiresAt := days 4 + minutes 5
                 completedAt := none, creditedAt := none, cancelledAt := none
                 transactionHash := none }], by decide⟩

/-- What a completion writes to the intent and to the wallet of its owner. -/
def completion (db : RewardDb) (callback : Callback) (now : ℤ) : Option (Option ℤ × ℕ) :=
  match completeOn stockDigest db callback now with
  | .error _ => none
  | .ok db => (db.intents.find? callback.intentId).map fun row ↦
      (row.creditedAt, db.base.balance row.userId (startOfUtcWeek now))

theorem exists_ok_of_completion {db : RewardDb} {callback : Callback} {now : ℤ}
    {x : Option ℤ × ℕ} (h : completion db callback now = some x) :
    ∃ db', completeOn stockDigest db callback now = .ok db' := by
  unfold completion at h
  split at h
  · cases h
  · exact ⟨_, ‹_›⟩

theorem uncredited_only_if_late_iff_sunday :
    ∃ db', completeOn stockDigest sundayDb (proofOf 9 "a" 345000000) (days 4 - minutes 1) = .ok db' ∧
      UncreditedOnlyIfLate sundayDb (proofOf 9 "a" 345000000) (seconds 345000) (days 4 - minutes 1)
        db' := by
  obtain ⟨db', hok⟩ : ∃ db', completeOn stockDigest sundayDb (proofOf 9 "a" 345000000)
      (days 4 - minutes 1) = .ok db' :=
    exists_ok_of_completion (x := (some (days 4 - minutes 1), 1)) (by decide +kernel)
  refine ⟨db', hok, ?_⟩
  exact (uncredited_only_if_late_iff stockDigest sundayDb db' (proofOf 9 "a" 345000000) (days 4 - minutes 1)
    (seconds 345000) _ rfl rfl rfl hok).mpr (by decide)

/-- The proof of a view that ended on Monday reaches the server on Sunday. -/
theorem early_proof_is_lost :
    ∃ db', completeOn stockDigest sundayDb (proofOf 9 "a" 345660000) (days 4 - minutes 1) = .ok db' ∧
      ¬ UncreditedOnlyIfLate sundayDb (proofOf 9 "a" 345660000) (seconds 345660)
        (days 4 - minutes 1) db' := by
  obtain ⟨db', hok⟩ : ∃ db', completeOn stockDigest sundayDb (proofOf 9 "a" 345660000)
      (days 4 - minutes 1) = .ok db' :=
    exists_ok_of_completion (x := (none, 0)) (by decide +kernel)
  refine ⟨db', hok, fun hlate ↦ ?_⟩
  have hcredits : Credits sundayDb (proofOf 9 "a" 345660000) (days 4 - minutes 1) db' ↔
      startOfUtcWeek (seconds 345660) = startOfUtcWeek (days 4 - minutes 1) :=
    completeOn_credits rfl rfl rfl hok
  have hweek := hcredits.mp (hlate.2 (by decide))
  exact absurd hweek (by decide)

end Histae.Advertising
