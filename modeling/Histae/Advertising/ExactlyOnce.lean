import Histae.Advertising.Reliance

/-!
# Rewards are granted exactly once

`LogSound` relates the answers to the stored intents: each settlement left its
hash on one intent, no intent was settled twice, and the credits reported for
a user are the credited intents of that user. The wallet of a user moves
exactly when a credit is reported.
-/

namespace Histae.Advertising

open Relational Systems Matches

/-- What a consumed callback leaves behind. -/
structure Settled (digest : String → String) (config : AdvertisingConfig) (db : RewardDb)
    (owner : Uuid) (credited : Bool) (callback : Callback) : Prop where
  checked : checkReward config callback = .ok ()
  eligible : lockEligibleAccounts db.base [owner] none = .ok ()
  row : ∃ row ∈ db.intents, row.id = callback.intentId ∧ row.userId = owner ∧
    row.cancelledAt = none ∧ row.transactionHash = some (callback.hash digest) ∧
    row.creditedAt.isSome = credited ∧ Accepts row callback

/-- The intent that an answer reports as settled. -/
def settledIntent (a : RewardAnswer) : Option Uuid :=
  match a.request, a.result with
  | .complete callback, .settled _ _ => some callback.intentId
  | _, _ => none

/-- The answer reports a credit of the user. -/
def credits (userId : Uuid) (a : RewardAnswer) : Bool := a.result = .settled userId true

def creditedTo (userId : Uuid) (i : Intent) : Bool := i.userId = userId && i.creditedAt.isSome

structure LogSound (digest : String → String) (config : AdvertisingConfig) (db₀ : RewardDb)
    (s : RewardTraffic) : Prop where
  settled : ∀ a ∈ s.answers, ∀ owner credited, a.result = .settled owner credited →
    ∃ callback, a.request = .complete callback ∧ Settled digest config s.db owner credited callback
  once : (s.answers.filterMap settledIntent).Nodup
  counted : ∀ u, s.answers.countP (credits u) + db₀.intents.count (creditedTo u) =
    s.db.intents.count (creditedTo u)

section Log

variable {digest : String → String} {config : AdvertisingConfig} {db₀ db db' : RewardDb}
  {s : RewardTraffic} {c : RewardCall} {t : CreationClock} {outcome : RewardOutcome}

theorem Settled.persists {owner : Uuid} {credited : Bool} {callback : Callback}
    (h : Settled digest config db owner credited callback) (hsound : Sound db)
    (hpersists : Persists db db') : Settled digest config db' owner credited callback := by
  obtain ⟨row, hrow, hid, howner, hcancelled, hhash, hcredited, haccepts⟩ := h.row
  have hcompleted : row.completedAt.isSome = true := by
    rw [hsound.completed row hrow, hhash]
    rfl
  obtain ⟨row', hrow', _, _, _, hsame⟩ := hpersists.rows row hrow
  obtain rfl := hsame (Or.inl hcompleted)
  exact ⟨h.checked, hpersists.eligible h.eligible, row', hrow', hid, howner, hcancelled, hhash,
    hcredited, haccepts⟩

/-- An answer that settles nothing and leaves the credited intents in number. -/
theorem LogSound.unsettled (h : LogSound digest config db₀ s) (hsound : Sound s.db)
    (hpersists : Persists s.db db) {request : RewardRequest}
    {calls : Table (Call.id : RewardCall → ℕ)}
    (houtcome : ∀ owner credited, outcome ≠ .settled owner credited)
    (hcount : ∀ u, db.intents.count (creditedTo u) = s.db.intents.count (creditedTo u)) :
    LogSound digest config db₀ ⟨db, calls, ⟨request, outcome⟩ :: s.answers⟩ := by
  refine ⟨?_, ?_, ?_⟩
  · intro a ha owner credited hresult
    rcases List.mem_cons.mp ha with rfl | ha
    · exact absurd hresult (houtcome owner credited)
    · obtain ⟨callback, hrequest, hsettled⟩ := h.settled a ha owner credited hresult
      exact ⟨callback, hrequest, hsettled.persists hsound hpersists⟩
  · have hnone : settledIntent ⟨request, outcome⟩ = none := by
      unfold settledIntent
      split
      · rename_i hresult
        exact absurd hresult (houtcome _ _)
      · rfl
    rw [List.filterMap_cons_none hnone]
    exact h.once
  · intro u
    have hcredits : ¬ credits u ⟨request, outcome⟩ = true := by
      simpa [credits] using houtcome u true
    rw [List.countP_cons_of_neg hcredits, hcount u]
    exact h.counted u

theorem LogSound.settle (h : LogSound digest config db₀ s) (hcalls : CallsSound digest config s)
    (hsound : Sound s.db) (hc : c ∈ s.calls) {callback : Callback} {owner : Uuid} {now : ℤ}
    {currentWeek : Bool} {base : Db} (hrequest : c.request = .complete callback)
    (hphase : c.phase = .consumed owner now currentWeek)
    (hpersists : Persists s.db ⟨base, settledIntents digest s.db callback now currentWeek⟩)
    {calls : Table (Call.id : RewardCall → ℕ)} :
    LogSound digest config db₀ ⟨⟨base, settledIntents digest s.db callback now currentWeek⟩, calls,
      ⟨c.request, .settled owner currentWeek⟩ :: s.answers⟩ := by
  obtain ⟨hadmissible, row, hrow, hid, howner, hcancelled, hunset, haccepts⟩ :=
    hcalls.intent hc hrequest (holdsWallet_of_consumed hphase)
  have hstored : row.consume now (callback.hash digest) currentWeek ∈
      settledIntents digest s.db callback now currentWeek :=
    (mem_settledIntents hrow hid).mpr (Or.inl rfl)
  refine ⟨?_, ?_, ?_⟩
  · intro a ha owner' credited hresult
    rcases List.mem_cons.mp ha with rfl | ha
    · obtain ⟨rfl, rfl⟩ := RewardOutcome.settled.inj hresult
      refine ⟨callback, hrequest, hadmissible.checked, hpersists.eligible hadmissible.eligible, _,
        hstored, hid, howner, hcancelled, rfl, ?_, haccepts⟩
      cases currentWeek <;> rfl
    · obtain ⟨other, hother, hsettled⟩ := h.settled a ha owner' credited hresult
      exact ⟨other, hother, hsettled.persists hsound hpersists⟩
  · have hsome : settledIntent ⟨c.request, .settled owner currentWeek⟩ = some callback.intentId := by
      rw [hrequest]
      rfl
    rw [List.filterMap_cons_some hsome, List.nodup_cons]
    refine ⟨fun hmem ↦ ?_, h.once⟩
    obtain ⟨a, ha, hintent⟩ := List.mem_filterMap.mp hmem
    unfold settledIntent at hintent
    split at hintent
    · rename_i other owner' credited hother hresult
      obtain ⟨other', hother', hsettled⟩ := h.settled a ha owner' credited hresult
      obtain rfl := RewardRequest.complete.inj (hother.symm.trans hother')
      obtain ⟨row', hrow', hid', _, _, hhash, _⟩ := hsettled.row
      have hsame : row'.id = row.id := (hid'.trans (Option.some.inj hintent)).trans hid.symm
      rw [Table.eq_of_key_eq hrow' hrow hsame, hunset] at hhash
      cases hhash
    · cases hintent
  · intro u
    have hold : creditedTo u row = false := by
      have hcompleted := hsound.not_completed hrow hunset
      have hnone : row.creditedAt.isSome = false := by
        by_contra hcredited
        have hsome := hsound.credited row hrow (Bool.eq_true_of_not_eq_false hcredited)
        rw [hcompleted] at hsome
        cases hsome
      simp [creditedTo, hnone]
    have hcount := Table.count_modify_key (p := creditedTo u)
      (Intent.id_consume now (callback.hash digest) currentWeek) hrow
    have hnew : creditedTo u (row.consume now (callback.hash digest) currentWeek) =
        credits u ⟨c.request, .settled owner currentWeek⟩ := by
      cases currentWeek <;> simp [creditedTo, credits, Intent.consume, howner]
    have hlog := h.counted u
    rw [hold, hnew, hid] at hcount
    rw [List.countP_cons]
    change _ = (settledIntents digest s.db callback now currentWeek).count (creditedTo u)
    unfold settledIntents
    simp only [Bool.false_eq_true, if_false] at hcount
    omega

theorem LogSound.answered (h : LogSound digest config db₀ s) (hcalls : CallsSound digest config s)
    (hsound : Sound s.db) (hc : c ∈ s.calls) (hcommit : RewardCommits digest s c t outcome db) :
    LogSound digest config db₀ ⟨db, s.leave c.id, ⟨c.request, outcome⟩ :: s.answers⟩ := by
  have hpersists := hcommit.persists hcalls hsound hc
  cases hcommit with
  | refused error => exact h.unsettled hsound hpersists (fun _ _ ↦ nofun) fun _ ↦ rfl
  | replayed => exact h.unsettled hsound hpersists (fun _ _ ↦ nofun) fun _ ↦ rfl
  | found intent => exact h.unsettled hsound hpersists (fun _ _ ↦ nofun) fun _ ↦ rfl
  | created intent row intents hopen hinsert =>
      refine h.unsettled hsound hpersists (fun _ _ ↦ nofun) fun u ↦ ?_
      have hcount := Table.count_insert (p := creditedTo u) hinsert
      simpa [creditedTo, hopen.2.1] using hcount
  | cancelled userId row hfree hfound howner hcompleted =>
      refine h.unsettled hsound hpersists (fun _ _ ↦ nofun) fun u ↦ ?_
      have hrow := (Table.find?_eq_some_iff.mp hfound).1
      have hcount := Table.count_modify_key (p := creditedTo u) (Intent.id_cancel t.now) hrow
      have hsame : creditedTo u (row.cancel t.now) = creditedTo u row := rfl
      rw [hsame] at hcount
      exact Nat.add_right_cancel hcount
  | settled callback owner now currentWeek base hrequest hphase hhash hbase =>
      exact h.settle hcalls hsound hc hrequest hphase hpersists

end Log

section Step

variable {digest : String → String} {config : AdvertisingConfig} {s : RewardTraffic}
  {c : RewardCall} {t : CreationClock} {outcome : RewardOutcome} {db : RewardDb}

/-- What a credit of the user does to the wallet. -/
def Incremented (u : Uuid) (before after : Option Wallet) : Prop :=
  ∃ week, after = some ((before.map (Wallet.credit week)).getD ⟨u, 1, week⟩) ∧ after ≠ before

/-- The wallet of a user moves exactly with a credit reported for that user. -/
theorem RewardCommits.wallet (hcommit : RewardCommits digest s c t outcome db) (u : Uuid) :
    if outcome = .settled u true then
      Incremented u (s.db.base.wallets.find? u) (db.base.wallets.find? u)
    else db.base.wallets.find? u = s.db.base.wallets.find? u := by
  cases hcommit with
  | refused error => rw [if_neg (by simp)]
  | replayed => rw [if_neg (by simp)]
  | found intent => rw [if_neg (by simp)]
  | created intent row intents hopen hinsert => rw [if_neg (by simp)]
  | cancelled userId row hfree hfound howner hcompleted => rw [if_neg (by simp)]
  | settled callback owner now currentWeek base hrequest hphase hhash hbase =>
      cases currentWeek with
      | false =>
          have hsame : base = s.db.base := hbase
          rw [if_neg (by simp), hsame]
      | true =>
          obtain ⟨wallets, rfl, hfind, _⟩ := grantAdvertisingCredit_true hbase
          by_cases hu : u = owner
          · subst hu
            have hafter := (hfind u).trans (if_pos rfl)
            rw [if_pos rfl]
            exact ⟨startOfUtcWeek now, hafter, hafter ▸ credit_ne _⟩
          · rw [if_neg (by simpa using fun h ↦ hu h.symm)]
            exact (hfind u).trans (if_neg hu)

/-- The callback repeats another one, up to the case of the transaction id. -/
structure Replays (callback original : Callback) : Prop where
  intentId : callback.intentId = original.intentId
  adUnit : callback.adUnit = original.adUnit
  rewardAmount : callback.rewardAmount = original.rewardAmount
  rewardItem : callback.rewardItem = original.rewardItem
  transactionId : toAsciiLowercase callback.transactionId = toAsciiLowercase original.transactionId

theorem Replays.checkReward {callback original : Callback} (h : Replays callback original) :
    checkReward config callback = checkReward config original := by
  simp only [Advertising.checkReward, h.rewardAmount, h.rewardItem]

/-- A transaction with a replayed callback answers `replayed`. -/
theorem replay_statement (h : CallsSound digest config s) (hc : c ∈ s.calls)
    {callback original : Callback} {owner : Uuid} {credited : Bool}
    (hrequest : c.request = .complete callback)
    (hsettled : Settled digest config s.db owner credited original)
    (hreplays : Replays callback original)
    (hstatement : (rewardProtocol digest config).statement s.db c.request c.phase t =
      .commit outcome db) : outcome = .replayed ∧ db = s.db := by
  obtain ⟨row, hrow, hid, howner, hcancelled, hhash, _, haccepts⟩ := hsettled.row
  have hid' : row.id = callback.intentId := hid.trans hreplays.intentId.symm
  have hfound : s.db.intents.find? callback.intentId = some row :=
    Table.find?_eq_some_iff.mpr ⟨hrow, hid'⟩
  have hheld : ∀ u, ¬ holdsWallet u c = true := by
    intro u hholds
    obtain ⟨_, row', hrow', hid'', _, _, hunset, _⟩ := h.intent hc hrequest hholds
    rw [Table.eq_of_key_eq hrow' hrow (hid''.trans hid'.symm), hhash] at hunset
    cases hunset
  rw [hrequest] at hstatement
  change completeStatement digest config s.db callback c.phase t.now = .commit outcome db
    at hstatement
  cases hphase : c.phase with
  | begun =>
      have hcheck : checkReward config callback = .ok () :=
        hreplays.checkReward.trans hsettled.checked
      simp [completeStatement, hphase, hcheck, hfound] at hstatement
  | owned owner' =>
      obtain ⟨callback', hrequest', _, row', hrow', hid'', howner'⟩ := h.owned c hc owner' hphase
      obtain rfl := RewardRequest.complete.inj (hrequest'.symm.trans hrequest)
      have hsame : owner' = owner := by
        rw [← howner', ← howner, Table.eq_of_key_eq hrow' hrow (hid''.trans hid'.symm)]
      have hjudge : judge digest row callback' t.now = .ok .replayed := by
        refine judge_replayed hcancelled ?_ ?_
        · unfold Accepts
          rw [hreplays.adUnit]
          exact haccepts
        · rw [hhash, Callback.hash, Callback.hash, hreplays.transactionId]
      simp only [completeStatement, hphase, lockIntent, hsame, hsettled.eligible, hfound, hjudge,
        Progress.commit.injEq] at hstatement
      exact ⟨hstatement.1.symm, hstatement.2.symm⟩
  | admitted owner' now currentWeek => exact absurd (holdsWallet_of_admitted hphase) (hheld owner')
  | consumed owner' now currentWeek => exact absurd (holdsWallet_of_consumed hphase) (hheld owner')

end Step

section Draining

variable {digest : String → String} {config : AdvertisingConfig}

/-- The statements a transaction has left, at most. -/
def RewardPhase.remaining : RewardPhase → ℕ
  | .begun => 4
  | .owned _ => 3
  | .admitted _ _ _ => 2
  | .consumed _ _ _ => 1

theorem rewardStatement_proceed_lt {db : RewardDb} {request : RewardRequest}
    {phase phase' : RewardPhase} {t : CreationClock}
    (h : rewardStatement digest config db request phase t = .proceed phase') :
    phase'.remaining < phase.remaining := by
  cases request with
  | create id userId platform legal =>
      cases phase <;> simp only [rewardStatement] at h
      · split at h <;> cases h
      all_goals cases h
  | cancel userId id =>
      cases phase <;> simp only [rewardStatement] at h
      · split at h <;> cases h
      all_goals cases h
  | complete callback =>
      cases phase with
      | begun =>
          simp only [rewardStatement, completeStatement] at h
          split at h
          · cases h
          · split at h <;> cases h
            exact Nat.lt_succ_self _
      | owned owner =>
          simp only [rewardStatement, completeStatement] at h
          split at h <;> cases h
          exact Nat.lt_succ_self _
      | admitted owner now currentWeek =>
          simp only [rewardStatement, completeStatement] at h
          split at h <;> cases h
          exact Nat.lt_succ_self _
      | consumed owner now currentWeek =>
          simp only [rewardStatement, completeStatement] at h
          split at h
          · cases h
          · split at h <;> cases h

/-- A transaction that wrote its hash waits for nothing, without such a one no
update waits, and without a holder of a wallet nothing waits. -/
theorem exists_not_waiting (s : RewardTraffic) (h : s.calls.rows ≠ []) :
    ∃ c ∈ s.calls, (rewardProtocol digest config).Waits s c = false := by
  by_cases hconsumed : ∃ c ∈ s.calls, ∃ owner now week, c.phase = .consumed owner now week
  · obtain ⟨c, hc, owner, now, week, hphase⟩ := hconsumed
    refine ⟨c, hc, ?_⟩
    rw [Protocol.Waits, hphase]
    rfl
  have hwrote : ∀ hash, s.calls.rows.any (wroteHash digest hash) = false := by
    intro hash
    rw [List.any_eq_false]
    intro d hd hwrote
    unfold wroteHash at hwrote
    split at hwrote
    · rename_i callback owner now week hrequest hphase
      exact hconsumed ⟨d, hd, owner, now, week, hphase⟩
    · cases hwrote
  by_cases hadmitted : ∃ c ∈ s.calls, ∃ owner now week, c.phase = .admitted owner now week
  · obtain ⟨c, hc, owner, now, week, hphase⟩ := hadmitted
    refine ⟨c, hc, ?_⟩
    rw [Protocol.Waits, hphase]
    cases hrequest : c.request with
    | complete callback => exact hwrote (callback.hash digest)
    | _ => rfl
  · have hheld : ∀ u, s.calls.rows.any (holdsWallet u) = false := by
      intro u
      rw [List.any_eq_false]
      intro d hd hholds
      unfold holdsWallet at hholds
      split at hholds
      · rename_i owner now week hphase
        exact hadmitted ⟨d, hd, owner, now, week, hphase⟩
      · rename_i owner now week hphase
        exact hconsumed ⟨d, hd, owner, now, week, hphase⟩
      · cases hholds
    obtain ⟨c, hc⟩ := List.exists_mem_of_ne_nil _ h
    refine ⟨c, hc, ?_⟩
    rw [Protocol.Waits]
    cases hphase : c.phase with
    | begun =>
        cases hrequest : c.request with
        | create id userId platform legal => exact hheld userId
        | cancel userId id => exact hheld userId
        | complete callback => rfl
    | owned owner => exact hheld owner
    | admitted owner now week => exact absurd ⟨c, hc, owner, now, week, hphase⟩ hadmitted
    | consumed owner now week => exact absurd ⟨c, hc, owner, now, week, hphase⟩ hconsumed

theorem rewardProtocol_drains : (rewardProtocol digest config).Drains RewardPhase.remaining where
  pos phase := by cases phase <;> exact Nat.succ_pos _
  decreases _ _ _ _ _ h := rewardStatement_proceed_lt h
  moves s h := exists_not_waiting s h

end Draining

section Run

variable {digest : String → String} {config : AdvertisingConfig} {db₀ : RewardDb}
  {s : RewardTraffic} {a : RewardStep} {as : List RewardStep}

/-- All that holds of every state of a run that started with the tables `db₀`. -/
structure RewardInvariant (digest : String → String) (config : AdvertisingConfig) (db₀ : RewardDb)
    (s : RewardTraffic) : Prop where
  sound : Sound s.db
  calls : CallsSound digest config s
  log : LogSound digest config db₀ s

theorem rewardInvariant_idle (hdb : Sound db₀) : RewardInvariant digest config db₀ (.idle db₀) := by
  have hnone : ∀ c, c ∉ (Traffic.idle db₀ : RewardTraffic).calls := Table.notMem_empty
  refine ⟨hdb, ⟨?_, ?_, ?_, ?_, ?_⟩, ⟨?_, List.nodup_nil, fun _ ↦ Nat.zero_add _⟩⟩
  · exact fun c hc ↦ absurd hc (hnone c)
  · exact fun c hc ↦ absurd hc (hnone c)
  · exact fun c hc ↦ absurd hc (hnone c)
  · exact fun c hc ↦ absurd hc (hnone c)
  · exact fun c hc ↦ absurd hc (hnone c)
  · exact fun a ha ↦ absurd ha List.not_mem_nil

/-- What one step can do, with everything the invariant knows where it acts. -/
inductive StepOf (digest : String → String) (config : AdvertisingConfig) (s : RewardTraffic) :
    RewardTraffic → Prop
  | silent (s' : RewardTraffic) (hdb : s'.db = s.db) (hanswers : s'.answers = s.answers)
      (hcalls : CallsSound digest config s') : StepOf digest config s s'
  | answered (c : RewardCall) (t : CreationClock) (outcome : RewardOutcome) (db : RewardDb)
      (hc : c ∈ s.calls)
      (hstatement : (rewardProtocol digest config).statement s.db c.request c.phase t =
        .commit outcome db)
      (hcommit : RewardCommits digest s c t outcome db) :
      StepOf digest config s ⟨db, s.leave c.id, ⟨c.request, outcome⟩ :: s.answers⟩

theorem stepOf_enabled (h : CallsSound digest config s)
    (henabled : (rewards digest config).Enabled s a) :
    StepOf digest config s ((rewards digest config).next s a) := by
  have heffect := Protocol.effect_of_enabled henabled
  rw [show (rewards digest config).next s a = (rewardProtocol digest config).system.next s a from
    rfl]
  generalize (rewardProtocol digest config).system.next s a = s' at heffect ⊢
  cases heffect with
  | began id q calls hinsert =>
      refine .silent _ rfl rfl (h.of_calls fun d hd hne ↦ ?_)
      rcases (Table.mem_insert hinsert).mp hd with rfl | hd
      · exact absurd rfl hne
      · exact hd
  | left => exact .silent _ rfl rfl (h.leave _)
  | proceeded c t phase hc hwaits hstatement =>
      exact .silent _ rfl rfl (h.proceeded hc (rewardProceeds_of_statement hwaits hstatement))
  | answered c t outcome db hc hwaits hstatement =>
      exact .answered c t outcome db hc hstatement (rewardCommits_of_statement hwaits hstatement)

theorem RewardInvariant.next (h : RewardInvariant digest config db₀ s)
    (henabled : (rewards digest config).Enabled s a) :
    RewardInvariant digest config db₀ ((rewards digest config).next s a) := by
  have hstep := stepOf_enabled h.calls henabled
  generalize (rewards digest config).next s a = s' at hstep ⊢
  cases hstep with
  | silent _ hdb hanswers hcalls =>
      refine ⟨hdb ▸ h.sound, hcalls, ?_⟩
      obtain ⟨hsettled, honce, hcounted⟩ := h.log
      exact ⟨hdb ▸ hanswers ▸ hsettled, hanswers ▸ honce, hdb ▸ hanswers ▸ hcounted⟩
  | answered c t outcome db hc hstatement hcommit =>
      exact ⟨hcommit.sound h.calls h.sound hc, h.calls.answered h.sound hc hcommit,
        h.log.answered h.calls h.sound hc hcommit⟩

theorem rewardInvariant_of_valid (hdb : Sound db₀)
    (hvalid : (rewards digest config).Valid (.idle db₀) as) :
    RewardInvariant digest config db₀ ((rewards digest config).exec (.idle db₀) as) :=
  hvalid.invariant (I := RewardInvariant digest config db₀) (rewardInvariant_idle hdb)
    fun _ _ h henabled ↦ h.next henabled

theorem StepOf.persists (h : RewardInvariant digest config db₀ s) {s' : RewardTraffic}
    (hstep : StepOf digest config s s') : Persists s.db s'.db := by
  cases hstep with
  | silent _ hdb => exact hdb ▸ .refl s.db
  | answered c t outcome db hc hstatement hcommit => exact hcommit.persists h.calls h.sound hc

theorem persists_of_valid (h : RewardInvariant digest config db₀ s)
    (hvalid : (rewards digest config).Valid s as) :
    Persists s.db ((rewards digest config).exec s as).db := by
  induction as generalizing s with
  | nil => exact .refl s.db
  | cons a as ih =>
      exact ((stepOf_enabled h.calls hvalid.1).persists h).trans (ih (h.next hvalid.1) hvalid.2)

/-- One when the step moves the wallet of the user. -/
def walletMoved (digest : String → String) (config : AdvertisingConfig) (u : Uuid)
    (s : RewardTraffic) (a : RewardStep) : ℕ :=
  if ((rewards digest config).next s a).db.base.wallets.find? u = s.db.base.wallets.find? u then 0
  else 1

/-- Per step, the wallet of a user moves exactly as often as a credit of the
user is reported. -/
theorem countP_credits_next (h : RewardInvariant digest config db₀ s)
    (henabled : (rewards digest config).Enabled s a) (u : Uuid) :
    ((rewards digest config).next s a).answers.countP (credits u) =
      s.answers.countP (credits u) + walletMoved digest config u s a := by
  have hstep := stepOf_enabled h.calls henabled
  unfold walletMoved
  generalize (rewards digest config).next s a = s' at hstep ⊢
  cases hstep with
  | silent _ hdb hanswers => rw [hanswers, hdb, if_pos rfl, Nat.add_zero]
  | answered c t outcome db hc hstatement hcommit =>
      have hwallet := hcommit.wallet u
      rw [List.countP_cons]
      by_cases hcredit : outcome = .settled u true
      · rw [if_pos hcredit] at hwallet
        obtain ⟨_, _, hne⟩ := hwallet
        rw [if_neg hne, if_pos (by simpa [credits] using hcredit)]
      · rw [if_neg hcredit] at hwallet
        rw [if_pos hwallet, if_neg (by simpa [credits] using hcredit)]

theorem countP_credits_exec (hdb : Sound db₀)
    (hvalid : (rewards digest config).Valid (.idle db₀) as) (u : Uuid) :
    ((rewards digest config).exec (.idle db₀) as).answers.countP (credits u) =
      (rewards digest config).tally (walletMoved digest config u) (.idle db₀) as := by
  have hbalance := hvalid.tally_balance (I := RewardInvariant digest config db₀)
    (q := fun s ↦ s.answers.countP (credits u)) (f := walletMoved digest config u)
    (g := fun _ _ ↦ 0) (rewardInvariant_idle hdb) (fun _ _ h henabled ↦ h.next henabled)
    fun s a h henabled ↦ countP_credits_next h henabled u
  rw [System.tally_zero] at hbalance
  have hstart : (Traffic.idle db₀ : RewardTraffic).answers.countP (credits u) = 0 := rfl
  omega

end Run

/-- What a step that answers may do, beside what every step keeps. -/
structure AnswersSoundly (s s' : RewardTraffic) : Prop where
  refused : ∀ request error, s'.answers = ⟨request, .refused error⟩ :: s.answers → s'.db = s.db
  replayed : ∀ callback outcome, s'.answers = ⟨.complete callback, outcome⟩ :: s.answers →
    ∀ a ∈ s.answers, ∀ original owner credited, a = ⟨.complete original, .settled owner credited⟩ →
      Replays callback original → outcome = .replayed ∧ s'.db = s.db
  incremented : ∀ u, s'.db.base.wallets.find? u ≠ s.db.base.wallets.find? u →
    Incremented u (s.db.base.wallets.find? u) (s'.db.base.wallets.find? u)

theorem StepOf.answersSoundly {digest : String → String} {config : AdvertisingConfig}
    {db₀ : RewardDb} {s s' : RewardTraffic} (h : RewardInvariant digest config db₀ s)
    (hstep : StepOf digest config s s') : AnswersSoundly s s' := by
  cases hstep with
  | silent _ hdb hanswers hcalls =>
      refine ⟨fun _ _ _ ↦ hdb, fun callback outcome hanswer ↦ ?_, fun u hne ↦ ?_⟩
      · rw [hanswers] at hanswer
        exact absurd hanswer (List.cons_ne_self _ _).symm
      · rw [hdb] at hne
        exact absurd rfl hne
  | answered c t outcome db hc hstatement hcommit =>
      refine ⟨fun request error hanswer ↦ ?_, fun callback outcome' hanswer a ha original owner
        credited hsettled hreplays ↦ ?_, fun u hne ↦ ?_⟩
      · obtain ⟨hhead, _⟩ := List.cons.inj hanswer
        obtain ⟨_, rfl⟩ := Answer.mk.inj hhead
        cases hcommit with
        | refused error => rfl
      · obtain ⟨hhead, _⟩ := List.cons.inj hanswer
        obtain ⟨hrequest, rfl⟩ := Answer.mk.inj hhead
        subst hsettled
        obtain ⟨original', horiginal, hfacts⟩ := h.log.settled _ ha owner credited rfl
        obtain rfl := RewardRequest.complete.inj horiginal
        exact replay_statement h.calls hc hrequest hfacts hreplays hstatement
      · have hwallet := hcommit.wallet u
        by_cases hcredit : outcome = .settled u true
        · rw [if_pos hcredit] at hwallet
          exact hwallet
        · rw [if_neg hcredit] at hwallet
          exact absurd hwallet hne

/-- Any interleaving of creations, cancellations and completions, from intents
that satisfy the constraints of their table. -/
theorem rewards_granted_once (digest : String → String) (config : AdvertisingConfig)
    (db : RewardDb) (hdb : Sound db) (as : List RewardStep)
    (hvalid : (rewards digest config).Valid (.idle db) as) :
    (((rewards digest config).exec (.idle db) as).answers.filterMap settledIntent).Nodup ∧
    (∀ a ∈ ((rewards digest config).exec (.idle db) as).answers, ∀ owner credited,
      a.result = .settled owner credited → ∃ callback, a.request = .complete callback ∧
        Settled digest config ((rewards digest config).exec (.idle db) as).db owner credited
          callback) ∧
    (∀ i ∈ ((rewards digest config).exec (.idle db) as).db.intents,
      ∀ j ∈ ((rewards digest config).exec (.idle db) as).db.intents, ∀ first second : String,
        i.transactionHash = some (digest (toAsciiLowercase first)) →
        j.transactionHash = some (digest (toAsciiLowercase second)) →
        toAsciiLowercase first = toAsciiLowercase second → i = j) ∧
    (∀ pre post, as = pre ++ post → ∀ i ∈ ((rewards digest config).exec (.idle db) pre).db.intents,
      ∃ j ∈ ((rewards digest config).exec (.idle db) as).db.intents, j.id = i.id ∧
        (i.cancelledAt.isSome = true → j = i ∧ j.creditedAt = none) ∧
        (i.completedAt.isSome = true → j = i ∧ j.cancelledAt = none)) ∧
    (∀ pre a post, as = pre ++ a :: post →
      AnswersSoundly ((rewards digest config).exec (.idle db) pre)
        ((rewards digest config).exec (.idle db) (pre ++ [a]))) ∧
    (∀ u, ((rewards digest config).exec (.idle db) as).db.intents.count (creditedTo u) =
      db.intents.count (creditedTo u) +
        (rewards digest config).tally (walletMoved digest config u) (.idle db) as) ∧
    ∃ bs : List RewardStep, (∀ b ∈ bs, ∃ id t, b = .advance id t) ∧
      (rewards digest config).Valid (.idle db) (as ++ bs) ∧
      ((rewards digest config).exec (.idle db) (as ++ bs)).calls.rows = [] := by
  have hinvariant : RewardInvariant digest config db _ := rewardInvariant_of_valid hdb hvalid
  refine ⟨hinvariant.log.once, hinvariant.log.settled, ?_, ?_, ?_, ?_, ?_⟩
  · intro i hi j hj first second hfirst hsecond hsame
    rw [hsame] at hfirst
    exact hinvariant.sound.hash i hi j hj _ hfirst hsecond
  · rintro pre post rfl i hi
    obtain ⟨hpre, hpost⟩ := System.valid_append.mp hvalid
    have hearlier : RewardInvariant digest config db _ := rewardInvariant_of_valid hdb hpre
    rw [System.exec_append]
    obtain ⟨j, hj, hid, _, _, hsame⟩ := (persists_of_valid hearlier hpost).rows i hi
    refine ⟨j, hj, hid, fun hcancelled ↦ ?_, fun hcompleted ↦ ?_⟩
    · obtain rfl := hsame (Or.inr hcancelled)
      refine ⟨rfl, ?_⟩
      by_contra hcredited
      have hsome := hearlier.sound.credited j hi (Option.isSome_iff_ne_none.mpr hcredited)
      rw [hearlier.sound.cancelled j hi hcancelled] at hsome
      cases hsome
    · obtain rfl := hsame (Or.inl hcompleted)
      refine ⟨rfl, ?_⟩
      by_contra hcancelled
      have hnone := hearlier.sound.cancelled j hi (Option.isSome_iff_ne_none.mpr hcancelled)
      rw [hnone] at hcompleted
      cases hcompleted
  · rintro pre a post rfl
    have hearlier : RewardInvariant digest config db _ :=
      rewardInvariant_of_valid hdb (System.valid_append.mp hvalid).1
    rw [System.exec_concat]
    exact (stepOf_enabled hearlier.calls hvalid.enabled).answersSoundly hearlier
  · intro u
    have hcounted := hinvariant.log.counted u
    have htally := countP_credits_exec hdb hvalid u
    omega
  · obtain ⟨bs, hbs, hdrain, hempty⟩ :=
      rewardProtocol_drains.exists_run ((rewards digest config).exec (.idle db) as)
    refine ⟨bs, hbs, System.valid_append.mpr ⟨hvalid, hdrain⟩, ?_⟩
    rw [System.exec_append]
    exact hempty

def admobConfig : AdvertisingConfig where
  enabled := true
  androidAdUnit := "ca-app-pub-1/1234567890"
  iosAdUnit := "ca-app-pub-1/9876543210"
  rewardItem := "continuation_credit"

/-- One pending intent of the first account of `pairDb`. -/
def pendingRewardDb : RewardDb where
  base := pairDb
  intents := ⟨[{ id := 9, userId := 1, adUnit := "ca-app-pub-1/1234567890", createdAt := 0
                 expiresAt := minutes 15, completedAt := none, creditedAt := none
                 cancelledAt := none, transactionHash := none }], by decide⟩

theorem sound_pendingRewardDb : Sound pendingRewardDb := by
  have hrow : ∀ i ∈ pendingRewardDb.intents, i.completedAt = none ∧ i.creditedAt = none ∧
      i.cancelledAt = none ∧ i.transactionHash = none := by
    intro i hi
    obtain rfl := List.mem_singleton.mp hi
    exact ⟨rfl, rfl, rfl, rfl⟩
  refine ⟨fun i hi j _ h hset _ ↦ ?_, fun i hi ↦ ?_, fun i hi hset ↦ ?_, fun i hi _ ↦ (hrow i hi).1⟩
  · rw [(hrow i hi).2.2.2] at hset
    cases hset
  · rw [(hrow i hi).1, (hrow i hi).2.2.2]
    rfl
  · rw [(hrow i hi).2.1] at hset
    cases hset

def admobCallback (transactionId : String) : Callback where
  intentId := 9
  adUnit := "1234567890"
  transactionId := transactionId
  timestampMs := 1000
  rewardAmount := 1
  rewardItem := "continuation_credit"

/-- A digest that is SHA-256 on the transaction id of the run below. -/
def sampleDigest (text : String) : String :=
  if text = "abc" then "ba7816bf8f01cfea414140de5dae2223b00361a396177a9cb410ff61f20015ad" else text

/-- Two callbacks that differ in the case of the transaction id, at once. -/
def duplicatedCallback : List RewardStep :=
  [.begin 1 (.complete (admobCallback "abc")), .begin 2 (.complete (admobCallback "ABC")),
    .advance 1 ⟨seconds 2, 0, 0⟩, .advance 2 ⟨seconds 2, 0, 0⟩, .advance 1 ⟨seconds 3, 0, 0⟩,
    .advance 1 ⟨seconds 3, 0, 0⟩, .advance 1 ⟨seconds 3, 0, 0⟩, .advance 2 ⟨seconds 4, 0, 0⟩]

theorem rewards_granted_once_duplicatedCallback :
    ((rewards sampleDigest admobConfig).exec (.idle pendingRewardDb) duplicatedCallback).answers =
      [⟨.complete (admobCallback "ABC"), .replayed⟩,
        ⟨.complete (admobCallback "abc"), .settled 1 true⟩] ∧
    ((rewards sampleDigest admobConfig).exec (.idle pendingRewardDb) duplicatedCallback).db.intents.count
        (creditedTo 1) = 0 +
      (rewards sampleDigest admobConfig).tally (walletMoved sampleDigest admobConfig 1)
        (.idle pendingRewardDb) duplicatedCallback := by
  have hvalid : (rewards sampleDigest admobConfig).Valid (.idle pendingRewardDb)
      duplicatedCallback := by decide +kernel
  have honce := rewards_granted_once sampleDigest admobConfig pendingRewardDb
    sound_pendingRewardDb duplicatedCallback hvalid
  exact ⟨by decide +kernel, honce.2.2.2.2.2.1 1⟩

end Histae.Advertising
