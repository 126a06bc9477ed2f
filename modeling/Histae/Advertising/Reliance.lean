import Histae.Advertising.Settlement

/-!
# What reward transactions rely on

`CallsSound` says what the transactions in flight rely on: a held wallet has
one holder, the intent of a holder is still open, and a written hash is free.
Every commit keeps it, keeps the constraints of the intent table, and leaves
completed and cancelled intents as they are.
-/

namespace Histae.Advertising

open Relational Systems Matches

/-- The constraints of the intent table. -/
structure Sound (db : RewardDb) : Prop where
  hash : ∀ i ∈ db.intents, ∀ j ∈ db.intents, ∀ h, i.transactionHash = some h →
    j.transactionHash = some h → i = j
  completed : ∀ i ∈ db.intents, i.completedAt.isSome = i.transactionHash.isSome
  credited : ∀ i ∈ db.intents, i.creditedAt.isSome = true → i.completedAt.isSome = true
  cancelled : ∀ i ∈ db.intents, i.cancelledAt.isSome = true → i.completedAt = none

/-- Completed and cancelled intents stay as they are, no intent changes its
owner or its ad unit, and the accounts are untouched. -/
structure Persists (db db' : RewardDb) : Prop where
  accounts : db'.base.accounts = db.base.accounts
  rows : ∀ i ∈ db.intents, ∃ j ∈ db'.intents, j.id = i.id ∧ j.userId = i.userId ∧
    j.adUnit = i.adUnit ∧ (i.completedAt.isSome = true ∨ i.cancelledAt.isSome = true → j = i)

namespace Persists

variable {db db' db'' : RewardDb}

theorem refl (db : RewardDb) : Persists db db :=
  ⟨rfl, fun i hi ↦ ⟨i, hi, rfl, rfl, rfl, fun _ ↦ rfl⟩⟩

theorem trans (h : Persists db db') (h' : Persists db' db'') : Persists db db'' := by
  refine ⟨h'.accounts.trans h.accounts, fun i hi ↦ ?_⟩
  obtain ⟨j, hj, hid, huser, hunit, hsame⟩ := h.rows i hi
  obtain ⟨k, hk, hid', huser', hunit', hsame'⟩ := h'.rows j hj
  refine ⟨k, hk, hid'.trans hid, huser'.trans huser, hunit'.trans hunit, fun hclosed ↦ ?_⟩
  obtain rfl := hsame hclosed
  exact hsame' hclosed

theorem of_insert {row : Intent} {intents : Table Intent.id}
    (h : db.intents.insert? row = some intents) : Persists db { db with intents } :=
  ⟨rfl, fun i hi ↦ ⟨i, (Table.mem_insert h).mpr (Or.inr hi), rfl, rfl, rfl, fun _ ↦ rfl⟩⟩

/-- The update of one intent that is open, or stays as it is. -/
theorem of_modify {row : Intent} (hrow : row ∈ db.intents) {f : Intent → Intent}
    (hf : ∀ i, (f i).id = i.id) (huser : (f row).userId = row.userId)
    (hunit : (f row).adUnit = row.adUnit)
    (hclosed : row.completedAt.isSome = true ∨ row.cancelledAt.isSome = true → f row = row)
    {base : Db} (hbase : base.accounts = db.base.accounts) :
    Persists db ⟨base, db.intents.modify (fun i ↦ i.id = row.id) f hf⟩ := by
  refine ⟨hbase, fun i hi ↦ ?_⟩
  by_cases hid : i.id = row.id
  · obtain rfl := Table.eq_of_key_eq hi hrow hid
    exact ⟨f i, (Table.mem_modify_key hf hrow).mpr (Or.inl rfl), hf i, huser, hunit, hclosed⟩
  · exact ⟨i, (Table.mem_modify_key hf hrow).mpr (Or.inr ⟨hi, hid⟩), rfl, rfl, rfl, fun _ ↦ rfl⟩

theorem eligible (h : Persists db db') {owner : Uuid}
    (heligible : lockEligibleAccounts db.base [owner] none = .ok ()) :
    lockEligibleAccounts db'.base [owner] none = .ok () := by
  have hsame : lockEligibleAccounts db'.base [owner] none =
      lockEligibleAccounts db.base [owner] none := by
    unfold lockEligibleAccounts
    rw [h.accounts]
    rfl
  rw [hsame]
  exact heligible

end Persists

theorem Intent.cancel_of_isSome {row : Intent} {clock : ℤ} (h : row.cancelledAt.isSome = true) :
    row.cancel clock = row := by
  obtain ⟨at_, hat⟩ := Option.isSome_iff_exists.mp h
  cases row
  simp_all [Intent.cancel]

/-- A completion past its first statement knows the owner of its intent. -/
def Owned (config : AdvertisingConfig) (db : RewardDb) (owner : Uuid) (callback : Callback) : Prop :=
  checkReward config callback = .ok () ∧
    ∃ row ∈ db.intents, row.id = callback.intentId ∧ row.userId = owner

structure CallsSound (digest : String → String) (config : AdvertisingConfig)
    (s : RewardTraffic) : Prop where
  exclusive : ∀ c ∈ s.calls, ∀ d ∈ s.calls, ∀ u, holdsWallet u c = true →
    holdsWallet u d = true → c = d
  owned : ∀ c ∈ s.calls, ∀ owner, c.phase = .owned owner →
    ∃ callback, c.request = .complete callback ∧ Owned config s.db owner callback
  admitted : ∀ c ∈ s.calls, ∀ owner, holdsWallet owner c = true →
    ∃ callback, c.request = .complete callback ∧ Admissible config s.db owner callback
  apart : ∀ c ∈ s.calls, ∀ d ∈ s.calls, ∀ h, wroteHash digest h c = true →
    wroteHash digest h d = true → c = d
  free : ∀ c ∈ s.calls, ∀ callback, c.request = .complete callback →
    wroteHash digest (callback.hash digest) c = true → HashFree digest s.db callback

section Phases

variable {digest : String → String} {c : RewardCall} {owner : Uuid} {now : ℤ} {currentWeek : Bool}

theorem holdsWallet_of_consumed (h : c.phase = .consumed owner now currentWeek) :
    holdsWallet owner c = true := by simp [holdsWallet, h]

theorem holdsWallet_of_admitted (h : c.phase = .admitted owner now currentWeek) :
    holdsWallet owner c = true := by simp [holdsWallet, h]

theorem wroteHash_of_consumed {callback : Callback} (hrequest : c.request = .complete callback)
    (h : c.phase = .consumed owner now currentWeek) :
    wroteHash digest (callback.hash digest) c = true := by simp [wroteHash, hrequest, h]

theorem ne_begun_of_holdsWallet {u : Uuid} (h : holdsWallet u c = true) : c.phase ≠ .begun := by
  intro hphase
  simp [holdsWallet, hphase] at h

theorem ne_begun_of_wroteHash {hash : String} (h : wroteHash digest hash c = true) :
    c.phase ≠ .begun := by
  intro hphase
  cases hrequest : c.request <;> simp [wroteHash, hphase, hrequest] at h

end Phases

namespace CallsSound

variable {digest : String → String} {config : AdvertisingConfig} {s : RewardTraffic}
  {c : RewardCall} {t : CreationClock}

/-- New and departing transactions: all others were there before. -/
theorem of_calls (h : CallsSound digest config s) {calls : Table (Call.id : RewardCall → ℕ)}
    (hcalls : ∀ d ∈ calls, d.phase ≠ .begun → d ∈ s.calls) :
    CallsSound digest config { s with calls } where
  exclusive c hc d hd u hcholds hdholds :=
    h.exclusive c (hcalls c hc (ne_begun_of_holdsWallet hcholds)) d
      (hcalls d hd (ne_begun_of_holdsWallet hdholds)) u hcholds hdholds
  owned c hc owner hphase := h.owned c (hcalls c hc (by simp [hphase])) owner hphase
  admitted c hc owner hholds :=
    h.admitted c (hcalls c hc (ne_begun_of_holdsWallet hholds)) owner hholds
  apart c hc d hd hash hcwrote hdwrote :=
    h.apart c (hcalls c hc (ne_begun_of_wroteHash hcwrote)) d
      (hcalls d hd (ne_begun_of_wroteHash hdwrote)) hash hcwrote hdwrote
  free c hc callback hrequest hwrote :=
    h.free c (hcalls c hc (ne_begun_of_wroteHash hwrote)) callback hrequest hwrote

theorem leave (h : CallsSound digest config s) (id : ℕ) :
    CallsSound digest config { s with calls := s.leave id } :=
  h.of_calls fun _ hd _ ↦ (Traffic.mem_leave.mp hd).1

theorem of_proceed (h : CallsSound digest config s) (hc : c ∈ s.calls) {phase : RewardPhase}
    (howned : ∀ owner, phase = .owned owner →
      ∃ callback, c.request = .complete callback ∧ Owned config s.db owner callback)
    (hwallet : ∀ u, holdsWallet u (c.withPhase phase) = true →
      (∀ d ∈ s.calls, d.id ≠ c.id → holdsWallet u d = false) ∧
        ∃ callback, c.request = .complete callback ∧ Admissible config s.db u callback)
    (hwrote : ∀ hash, wroteHash digest hash (c.withPhase phase) = true →
      (∀ d ∈ s.calls, wroteHash digest hash d = false) ∧
        ∀ callback, c.request = .complete callback → HashFree digest s.db callback) :
    CallsSound digest config { s with calls := s.proceed c.id phase } := by
  have hmem : ∀ {d}, d ∈ s.proceed c.id phase ↔
      d = c.withPhase phase ∨ d ∈ s.calls ∧ d.id ≠ c.id := Traffic.mem_proceed hc
  refine ⟨?_, ?_, ?_, ?_, ?_⟩
  · intro d hd e he u hdholds heholds
    rcases hmem.mp hd with rfl | ⟨hd, hdid⟩
    · rcases hmem.mp he with rfl | ⟨he, heid⟩
      · rfl
      · rw [(hwallet u hdholds).1 e he heid] at heholds
        cases heholds
    · rcases hmem.mp he with rfl | ⟨he, heid⟩
      · rw [(hwallet u heholds).1 d hd hdid] at hdholds
        cases hdholds
      · exact h.exclusive d hd e he u hdholds heholds
  · intro d hd owner hphase
    rcases hmem.mp hd with rfl | ⟨hd, _⟩
    · exact howned owner hphase
    · exact h.owned d hd owner hphase
  · intro d hd owner hholds
    rcases hmem.mp hd with rfl | ⟨hd, _⟩
    · exact (hwallet owner hholds).2
    · exact h.admitted d hd owner hholds
  · intro d hd e he hash hdwrote hewrote
    rcases hmem.mp hd with rfl | ⟨hd, _⟩
    · rcases hmem.mp he with rfl | ⟨he, _⟩
      · rfl
      · rw [(hwrote hash hdwrote).1 e he] at hewrote
        cases hewrote
    · rcases hmem.mp he with rfl | ⟨he, _⟩
      · rw [(hwrote hash hewrote).1 d hd] at hdwrote
        cases hdwrote
      · exact h.apart d hd e he hash hdwrote hewrote
  · intro d hd callback hrequest hdwrote
    rcases hmem.mp hd with rfl | ⟨hd, _⟩
    · exact (hwrote _ hdwrote).2 callback hrequest
    · exact h.free d hd callback hrequest hdwrote

theorem proceeded (h : CallsSound digest config s) (hc : c ∈ s.calls) {phase : RewardPhase}
    (hstep : RewardProceeds digest config s c t phase) :
    CallsSound digest config { s with calls := s.proceed c.id phase } := by
  cases hstep with
  | owned callback row hrequest hphase hcheck hfound =>
      obtain ⟨hrow, hid⟩ := Table.find?_eq_some_iff.mp hfound
      refine h.of_proceed hc (fun owner howner ↦ ?_) (fun u hholds ↦ ?_) fun hash hwrote ↦ ?_
      · obtain rfl := RewardPhase.owned.inj howner
        exact ⟨callback, hrequest, hcheck, row, hrow, hid, rfl⟩
      · simp [holdsWallet, Call.withPhase] at hholds
      · simp [wroteHash, Call.withPhase, hrequest] at hwrote
  | admitted callback owner row currentWeek hrequest hphase hfree heligible hfound hjudge =>
      obtain ⟨callback', hrequest', hcheck, stored, hstored, hid, howner⟩ :=
        h.owned c hc owner hphase
      obtain rfl := RewardRequest.complete.inj (hrequest'.symm.trans hrequest)
      obtain ⟨hcancelled, haccepts, hhash⟩ := judge_accepted hjudge
      have hrow : row.userId = owner := by
        obtain ⟨hrow, hid'⟩ := Table.find?_eq_some_iff.mp hfound
        rw [← howner, Table.eq_of_key_eq hrow hstored (hid'.trans hid.symm)]
      refine h.of_proceed hc (fun _ howned ↦ ?_) (fun u hholds ↦ ?_) fun hash hwrote ↦ ?_
      · cases howned
      · have hu : owner = u := by simpa [holdsWallet, Call.withPhase] using hholds
        subst hu
        exact ⟨fun d hd _ ↦ hfree d hd, callback', hrequest, hcheck, heligible, row, hfound, hrow,
          hcancelled, hhash, haccepts⟩
      · simp [wroteHash, Call.withPhase, hrequest] at hwrote
  | consumed callback owner now currentWeek hrequest hphase hapart hhash =>
      have hholdsOld := holdsWallet_of_admitted hphase
      refine h.of_proceed hc (fun _ howned ↦ ?_) (fun u hholds ↦ ?_) fun hash hwrote ↦ ?_
      · cases howned
      · have hu : owner = u := by simpa [holdsWallet, Call.withPhase] using hholds
        subst hu
        refine ⟨fun d hd hid ↦ ?_, h.admitted c hc owner hholdsOld⟩
        by_contra hother
        rw [Bool.not_eq_false] at hother
        exact hid (congrArg Call.id (h.exclusive d hd c hc owner hother hholdsOld))
      · have hsame : callback.hash digest = hash := by
          simpa [wroteHash, Call.withPhase, hrequest] using hwrote
        subst hsame
        refine ⟨hapart, fun other hother ↦ ?_⟩
        obtain rfl := RewardRequest.complete.inj (hrequest.symm.trans hother)
        exact hhash

theorem of_commit (h : CallsSound digest config s) {db : RewardDb} {answers : List RewardAnswer}
    (hpersists : Persists s.db db)
    (hrows : ∀ d ∈ s.calls, d.id ≠ c.id → ∀ owner, holdsWallet owner d = true →
      ∀ row ∈ s.db.intents, row.userId = owner → row ∈ db.intents)
    (hhash : ∀ d ∈ s.calls, d.id ≠ c.id → ∀ callback, d.request = .complete callback →
      wroteHash digest (callback.hash digest) d = true → HashFree digest db callback) :
    CallsSound digest config ⟨db, s.leave c.id, answers⟩ := by
  have hold := h.leave c.id
  refine ⟨hold.exclusive, ?_, ?_, hold.apart, ?_⟩
  · intro d hd owner hphase
    obtain ⟨callback, hrequest, hcheck, row, hrow, hid, howner⟩ :=
      h.owned d (Traffic.mem_leave.mp hd).1 owner hphase
    obtain ⟨row', hrow', hid', huser', _⟩ := hpersists.rows row hrow
    exact ⟨callback, hrequest, hcheck, row', hrow', hid'.trans hid, huser'.trans howner⟩
  · intro d hd owner hholds
    obtain ⟨hd, hne⟩ := Traffic.mem_leave.mp hd
    obtain ⟨callback, hrequest, hadmissible⟩ := h.admitted d hd owner hholds
    obtain ⟨row, hfound, howner, hopen⟩ := hadmissible.row
    obtain ⟨hrow, hid⟩ := Table.find?_eq_some_iff.mp hfound
    have hkept : row ∈ db.intents := hrows d hd hne owner hholds row hrow howner
    exact ⟨callback, hrequest, hadmissible.checked, hpersists.eligible hadmissible.eligible, row,
      Table.find?_eq_some_iff.mpr ⟨hkept, hid⟩, howner, hopen⟩
  · intro d hd callback hrequest hwrote
    obtain ⟨hd, hne⟩ := Traffic.mem_leave.mp hd
    exact hhash d hd hne callback hrequest hwrote

end CallsSound

/-- The open intent that a transaction about to settle consumes. -/
theorem CallsSound.intent {digest : String → String} {config : AdvertisingConfig}
    {s : RewardTraffic} {c : RewardCall} (h : CallsSound digest config s) (hc : c ∈ s.calls)
    {callback : Callback} (hrequest : c.request = .complete callback) {owner : Uuid}
    (hholds : holdsWallet owner c = true) :
    Admissible config s.db owner callback ∧ ∃ row ∈ s.db.intents, row.id = callback.intentId ∧
      row.userId = owner ∧ row.cancelledAt = none ∧ row.transactionHash = none ∧
      Accepts row callback := by
  obtain ⟨callback', hrequest', hadmissible⟩ := h.admitted c hc owner hholds
  obtain rfl := RewardRequest.complete.inj (hrequest'.symm.trans hrequest)
  obtain ⟨row, hfound, hopen⟩ := hadmissible.row
  obtain ⟨hrow, hid⟩ := Table.find?_eq_some_iff.mp hfound
  exact ⟨hadmissible, row, hrow, hid, hopen⟩

section Commit

variable {digest : String → String} {config : AdvertisingConfig} {s : RewardTraffic}
  {c : RewardCall} {t : CreationClock} {outcome : RewardOutcome} {db : RewardDb}

theorem Sound.not_completed {db : RewardDb} (h : Sound db) {row : Intent} (hrow : row ∈ db.intents)
    (hhash : row.transactionHash = none) : row.completedAt = none := by
  have hcompleted := h.completed row hrow
  rw [hhash] at hcompleted
  simpa using hcompleted

/-- The intents after a settlement: the one of the callback carries its hash,
all others are as before. -/
theorem mem_settledIntents {callback : Callback} {row : Intent} (hrow : row ∈ s.db.intents)
    (hid : row.id = callback.intentId) {now : ℤ} {currentWeek : Bool} {i : Intent} :
    i ∈ settledIntents digest s.db callback now currentWeek ↔
      i = row.consume now (callback.hash digest) currentWeek ∨
        i ∈ s.db.intents ∧ i.id ≠ row.id := by
  unfold settledIntents
  rw [← hid]
  exact Table.mem_modify_key (Intent.id_consume now (callback.hash digest) currentWeek) hrow

theorem RewardCommits.persists (h : CallsSound digest config s) (hsound : Sound s.db)
    (hc : c ∈ s.calls) (hcommit : RewardCommits digest s c t outcome db) : Persists s.db db := by
  cases hcommit with
  | refused error => exact .refl s.db
  | replayed => exact .refl s.db
  | found intent => exact .refl s.db
  | created intent row intents hopen hinsert => exact .of_insert hinsert
  | cancelled userId row hfree hfound howner hcompleted =>
      have hrow := (Table.find?_eq_some_iff.mp hfound).1
      refine Persists.of_modify hrow (Intent.id_cancel t.now) rfl rfl ?_ rfl
      rintro (hclosed | hclosed)
      · simp [hcompleted] at hclosed
      · exact Intent.cancel_of_isSome hclosed
  | settled callback owner now currentWeek base hrequest hphase hhash hbase =>
      obtain ⟨_, row, hrow, hid, _, hcancelled, hunset, _⟩ :=
        h.intent hc hrequest (holdsWallet_of_consumed hphase)
      have hcompleted := hsound.not_completed hrow hunset
      have haccounts : base.accounts = s.db.base.accounts := by
        cases currentWeek with
        | false => exact congrArg Db.accounts hbase
        | true =>
            obtain ⟨wallets, rfl, _⟩ := grantAdvertisingCredit_true hbase
            rfl
      unfold settledIntents
      rw [← hid]
      refine Persists.of_modify hrow _ rfl rfl ?_ haccounts
      rintro (hclosed | hclosed)
      · simp [hcompleted] at hclosed
      · simp [hcancelled] at hclosed

theorem CallsSound.answered (h : CallsSound digest config s) (hsound : Sound s.db)
    (hc : c ∈ s.calls) (hcommit : RewardCommits digest s c t outcome db)
    {answers : List RewardAnswer} : CallsSound digest config ⟨db, s.leave c.id, answers⟩ := by
  have hpersists := hcommit.persists h hsound hc
  cases hcommit with
  | refused error => exact h.of_commit hpersists (fun _ _ _ _ _ _ hrow _ ↦ hrow) fun d hd _ ↦ h.free d hd
  | replayed => exact h.of_commit hpersists (fun _ _ _ _ _ _ hrow _ ↦ hrow) fun d hd _ ↦ h.free d hd
  | found intent =>
      exact h.of_commit hpersists (fun _ _ _ _ _ _ hrow _ ↦ hrow) fun d hd _ ↦ h.free d hd
  | created intent row intents hopen hinsert =>
      refine h.of_commit hpersists (fun _ _ _ _ _ i hi _ ↦ (Table.mem_insert hinsert).mpr (Or.inr hi))
        fun d hd _ callback hrequest hwrote i hi hhash ↦ ?_
      rcases (Table.mem_insert hinsert).mp hi with rfl | hi
      · rw [hopen.2.2.2] at hhash
        cases hhash
      · exact h.free d hd callback hrequest hwrote i hi hhash
  | cancelled userId row hfree hfound howner hcompleted =>
      have hrow := (Table.find?_eq_some_iff.mp hfound).1
      refine h.of_commit hpersists (fun d hd _ owner hholds i hi huser ↦ ?_)
        fun d hd _ callback hrequest hwrote i hi hhash ↦ ?_
      · refine (Table.mem_modify_key (Intent.id_cancel t.now) hrow).mpr (Or.inr ⟨hi, fun hid ↦ ?_⟩)
        rw [Table.eq_of_key_eq hi hrow hid, howner] at huser
        rw [← huser, hfree d hd] at hholds
        cases hholds
      · rcases (Table.mem_modify_key (Intent.id_cancel t.now) hrow).mp hi with rfl | ⟨hi, _⟩
        · exact h.free d hd callback hrequest hwrote row hrow hhash
        · exact h.free d hd callback hrequest hwrote i hi hhash
  | settled callback owner now currentWeek base hrequest hphase hhash hbase =>
      have hholdsOwn := holdsWallet_of_consumed hphase
      obtain ⟨_, row, hrow, hid, howner, _⟩ := h.intent hc hrequest hholdsOwn
      have hmem : ∀ {i}, i ∈ settledIntents digest s.db callback now currentWeek ↔
          i = row.consume now (callback.hash digest) currentWeek ∨
            i ∈ s.db.intents ∧ i.id ≠ row.id := mem_settledIntents hrow hid
      refine h.of_commit hpersists (fun d hd hne other hholds i hi huser ↦ ?_)
        fun d hd hne callback' hrequest' hwrote i hi hsame ↦ ?_
      · refine hmem.mpr (Or.inr ⟨hi, fun hid ↦ ?_⟩)
        rw [Table.eq_of_key_eq hi hrow hid, howner] at huser
        subst huser
        exact hne (congrArg Call.id (h.exclusive d hd c hc owner hholds hholdsOwn))
      · rcases hmem.mp hi with rfl | ⟨hi, _⟩
        · have hwroteOwn : wroteHash digest (callback.hash digest) c = true :=
            wroteHash_of_consumed hrequest hphase
          have hequal : callback.hash digest = callback'.hash digest := Option.some.inj hsame
          rw [← hequal] at hwrote
          exact absurd (congrArg Call.id (h.apart d hd c hc _ hwrote hwroteOwn)) hne
        · exact h.free d hd callback' hrequest' hwrote i hi hsame

theorem Sound.created {row : Intent} {intents : Table Intent.id} {db : RewardDb} (h : Sound db)
    (hopen : row.completedAt = none ∧ row.creditedAt = none ∧ row.cancelledAt = none ∧
      row.transactionHash = none) (hinsert : db.intents.insert? row = some intents) :
    Sound { db with intents } := by
  obtain ⟨hcompleted, hcredited, hcancelled, hhash⟩ := hopen
  have hmem : ∀ {i}, i ∈ intents ↔ i = row ∨ i ∈ db.intents := Table.mem_insert hinsert
  have hold : ∀ i ∈ intents, ∀ h, i.transactionHash = some h → i ∈ db.intents := by
    intro i hi h hset
    rcases hmem.mp hi with rfl | hi
    · rw [hhash] at hset
      cases hset
    · exact hi
  refine ⟨fun i hi j hj hash hset hset' ↦ ?_, fun i hi ↦ ?_, fun i hi hset ↦ ?_, fun i hi hset ↦ ?_⟩
  · exact h.hash i (hold i hi hash hset) j (hold j hj hash hset') hash hset hset'
  · rcases hmem.mp hi with rfl | hi
    · rw [hcompleted, hhash]
      rfl
    · exact h.completed i hi
  · rcases hmem.mp hi with rfl | hi
    · simp [hcredited] at hset
    · exact h.credited i hi hset
  · rcases hmem.mp hi with rfl | hi
    · exact hcompleted
    · exact h.cancelled i hi hset

/-- The update of one intent to a row that satisfies the constraints and whose
hash, if it has one, is carried by no other intent. -/
theorem Sound.modified {db : RewardDb} (h : Sound db) {row : Intent} (hrow : row ∈ db.intents)
    {f : Intent → Intent} (hf : ∀ i, (f i).id = i.id)
    (hhash : ∀ hash, (f row).transactionHash = some hash → ∀ i ∈ db.intents,
      i.transactionHash = some hash → i.id = row.id)
    (hcompleted : (f row).completedAt.isSome = (f row).transactionHash.isSome)
    (hcredited : (f row).creditedAt.isSome = true → (f row).completedAt.isSome = true)
    (hcancelled : (f row).cancelledAt.isSome = true → (f row).completedAt = none) {base : Db} :
    Sound ⟨base, db.intents.modify (fun i ↦ i.id = row.id) f hf⟩ := by
  have hmem : ∀ {i}, i ∈ db.intents.modify (fun i ↦ i.id = row.id) f hf ↔
      i = f row ∨ i ∈ db.intents ∧ i.id ≠ row.id := Table.mem_modify_key hf hrow
  refine ⟨fun i hi j hj hash hset hset' ↦ ?_, fun i hi ↦ ?_, fun i hi hset ↦ ?_, fun i hi hset ↦ ?_⟩
  · rcases hmem.mp hi with rfl | ⟨hi, hne⟩
    · rcases hmem.mp hj with rfl | ⟨hj, hne'⟩
      · rfl
      · exact absurd (hhash hash hset j hj hset') hne'
    · rcases hmem.mp hj with rfl | ⟨hj, hne'⟩
      · exact absurd (hhash hash hset' i hi hset) hne
      · exact h.hash i hi j hj hash hset hset'
  · rcases hmem.mp hi with rfl | ⟨hi, _⟩
    · exact hcompleted
    · exact h.completed i hi
  · rcases hmem.mp hi with rfl | ⟨hi, _⟩
    · exact hcredited hset
    · exact h.credited i hi hset
  · rcases hmem.mp hi with rfl | ⟨hi, _⟩
    · exact hcancelled hset
    · exact h.cancelled i hi hset

theorem RewardCommits.sound (h : CallsSound digest config s) (hsound : Sound s.db)
    (hc : c ∈ s.calls) (hcommit : RewardCommits digest s c t outcome db) : Sound db := by
  cases hcommit with
  | refused error => exact hsound
  | replayed => exact hsound
  | found intent => exact hsound
  | created intent row intents hopen hinsert => exact hsound.created hopen hinsert
  | cancelled userId row hfree hfound howner hcompleted =>
      have hrow := (Table.find?_eq_some_iff.mp hfound).1
      refine hsound.modified hrow (Intent.id_cancel t.now) (fun hash hset i hi hset' ↦ ?_)
        (hsound.completed row hrow) (hsound.credited row hrow) fun _ ↦ hcompleted
      rw [hsound.hash i hi row hrow hash hset' hset]
  | settled callback owner now currentWeek base hrequest hphase hhash hbase =>
      obtain ⟨_, row, hrow, hid, _, hcancelled, _⟩ :=
        h.intent hc hrequest (holdsWallet_of_consumed hphase)
      unfold settledIntents
      rw [← hid]
      refine hsound.modified hrow _ (fun hash hset i hi hset' ↦ ?_) rfl (fun _ ↦ rfl) fun hset ↦ ?_
      · obtain rfl := Option.some.inj hset
        rw [hhash i hi hset', hid]
      · have hnone : row.cancelledAt.isSome = true := hset
        rw [hcancelled] at hnone
        cases hnone

end Commit

end Histae.Advertising
