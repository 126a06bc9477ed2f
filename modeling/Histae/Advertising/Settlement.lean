import Histae.Advertising.Rewards
import Histae.Systems.Transactions

/-!
# Concurrent reward transactions

`create`, `cancel` and `complete` as transactions in flight. Each takes the
wallet lock of a user before it reads what it decides on; a completion reads
the owner of the intent before that, and its update waits while another
completion in flight has written the same transaction hash. The inversion of
the statements says what a transaction may rely on where it acts.
-/

namespace Histae.Advertising

open Relational Systems Matches

inductive RewardRequest
  | create (id userId : Uuid) (platform : RewardPlatform) (legal : LegalConfig)
  | cancel (userId id : Uuid)
  | complete (callback : Callback)
  deriving DecidableEq

/-- How far a transaction has come; only completions pass the first phase. -/
inductive RewardPhase
  | begun
  | owned (owner : Uuid)
  | admitted (owner : Uuid) (now : ℤ) (currentWeek : Bool)
  | consumed (owner : Uuid) (now : ℤ) (currentWeek : Bool)
  deriving DecidableEq

/-- The answer of a transaction. A completion says `settled` when it consumed
the proof, and whether it credited the owner. -/
inductive RewardOutcome
  | created (intent : RewardIntent)
  | cancelled
  | replayed
  | settled (owner : Uuid) (credited : Bool)
  | refused (error : RewardError)
  deriving DecidableEq

def RewardOutcome.isOk : RewardOutcome → Bool
  | .refused _ => false
  | _ => true

abbrev RewardCall := Call RewardRequest RewardPhase

abbrev RewardTraffic := Traffic RewardDb RewardRequest RewardPhase RewardOutcome

abbrev RewardStep := CallStep RewardRequest CreationClock

abbrev RewardAnswer := Answer RewardRequest RewardOutcome

instance : Inhabited CreationClock := ⟨⟨0, 0, 0⟩⟩

section Protocol

variable (digest : String → String) (config : AdvertisingConfig)

def completeStatement (db : RewardDb) (callback : Callback) (phase : RewardPhase) (now : ℤ) :
    Progress RewardDb RewardPhase RewardOutcome :=
  match phase with
  | .begun =>
      match checkReward config callback with
      | .error error => .commit (.refused error) db
      | .ok () =>
          match db.intents.find? callback.intentId with
          | none => .commit (.refused .notFound) db
          | some row => .proceed (.owned row.userId)
  | .owned owner =>
      match lockIntent digest db owner callback now with
      | .error error => .commit (.refused error) db
      | .ok .replayed => .commit .replayed db
      | .ok (.accepted currentWeek) => .proceed (.admitted owner now currentWeek)
  | .admitted owner now currentWeek =>
      match consumeIntent digest db callback now currentWeek with
      | .error error => .commit (.refused error) db
      | .ok _ => .proceed (.consumed owner now currentWeek)
  | .consumed owner now currentWeek =>
      match consumeIntent digest db callback now currentWeek with
      | .error error => .commit (.refused error) db
      | .ok consumed =>
          match creditOwner consumed owner now currentWeek with
          | .error error => .commit (.refused error) db
          | .ok db => .commit (.settled owner currentWeek) db

def rewardStatement (db : RewardDb) (request : RewardRequest) (phase : RewardPhase)
    (t : CreationClock) : Progress RewardDb RewardPhase RewardOutcome :=
  match request, phase with
  | .create id userId platform legal, .begun =>
      match create config db id userId platform legal t with
      | .error error => .commit (.refused error) db
      | .ok (intent, db) => .commit (.created intent) db
  | .cancel userId id, .begun =>
      match cancelOn db userId id t.now with
      | .error error => .commit (.refused error) db
      | .ok db => .commit .cancelled db
  | .complete callback, phase => completeStatement digest config db callback phase t.now
  | _, _ => .rollback

/-- The transaction holds the wallet lock of the user. -/
def holdsWallet (userId : Uuid) (c : RewardCall) : Bool :=
  match c.phase with
  | .admitted owner _ _ | .consumed owner _ _ => owner = userId
  | _ => false

/-- The transaction has written the hash, without having committed. -/
def wroteHash (hash : String) (c : RewardCall) : Bool :=
  match c.request, c.phase with
  | .complete callback, .consumed _ _ _ => callback.hash digest = hash
  | _, _ => false

def rewardWaits (calls : List RewardCall) (_ : RewardDb) (request : RewardRequest) :
    RewardPhase → Bool
  | .begun =>
      match request with
      | .create _ userId _ _ => calls.any (holdsWallet userId)
      | .cancel userId _ => calls.any (holdsWallet userId)
      | .complete _ => false
  | .owned owner => calls.any (holdsWallet owner)
  | .admitted _ _ _ =>
      match request with
      | .complete callback => calls.any (wroteHash digest (callback.hash digest))
      | _ => false
  | .consumed _ _ _ => false

def rewardProtocol : Protocol RewardDb RewardRequest RewardPhase RewardOutcome CreationClock where
  start := .begun
  statement := rewardStatement digest config
  waits := rewardWaits digest

def rewards : System RewardTraffic RewardStep := (rewardProtocol digest config).system

instance (s : RewardTraffic) (a : RewardStep) : Decidable ((rewards digest config).Enabled s a) :=
  inferInstanceAs (Decidable ((rewardProtocol digest config).system.Enabled s a))

/-- The ad unit of the callback is the one of the intent, or its last part. -/
def Accepts (row : Intent) (callback : Callback) : Prop :=
  callback.adUnit = row.adUnit ∨ callback.adUnit = lastSegment row.adUnit

/-- The callback may still be consumed: its intent is open and the owner is
eligible. -/
structure Admissible (db : RewardDb) (owner : Uuid) (callback : Callback) : Prop where
  checked : checkReward config callback = .ok ()
  eligible : lockEligibleAccounts db.base [owner] none = .ok ()
  row : ∃ row, db.intents.find? callback.intentId = some row ∧ row.userId = owner ∧
    row.cancelledAt = none ∧ row.transactionHash = none ∧ Accepts row callback

/-- No other intent carries the hash of the callback. -/
def HashFree (db : RewardDb) (callback : Callback) : Prop :=
  ∀ row ∈ db.intents, row.transactionHash = some (callback.hash digest) →
    row.id = callback.intentId

def settledIntents (db : RewardDb) (callback : Callback) (now : ℤ) (currentWeek : Bool) :
    Table Intent.id :=
  db.intents.modify (fun row ↦ row.id = callback.intentId)
    (Intent.consume now (callback.hash digest) currentWeek)
    (Intent.id_consume now (callback.hash digest) currentWeek)

/-- The phases a statement can move a transaction to. -/
inductive RewardProceeds (s : RewardTraffic) (c : RewardCall) (t : CreationClock) :
    RewardPhase → Prop
  | owned (callback : Callback) (row : Intent) (hrequest : c.request = .complete callback)
      (hphase : c.phase = .begun) (hcheck : checkReward config callback = .ok ())
      (hfound : s.db.intents.find? callback.intentId = some row) :
      RewardProceeds s c t (.owned row.userId)
  | admitted (callback : Callback) (owner : Uuid) (row : Intent) (currentWeek : Bool)
      (hrequest : c.request = .complete callback) (hphase : c.phase = .owned owner)
      (hfree : ∀ d ∈ s.calls, holdsWallet owner d = false)
      (heligible : lockEligibleAccounts s.db.base [owner] none = .ok ())
      (hfound : s.db.intents.find? callback.intentId = some row)
      (hjudge : judge digest row callback t.now = .ok (.accepted currentWeek)) :
      RewardProceeds s c t (.admitted owner t.now currentWeek)
  | consumed (callback : Callback) (owner : Uuid) (now : ℤ) (currentWeek : Bool)
      (hrequest : c.request = .complete callback) (hphase : c.phase = .admitted owner now currentWeek)
      (hapart : ∀ d ∈ s.calls, wroteHash digest (callback.hash digest) d = false)
      (hhash : HashFree digest s.db callback) :
      RewardProceeds s c t (.consumed owner now currentWeek)

/-- The answers of a transaction, with the tables it commits. -/
inductive RewardCommits (s : RewardTraffic) (c : RewardCall) (t : CreationClock) :
    RewardOutcome → RewardDb → Prop
  | refused (error : RewardError) : RewardCommits s c t (.refused error) s.db
  | replayed : RewardCommits s c t .replayed s.db
  | found (intent : RewardIntent) : RewardCommits s c t (.created intent) s.db
  | created (intent : RewardIntent) (row : Intent) (intents : Table Intent.id)
      (hopen : row.completedAt = none ∧ row.creditedAt = none ∧ row.cancelledAt = none ∧
        row.transactionHash = none)
      (hinsert : s.db.intents.insert? row = some intents) :
      RewardCommits s c t (.created intent) { s.db with intents }
  | cancelled (userId : Uuid) (row : Intent)
      (hfree : ∀ d ∈ s.calls, holdsWallet userId d = false)
      (hfound : s.db.intents.find? row.id = some row) (howner : row.userId = userId)
      (hcompleted : row.completedAt = none) :
      RewardCommits s c t .cancelled { s.db with
        intents := s.db.intents.modify (fun other ↦ other.id = row.id) (Intent.cancel t.now)
          (Intent.id_cancel t.now) }
  | settled (callback : Callback) (owner : Uuid) (now : ℤ) (currentWeek : Bool) (base : Db)
      (hrequest : c.request = .complete callback) (hphase : c.phase = .consumed owner now currentWeek)
      (hhash : HashFree digest s.db callback)
      (hbase : if currentWeek then grantAdvertisingCredit s.db.base owner now = (true, base)
        else base = s.db.base) :
      RewardCommits s c t (.settled owner currentWeek)
        ⟨base, settledIntents digest s.db callback now currentWeek⟩

end Protocol

section Statement

variable {digest : String → String} {config : AdvertisingConfig} {db db' : RewardDb}
  {callback : Callback} {row : Intent} {now : ℤ} {currentWeek : Bool}

theorem judge_accepted (h : judge digest row callback now = .ok (.accepted currentWeek)) :
    row.cancelledAt = none ∧ Accepts row callback ∧ row.transactionHash = none := by
  unfold judge at h
  split at h
  · cases h
  rename_i hcancelled
  split at h
  · cases h
  rename_i hunit
  split at h
  · split at h <;> cases h
  rename_i hhash
  refine ⟨by simpa using hcancelled, ?_, hhash⟩
  rw [not_and_or, not_not, not_not] at hunit
  exact hunit

theorem judge_replayed (hcancelled : row.cancelledAt = none) (haccepts : Accepts row callback)
    (hhash : row.transactionHash = some (callback.hash digest)) :
    judge digest row callback now = .ok .replayed := by
  have hunit : ¬ (callback.adUnit ≠ row.adUnit ∧ callback.adUnit ≠ lastSegment row.adUnit) := by
    rw [not_and_or, not_not, not_not]
    exact haccepts
  simp [judge, hcancelled, hunit, hhash]

theorem consumeIntent_ok (h : consumeIntent digest db callback now currentWeek = .ok db') :
    HashFree digest db callback ∧
      db' = { db with intents := settledIntents digest db callback now currentWeek } := by
  simp only [consumeIntent] at h
  split at h
  · cases h
  · rename_i hfree
    refine ⟨fun row hrow hhash ↦ ?_, (Except.ok.inj h).symm⟩
    by_contra hid
    refine hfree (List.any_eq_true.mpr ⟨row, hrow, ?_⟩)
    simp [hid, hhash]

theorem creditOwner_ok {owner : Uuid} (h : creditOwner db owner now currentWeek = .ok db') :
    ∃ base, db' = { db with base } ∧
      if currentWeek then grantAdvertisingCredit db.base owner now = (true, base)
        else base = db.base := by
  unfold creditOwner at h
  cases currentWeek with
  | false =>
      obtain rfl := Except.ok.inj h
      exact ⟨db.base, rfl, rfl⟩
  | true =>
      simp only [Bool.not_true, Bool.false_eq_true, if_false] at h
      split at h
      · cases h
      · rename_i base hgrant
        obtain rfl := Except.ok.inj h
        exact ⟨base, rfl, hgrant⟩

theorem cancelOn_ok {userId id : Uuid} (h : cancelOn db userId id now = .ok db') :
    ∃ row, db.intents.find? row.id = some row ∧ row.userId = userId ∧ row.completedAt = none ∧
      db' = { db with
        intents := db.intents.modify (fun other ↦ other.id = row.id) (Intent.cancel now)
          (Intent.id_cancel now) } := by
  simp only [cancelOn] at h
  split at h
  · cases h
  rename_i hcount
  split at h
  · cases h
  rw [not_not] at hcount
  obtain ⟨row, hrow, htarget⟩ := Table.count_pos_iff.mp (hcount ▸ Nat.one_pos)
  simp only [Bool.and_eq_true, decide_eq_true_eq, Option.isNone_iff_eq_none] at htarget
  obtain ⟨⟨rfl, rfl⟩, hcompleted⟩ := htarget
  refine ⟨row, Table.find?_key hrow, rfl, hcompleted, ?_⟩
  rw [← Except.ok.inj h]
  congr 1
  refine Table.modify_congr fun other hother ↦ ?_
  by_cases hid : other.id = row.id
  · rw [Table.eq_of_key_eq hother hrow hid]
    simp [hcompleted]
  · simp [hid]

theorem insertIntent_ok {id userId : Uuid} {adUnit : String} {t : CreationClock}
    {intent : RewardIntent} (h : insertIntent db id userId adUnit t = .ok (intent, db')) :
    ∃ row intents, (row.completedAt = none ∧ row.creditedAt = none ∧ row.cancelledAt = none ∧
      row.transactionHash = none) ∧ db.intents.insert? row = some intents ∧
        db' = { db with intents } := by
  simp only [insertIntent] at h
  split at h
  · cases h
  · split at h
    · cases h
    · rename_i intents hinsert
      obtain ⟨-, rfl⟩ := Prod.mk.inj (Except.ok.inj h)
      exact ⟨_, intents, ⟨rfl, rfl, rfl, rfl⟩, hinsert, rfl⟩

/-- A creation either answers with the intent that keeps the slot or stores
an open one. -/
def Opens (db db' : RewardDb) : Prop :=
  db' = db ∨ ∃ row intents, (row.completedAt = none ∧ row.creditedAt = none ∧
    row.cancelledAt = none ∧ row.transactionHash = none) ∧
      db.intents.insert? row = some intents ∧ db' = { db with intents }

theorem createOn_ok {id userId : Uuid} {adUnit : String} {legal : LegalConfig} {t : CreationClock}
    {intent : RewardIntent} (h : createOn db id userId adUnit legal t = .ok (intent, db')) :
    Opens db db' := by
  simp only [createOn] at h
  split at h
  · cases h
  split at h
  · cases h
  split at h
  · cases h
  split at h
  · split at h
    · split at h
      · cases h
      · exact Or.inl (Prod.mk.inj (Except.ok.inj h)).2.symm
    · cases h
  · exact Or.inr (insertIntent_ok h)

theorem create_ok {id userId : Uuid} {platform : RewardPlatform} {legal : LegalConfig}
    {t : CreationClock} {intent : RewardIntent}
    (h : create config db id userId platform legal t = .ok (intent, db')) : Opens db db' := by
  simp only [create] at h
  split at h
  · cases h
  · exact createOn_ok h

end Statement

section Inversion

variable {digest : String → String} {config : AdvertisingConfig} {s : RewardTraffic}
  {c : RewardCall} {t : CreationClock}

/-- What the next statement of a transaction that need not wait can lead to. -/
inductive RewardSpec (digest : String → String) (config : AdvertisingConfig) (s : RewardTraffic)
    (c : RewardCall) (t : CreationClock) : Progress RewardDb RewardPhase RewardOutcome → Prop
  | proceed (phase : RewardPhase) (h : RewardProceeds digest config s c t phase) :
      RewardSpec digest config s c t (.proceed phase)
  | commit (outcome : RewardOutcome) (db : RewardDb) (h : RewardCommits digest s c t outcome db) :
      RewardSpec digest config s c t (.commit outcome db)
  | rollback : RewardSpec digest config s c t .rollback

theorem any_false {p : RewardCall → Bool} (h : s.calls.rows.any p = false) :
    ∀ d ∈ s.calls, p d = false := fun d hd ↦ by simpa using List.any_eq_false.mp h d hd

theorem rewardSpec_complete {callback : Callback} (hrequest : c.request = .complete callback)
    (hwaits : (rewardProtocol digest config).Waits s c = false) :
    RewardSpec digest config s c t
      (completeStatement digest config s.db callback c.phase t.now) := by
  cases hphase : c.phase with
  | begun =>
      simp only [completeStatement]
      split
      · exact .commit _ _ (.refused _)
      · rename_i hcheck
        split
        · exact .commit _ _ (.refused _)
        · rename_i row hfound
          exact .proceed _ (.owned callback row hrequest hphase hcheck hfound)
  | owned owner =>
      rw [Protocol.Waits, hphase] at hwaits
      simp only [completeStatement, lockIntent]
      cases heligible : lockEligibleAccounts s.db.base [owner] none with
      | error error => exact .commit _ _ (.refused _)
      | ok value =>
          cases hfound : s.db.intents.find? callback.intentId with
          | none => exact .commit _ _ (.refused _)
          | some row =>
              cases hjudge : judge digest row callback t.now with
              | error error => simpa [hjudge] using .commit _ _ (.refused _)
              | ok admission =>
                  cases admission with
                  | replayed => simpa [hjudge] using .commit _ _ .replayed
                  | accepted currentWeek =>
                      have hstep : RewardProceeds digest config s c t
                          (.admitted owner t.now currentWeek) :=
                        .admitted callback owner row currentWeek hrequest hphase (any_false hwaits)
                          heligible hfound hjudge
                      simpa [hjudge] using RewardSpec.proceed _ hstep
  | admitted owner now currentWeek =>
      rw [Protocol.Waits, hphase, hrequest] at hwaits
      simp only [completeStatement]
      split
      · exact .commit _ _ (.refused _)
      · rename_i db hconsume
        have hhash := (consumeIntent_ok hconsume).1
        exact .proceed _
          (.consumed callback owner now currentWeek hrequest hphase (any_false hwaits) hhash)
  | consumed owner now currentWeek =>
      simp only [completeStatement]
      split
      · exact .commit _ _ (.refused _)
      · rename_i consumed hconsume
        obtain ⟨hhash, rfl⟩ := consumeIntent_ok hconsume
        split
        · exact .commit _ _ (.refused _)
        · rename_i db hcredit
          obtain ⟨base, rfl, hbase⟩ := creditOwner_ok hcredit
          exact .commit _ _ (.settled callback owner now currentWeek base hrequest hphase hhash hbase)

theorem rewardSpec (hwaits : (rewardProtocol digest config).Waits s c = false) :
    RewardSpec digest config s c t (rewardStatement digest config s.db c.request c.phase t) := by
  cases hrequest : c.request with
  | complete callback =>
      have hspec := rewardSpec_complete (t := t) hrequest hwaits
      cases hphase : c.phase <;> simpa only [rewardStatement, hphase] using hspec
  | create id userId platform legal =>
      cases hphase : c.phase with
      | begun =>
          simp only [rewardStatement]
          split
          · exact .commit _ _ (.refused _)
          · rename_i intent db hcreate
            rcases create_ok hcreate with rfl | ⟨row, intents, hopen, hinsert, rfl⟩
            · exact .commit _ _ (.found intent)
            · exact .commit _ _ (.created intent row intents hopen hinsert)
      | _ => exact .rollback
  | cancel userId id =>
      cases hphase : c.phase with
      | begun =>
          rw [Protocol.Waits, hphase, hrequest] at hwaits
          simp only [rewardStatement]
          split
          · exact .commit _ _ (.refused _)
          · rename_i db hcancel
            obtain ⟨row, hfound, howner, hcompleted, rfl⟩ := cancelOn_ok hcancel
            exact .commit _ _ (.cancelled userId row (any_false hwaits) hfound howner hcompleted)
      | _ => exact .rollback

theorem rewardProceeds_of_statement (hwaits : (rewardProtocol digest config).Waits s c = false)
    {phase : RewardPhase}
    (h : (rewardProtocol digest config).statement s.db c.request c.phase t = .proceed phase) :
    RewardProceeds digest config s c t phase := by
  have hspec := rewardSpec (t := t) hwaits
  rw [show rewardStatement digest config s.db c.request c.phase t = .proceed phase from h] at hspec
  cases hspec with
  | proceed _ h => exact h

theorem rewardCommits_of_statement (hwaits : (rewardProtocol digest config).Waits s c = false)
    {outcome : RewardOutcome} {db : RewardDb}
    (h : (rewardProtocol digest config).statement s.db c.request c.phase t = .commit outcome db) :
    RewardCommits digest s c t outcome db := by
  have hspec := rewardSpec (t := t) hwaits
  rw [show rewardStatement digest config s.db c.request c.phase t = .commit outcome db from h]
    at hspec
  cases hspec with
  | commit _ _ h => exact h

end Inversion

section Alone

variable {digest : String → String} {config : AdvertisingConfig} {db db' : RewardDb}

theorem rewardProtocol_selfless : (rewardProtocol digest config).Selfless := by
  intro db c
  cases hrequest : c.request <;> cases hphase : c.phase <;>
    simp [rewardProtocol, rewardWaits, hphase, hrequest, holdsWallet, wroteHash]

/-- A completion that runs alone writes what the transaction does in one
step. -/
theorem complete_alone {callback : Callback} {now : ℤ}
    (h : complete digest config db callback now = .ok db') :
    ∃ as outcome, RewardOutcome.isOk outcome = true ∧ (rewards digest config).Valid (.idle db) as ∧
      (rewards digest config).exec (.idle db) as = ⟨db', ∅, [⟨.complete callback, outcome⟩]⟩ := by
  suffices hcompletes : ∃ outcome, RewardOutcome.isOk outcome = true ∧
      (rewardProtocol digest config).Completes db ⟨0, .complete callback, .begun⟩ outcome db' by
    obtain ⟨outcome, hok, hcompletes⟩ := hcompletes
    obtain ⟨as, hvalid, hexec⟩ := hcompletes.exists_run
    exact ⟨as, outcome, hok, hvalid, hexec⟩
  have hself : (rewardProtocol digest config).Selfless := rewardProtocol_selfless
  let t : CreationClock := ⟨now, 0, 0⟩
  unfold complete at h
  split at h
  · cases h
  rename_i hcheck
  unfold completeOn at h
  split at h
  · cases h
  rename_i row hfound
  have hbegun : (rewardProtocol digest config).statement db (.complete callback) .begun t =
      .proceed (.owned row.userId) := by
    simp only [rewardProtocol, rewardStatement, completeStatement, hcheck, hfound]
  split at h
  · cases h
  · rename_i hlock
    obtain rfl := Except.ok.inj h
    refine ⟨.replayed, rfl, Protocol.completes_of_proceed hself hbegun ?_⟩
    refine Protocol.completes_of_commit hself t ?_
    simp only [rewardProtocol, rewardStatement, completeStatement, Call.withPhase, t, hlock]
  · rename_i currentWeek hlock
    have howned : (rewardProtocol digest config).statement db (.complete callback)
        (.owned row.userId) t = .proceed (.admitted row.userId now currentWeek) := by
      simp only [rewardProtocol, rewardStatement, completeStatement, t, hlock]
    split at h
    · cases h
    · rename_i consumed hconsume
      have hadmitted : (rewardProtocol digest config).statement db (.complete callback)
          (.admitted row.userId now currentWeek) t =
            .proceed (.consumed row.userId now currentWeek) := by
        simp only [rewardProtocol, rewardStatement, completeStatement, hconsume]
      refine ⟨.settled row.userId currentWeek, rfl, Protocol.completes_of_proceed hself hbegun ?_⟩
      refine Protocol.completes_of_proceed hself howned ?_
      refine Protocol.completes_of_proceed hself hadmitted ?_
      refine Protocol.completes_of_commit hself t ?_
      simp only [rewardProtocol, rewardStatement, completeStatement, Call.withPhase, hconsume, h]

end Alone

end Histae.Advertising
