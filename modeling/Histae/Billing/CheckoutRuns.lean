import Mathlib
import Histae.Billing.Checkouts
import Histae.Billing.Reconciliation
import Histae.Matches.Cursor

/-!
# Runs of checkouts

Workers of `create_checkout` begin attempts, keep the request they are about
to send, send it, and open or fail the attempt; they stall anywhere, and a
later call takes the attempt over under a new generation. Webhooks, the
replacement of an open session and the recovery of a customer act in
between. `Touch` says everything that a step can do to an attempt.
-/

namespace Histae.Billing

open Relational Systems

structure StripeSession where
  id : String
  url : Option String
  expiresAt : ℤ
  deriving DecidableEq

/-- An attempt handed to a worker. -/
structure Grant where
  attemptId : Uuid
  generation : ℕ
  userId : Uuid
  idempotencyKey : Uuid
  deriving DecidableEq

/-- The state of the module, with what its workers were handed, have read
back, have sent and have answered. -/
structure Desk where
  clock : ℤ
  db : BillingDb
  granted : List Grant
  prepared : List (Uuid × CheckoutInput)
  sent : List (Uuid × CheckoutInput)
  yielded : List (Uuid × Uuid × String)

inductive DeskStep
  | advance (clock : ℤ)
  | begin (input : BeginCheckoutInput) (subscribed onSale : Bool)
  | replace (userId attemptId : Uuid) (sessionId : String)
  | prepare (g : Grant) (input : CheckoutInput)
  | send (g : Grant) (request : CheckoutInput)
  | markOpen (g : Grant) (request : CheckoutInput) (url : String)
  | markFailed (g : Grant) (sessionId : Option String)
  | beginCustomer (g : Grant)
  | recordCustomer (g : Grant) (customerId : String)
  | saveCustomer (g : Grant) (customerId : String)
  | eraseCustomer (g : Grant)
  | webhook (command : WebhookCommand)
  | recover (attemptId : Uuid) (customerId : Option String)
  deriving DecidableEq

def checkoutKey (attemptId : Uuid) : String :=
  "histae-checkout-" ++ String.ofList (Matches.StandardCodec.hyphenated attemptId)

/-- The statuses that the webhook parser makes of Checkout events. -/
def WebhookCommand.IsParsed : WebhookCommand → Prop
  | .checkout _ _ status => status = .completed ∨ status = .expired
  | _ => True

namespace Desk

variable (stripe : CheckoutInput → StripeSession)

def session (request : CheckoutInput) (url : String) : PersistedCheckoutSession :=
  ⟨(stripe request).id, url, (stripe request).expiresAt⟩

def Enabled (w : Desk) : DeskStep → Prop
  | .advance clock => w.clock ≤ clock
  | .begin input _ _ => input.now ≤ w.clock ∧ input.expiresAt = input.now + checkoutTtl ∧
      input.staleBefore = input.now - checkoutCreationStale
  | .replace _ _ _ => True
  | .prepare g input => g ∈ w.granted ∧ input.userId = g.userId ∧
      input.idempotencyKey = checkoutKey g.attemptId
  | .send g request => g ∈ w.granted ∧ (g.attemptId, request) ∈ w.prepared
  | .markOpen g request url => g ∈ w.granted ∧ (g.attemptId, request) ∈ w.sent ∧
      (stripe request).url = some url
  | .markFailed g sessionId => g ∈ w.granted ∧ ∀ id ∈ sessionId,
      ∃ sent ∈ w.sent, sent.1 = g.attemptId ∧ (stripe sent.2).id = id
  | .beginCustomer g | .recordCustomer g _ | .saveCustomer g _ | .eraseCustomer g => g ∈ w.granted
  | .webhook command => command.IsParsed
  | .recover _ _ => True

/-- What a worker that began an attempt goes on with. -/
def begun (w : Desk) (db : BillingDb) (input : BeginCheckoutInput) : BeginCheckoutResult → Desk
  | .created context | .retry context =>
      { w with
        db
        granted := ⟨context.attemptId, context.creationGeneration, input.userId,
          input.idempotencyKey⟩ :: w.granted }
  | .replay session =>
      { w with
        db, yielded := (input.userId, input.idempotencyKey, session.sessionId) :: w.yielded }
  | _ => { w with db }

def next (w : Desk) : DeskStep → Desk
  | .advance clock => { w with clock }
  | .begin input subscribed onSale =>
      match w.db.beginCheckout input subscribed onSale w.clock with
      | .ok (db, result) => w.begun db input result
      | .error _ => w
  | .replace userId attemptId sessionId =>
      { w with db := w.db.markCheckoutExpired userId attemptId sessionId w.clock }
  | .prepare g input =>
      match w.db.prepareCheckoutRequest g.attemptId g.generation input with
      | .ok (db, request) => { w with db, prepared := (g.attemptId, request) :: w.prepared }
      | .error _ => w
  | .send g request => { w with sent := (g.attemptId, request) :: w.sent }
  | .markOpen g request url =>
      match w.db.markCheckoutOpen g.attemptId g.generation (session stripe request url) w.clock with
      | .ok (db, true) =>
          { w with db, yielded := (g.userId, g.idempotencyKey, (stripe request).id) :: w.yielded }
      | .ok (db, false) => { w with db }
      | .error _ => w
  | .markFailed g sessionId =>
      match w.db.markCheckoutFailed g.attemptId g.generation sessionId w.clock with
      | .ok (db, _) => { w with db }
      | .error _ => w
  | .beginCustomer g => { w with db := w.db.beginCustomerCreation g.attemptId w.clock }
  | .recordCustomer g customerId =>
      { w with db := w.db.recordCreatedCustomer g.attemptId customerId }
  | .saveCustomer g customerId =>
      match w.db.saveCustomer g.userId customerId w.clock with
      | .ok (db, _) => { w with db }
      | .error _ => w
  | .eraseCustomer g => { w with db := w.db.markCreatedCustomerErased g.attemptId w.clock }
  | .webhook command => { w with db := deliver w.db ⟨command, w.clock⟩ }
  | .recover attemptId customerId =>
      { w with db := (w.db.recoverCustomerCreation attemptId customerId w.clock).1 }

end Desk

/-- The checkouts of all users, over a Stripe that answers equal requests
with the same session. -/
def desk (stripe : CheckoutInput → StripeSession) : System Desk DeskStep where
  Enabled := Desk.Enabled stripe
  next := Desk.next stripe

section Decidability

variable (stripe : CheckoutInput → StripeSession) (w : Desk)

instance : ∀ command : WebhookCommand, Decidable command.IsParsed
  | .checkout _ _ status => inferInstanceAs (Decidable (status = .completed ∨ status = .expired))
  | .receipt _ | .subscription _ _ | .invoice _ _ _ _ | .customerDeleted _ _ => .isTrue trivial

instance : ∀ a, Decidable ((desk stripe).Enabled w a)
  | .advance clock => inferInstanceAs (Decidable (w.clock ≤ clock))
  | .begin input _ _ => inferInstanceAs (Decidable (input.now ≤ w.clock ∧
      input.expiresAt = input.now + checkoutTtl ∧
      input.staleBefore = input.now - checkoutCreationStale))
  | .replace _ _ _ | .recover _ _ => .isTrue trivial
  | .prepare g input => inferInstanceAs (Decidable (g ∈ w.granted ∧ input.userId = g.userId ∧
      input.idempotencyKey = checkoutKey g.attemptId))
  | .send g request =>
      inferInstanceAs (Decidable (g ∈ w.granted ∧ (g.attemptId, request) ∈ w.prepared))
  | .markOpen g request url => inferInstanceAs (Decidable (g ∈ w.granted ∧
      (g.attemptId, request) ∈ w.sent ∧ (stripe request).url = some url))
  | .markFailed g sessionId => inferInstanceAs (Decidable (g ∈ w.granted ∧ ∀ id ∈ sessionId,
      ∃ sent ∈ w.sent, sent.1 = g.attemptId ∧ (stripe sent.2).id = id))
  | .beginCustomer g | .recordCustomer g _ | .saveCustomer g _ | .eraseCustomer g =>
      inferInstanceAs (Decidable (g ∈ w.granted))
  | .webhook command => inferInstanceAs (Decidable command.IsParsed)

end Decidability

namespace CheckoutAttempt

/-- What the first update of a sweep does to an attempt. -/
def sweepExpired (input : BeginCheckoutInput) (clock : ℤ) (row : CheckoutAttempt) :
    CheckoutAttempt :=
  if row.userId = input.userId && row.expiresAt ≤ input.now &&
      (row.status = .open || row.status = .failed && row.stripeCheckoutRequest.isSome) then
    { row.expire with updatedAt := clock }
  else row

/-- What the second one does. -/
def sweepStale (input : BeginCheckoutInput) (clock : ℤ) (row : CheckoutAttempt) :
    CheckoutAttempt :=
  if row.userId = input.userId && row.status = .creating && row.updatedAt ≤ input.staleBefore then
    { row with status := .failed, updatedAt := clock }
  else row

def sweep (input : BeginCheckoutInput) (clock : ℤ) (row : CheckoutAttempt) : CheckoutAttempt :=
  (row.sweepExpired input clock).sweepStale input clock

/-- The attempts differ at most in what they know of their customer and in
the time of their last update. -/
structure Same (c c' : CheckoutAttempt) : Prop where
  id : c'.id = c.id
  userId : c'.userId = c.userId
  idempotencyKey : c'.idempotencyKey = c.idempotencyKey
  stripeSessionId : c'.stripeSessionId = c.stripeSessionId
  status : c'.status = c.status
  expiresAt : c'.expiresAt = c.expiresAt
  stripeCheckoutRequest : c'.stripeCheckoutRequest = c.stripeCheckoutRequest
  creationGeneration : c'.creationGeneration = c.creationGeneration

theorem Same.refl (c : CheckoutAttempt) : Same c c := ⟨rfl, rfl, rfl, rfl, rfl, rfl, rfl, rfl⟩

/-- What a sweep does to an attempt. -/
theorem sweep_cases (input : BeginCheckoutInput) (clock : ℤ) (c : CheckoutAttempt) :
    c.sweep input clock = c ∨
      c.expiresAt ≤ input.now ∧
        (c.status = .open ∨ c.status = .failed ∧ c.stripeCheckoutRequest.isSome) ∧
        c.sweep input clock = { c.expire with updatedAt := clock } ∨
      c.status = .creating ∧ c.updatedAt ≤ input.staleBefore ∧
        c.sweep input clock = { c with status := .failed, updatedAt := clock } := by
  unfold sweep sweepExpired
  split
  · rename_i hexpired
    simp only [Bool.and_eq_true, Bool.or_eq_true, decide_eq_true_eq] at hexpired
    refine Or.inr (Or.inl ⟨hexpired.1.2, hexpired.2, ?_⟩)
    simp [sweepStale, expire]
  · unfold sweepStale
    split
    · rename_i hstale
      simp only [Bool.and_eq_true, decide_eq_true_eq] at hstale
      exact Or.inr (Or.inr ⟨hstale.1.2, hstale.2, rfl⟩)
    · exact Or.inl rfl

end CheckoutAttempt

/-- Everything that a step can do to an attempt, among the attempts `after`
the step. -/
inductive Touch (stripe : CheckoutInput → StripeSession) (w : Desk)
    (after : Table CheckoutAttempt.id) : DeskStep → CheckoutAttempt → CheckoutAttempt → Prop
  | same {a c c'} (hsame : CheckoutAttempt.Same c c') : Touch stripe w after a c c'
  | sweep {input subscribed onSale c} :
      Touch stripe w after (.begin input subscribed onSale) c (c.sweep input w.clock)
  | expire {input subscribed onSale c} (huser : c.userId = input.userId)
      (hkey : c.idempotencyKey = input.idempotencyKey) (hprevious : c.previous input = .expire) :
      Touch stripe w after (.begin input subscribed onSale) c c.expire
  | retry {input subscribed onSale c} (hprevious : c.previous input = .proceed)
      (halone : ∀ d ∈ after, d.userId = c.userId → d.id ≠ c.id → d.isLive input.now = false) :
      Touch stripe w after (.begin input subscribed onSale) c
        ((c.sweep input w.clock).retry input.expiresAt w.clock)
  | replace {userId attemptId sessionId c} (hsession : c.stripeSessionId = some sessionId)
      (hstatus : c.status = .open ∨ c.status = .expired) :
      Touch stripe w after (.replace userId attemptId sessionId) c { c.expire with updatedAt := w.clock }
  | prepare {g input c} (hid : c.id = g.attemptId) (howned : c.isOwned g.generation = true) :
      Touch stripe w after (.prepare g input) c (c.prepare input)
  | hold {g request url c} (hid : c.id = g.attemptId) (howned : c.isOwned g.generation = true) :
      Touch stripe w after (.markOpen g request url) c
        (c.hold (Desk.session stripe request url) w.clock)
  | fail {g sessionId c} (hid : c.id = g.attemptId) (howned : c.isOwned g.generation = true) :
      Touch stripe w after (.markFailed g sessionId) c (c.fail sessionId w.clock)
  | close {command status c} (hstatus : status = .completed ∨ status = .expired)
      (hbefore : c.status = .open ∨ c.status = .creating) (hsession : c.stripeSessionId.isSome) :
      Touch stripe w after (.webhook command) c
        { c with status, checkoutUrl := none, updatedAt := w.clock }
  | customerDeleted {command c} (hbefore : c.status = .creating ∨ c.status = .open) :
      Touch stripe w after (.webhook command) c
        { c with status := .failed, checkoutUrl := none, updatedAt := w.clock }
  | recover {customerId c startedAt created} (herased : c.customerErasedAt = none) :
      Touch stripe w after (.recover c.id customerId) c
        { c.fail none w.clock with
          customerCreationStartedAt := startedAt, createdCustomerId := created }

/-- An attempt that a step adds. -/
structure Adds (w : Desk) (after : Table CheckoutAttempt.id) (a : DeskStep) (c : CheckoutAttempt) :
    Prop where
  row : ∃ input subscribed onSale, a = .begin input subscribed onSale ∧
    c = BillingDb.newCheckout input w.clock ∧
    w.db.checkoutOf input.userId input.idempotencyKey = none ∧
    w.db.checkouts.find? input.attemptId = none ∧
    ∀ d ∈ after, d.userId = input.userId → d.id ≠ c.id → d.isLive input.now = false

/-- Every attempt stays, changed as `Touch` allows, and a new one may come. -/
structure Touches (stripe : CheckoutInput → StripeSession) (w : Desk) (a : DeskStep)
    (after : Table CheckoutAttempt.id) : Prop where
  forth : ∀ c ∈ w.db.checkouts, ∃ c' ∈ after, c'.id = c.id ∧ Touch stripe w after a c c'
  back : ∀ c' ∈ after, (∃ c ∈ w.db.checkouts, c'.id = c.id ∧ Touch stripe w after a c c') ∨
    Adds w after a c'

section Touches

variable {stripe : CheckoutInput → StripeSession} {w : Desk} {a : DeskStep}

theorem touches_same : Touches stripe w a w.db.checkouts where
  forth c hc := ⟨c, hc, rfl, .same (.refl c)⟩
  back c hc := Or.inl ⟨c, hc, rfl, .same (.refl c)⟩

theorem touches_modify {p : CheckoutAttempt → Bool} {f : CheckoutAttempt → CheckoutAttempt}
    (hf : ∀ c, (f c).id = c.id)
    (h : ∀ c ∈ w.db.checkouts, p c = true → ∀ after, Touch stripe w after a c (f c)) :
    Touches stripe w a (w.db.checkouts.modify p f hf) := by
  have hrow : ∀ c ∈ w.db.checkouts, (if p c then f c else c).id = c.id ∧
      Touch stripe w (w.db.checkouts.modify p f hf) a c (if p c then f c else c) := by
    intro c hc
    by_cases hp : p c = true
    · rw [if_pos hp]
      exact ⟨hf c, h c hc hp _⟩
    · rw [if_neg hp]
      exact ⟨rfl, .same (.refl c)⟩
  constructor
  · intro c hc
    exact ⟨_, (Table.mem_modify hf).mpr ⟨c, hc, rfl⟩, hrow c hc⟩
  · intro c' hc'
    obtain ⟨c, hc, rfl⟩ := (Table.mem_modify hf).mp hc'
    exact Or.inl ⟨c, hc, hrow c hc⟩

theorem mem_sweepCheckouts {db : BillingDb} {input : BeginCheckoutInput} {clock : ℤ}
    {c' : CheckoutAttempt} :
    c' ∈ (db.sweepCheckouts input.userId input.now input.staleBefore clock).checkouts ↔
      ∃ c ∈ db.checkouts, c' = c.sweep input clock := by
  have hexpire : ∀ row : CheckoutAttempt, { row.expire with updatedAt := clock }.id = row.id :=
    fun _ ↦ rfl
  have hfail : ∀ row : CheckoutAttempt,
    { row with status := .failed, updatedAt := clock : CheckoutAttempt }.id = row.id := fun _ ↦ rfl
  rw [BillingDb.sweepCheckouts, Table.mem_modify hfail]
  constructor
  · rintro ⟨d, hd, rfl⟩
    obtain ⟨c, hc, rfl⟩ := (Table.mem_modify hexpire).mp hd
    exact ⟨c, hc, rfl⟩
  · rintro ⟨c, hc, rfl⟩
    exact ⟨_, (Table.mem_modify hexpire).mpr ⟨c, hc, rfl⟩, rfl⟩

theorem sweep_id (input : BeginCheckoutInput) (clock : ℤ) (c : CheckoutAttempt) :
    (c.sweep input clock).id = c.id ∧ (c.sweep input clock).userId = c.userId := by
  rcases c.sweep_cases input clock with h | ⟨_, _, h⟩ | ⟨_, _, h⟩ <;> rw [h] <;> exact ⟨rfl, rfl⟩

theorem touches_sweep {input : BeginCheckoutInput} {subscribed onSale : Bool} :
    Touches stripe w (.begin input subscribed onSale)
      (w.db.sweepCheckouts input.userId input.now input.staleBefore w.clock).checkouts where
  forth c hc := ⟨_, mem_sweepCheckouts.mpr ⟨c, hc, rfl⟩, (sweep_id input w.clock c).1, .sweep⟩
  back c' hc' := by
    obtain ⟨c, hc, rfl⟩ := mem_sweepCheckouts.mp hc'
    exact Or.inl ⟨c, hc, (sweep_id input w.clock c).1, .sweep⟩

/-- No other attempt of the user is live. -/
theorem not_live_of_hasLiveCheckout {db : BillingDb} {input : BeginCheckoutInput} {clock : ℤ}
    {previousId : Option Uuid}
    (h : (db.sweepCheckouts input.userId input.now input.staleBefore clock).hasLiveCheckout
      input.userId input.now previousId = false) :
    ∀ d ∈ db.checkouts, d.userId = input.userId → (∀ id, previousId = some id → d.id ≠ id) →
      (d.sweep input clock).isLive input.now = false := by
  intro d hd huser hother
  rw [BillingDb.hasLiveCheckout, decide_eq_false_iff_not, Table.count_pos_iff] at h
  by_contra hlive
  rw [Bool.not_eq_false] at hlive
  refine h ⟨_, mem_sweepCheckouts.mpr ⟨d, hd, rfl⟩, ?_⟩
  obtain ⟨hid, hsame⟩ := sweep_id input clock d
  simp only [hsame, huser, hlive, hid, decide_true, Bool.true_and, Bool.and_true]
  cases previousId with
  | none => rfl
  | some id => simpa using hother id rfl

theorem touches_openAttempt {input : BeginCheckoutInput} {previous : Option CheckoutAttempt}
    {subscribed onSale : Bool} {db' : BillingDb} {result : BeginCheckoutResult}
    (h : w.db.openAttempt input previous subscribed onSale w.clock = .ok (db', result))
    (hprevious : ∀ row, previous = some row → row ∈ w.db.checkouts ∧
      row.userId = input.userId ∧ row.previous input = .proceed)
    (hnone : previous = none → w.db.checkoutOf input.userId input.idempotencyKey = none) :
    Touches stripe w (.begin input subscribed onSale) db'.checkouts := by
  simp only [BillingDb.openAttempt] at h
  split at h
  · rw [← (Prod.mk.inj (Except.ok.inj h)).1]
    exact touches_sweep
  split at h
  · rw [← (Prod.mk.inj (Except.ok.inj h)).1]
    exact touches_sweep
  rename_i hlive
  rw [Bool.not_eq_true] at hlive
  have halone := not_live_of_hasLiveCheckout hlive
  split at h
  · rw [← (Prod.mk.inj (Except.ok.inj h)).1]
    exact touches_sweep
  split at h
  · exact absurd h (by simp)
  cases previous with
  | some row =>
      obtain ⟨hrow, huser, hproceed⟩ := hprevious row rfl
      rw [← (Prod.mk.inj (Except.ok.inj h)).1]
      have hkey : ∀ c, (CheckoutAttempt.retry input.expiresAt w.clock c).id = c.id := fun _ ↦ rfl
      have hothers : ∀ d ∈ ((w.db.sweepCheckouts input.userId input.now input.staleBefore
          w.clock).retryCheckout input.userId row.id input.expiresAt w.clock).checkouts,
          d.userId = row.userId → d.id ≠ row.id → d.isLive input.now = false := by
        intro d' hd' hduser hne
        obtain ⟨e, he, rfl⟩ := (Table.mem_modify hkey).mp hd'
        obtain ⟨d, hd, rfl⟩ := mem_sweepCheckouts.mp he
        obtain ⟨hid, hsame⟩ := sweep_id input w.clock d
        have hother : d.id ≠ row.id := by
          intro heq
          apply hne
          split
          · exact hid.trans heq
          · exact hid.trans heq
        have hkept : ¬ ((d.sweep input w.clock).userId = input.userId &&
            (d.sweep input w.clock).id = row.id : Bool) = true := by
          simp [hid, hother]
        rw [if_neg hkept] at hduser ⊢
        refine halone d hd ((hsame.symm.trans hduser).trans huser) ?_
        intro id heq
        rw [← Option.some.inj heq]
        exact hother
      have hretry : ∀ c ∈ w.db.checkouts, ∀ c',
          c' = (if ((c.sweep input w.clock).userId = input.userId &&
              (c.sweep input w.clock).id = row.id : Bool) then
            (c.sweep input w.clock).retry input.expiresAt w.clock
          else c.sweep input w.clock) →
          c'.id = c.id ∧ Touch stripe w ((w.db.sweepCheckouts input.userId input.now
            input.staleBefore w.clock).retryCheckout input.userId row.id input.expiresAt
              w.clock).checkouts (.begin input subscribed onSale) c c' := by
        rintro c hc c' rfl
        obtain ⟨hid, hsame⟩ := sweep_id input w.clock c
        split
        · rename_i htarget
          simp only [Bool.and_eq_true, decide_eq_true_eq, hid] at htarget
          obtain rfl : c = row := Table.eq_of_key_eq hc hrow htarget.2
          exact ⟨hid, .retry hproceed hothers⟩
        · exact ⟨hid, .sweep⟩
      constructor
      · intro c hc
        exact ⟨_, (Table.mem_modify hkey).mpr ⟨_, mem_sweepCheckouts.mpr ⟨c, hc, rfl⟩, rfl⟩,
          hretry c hc _ rfl⟩
      · intro c' hc'
        obtain ⟨d, hd, hrow'⟩ := (Table.mem_modify hkey).mp hc'
        obtain ⟨c, hc, rfl⟩ := mem_sweepCheckouts.mp hd
        exact Or.inl ⟨c, hc, hretry c hc c' hrow'⟩
  | none =>
      simp only at h
      split at h
      · exact absurd h (by simp)
      · rename_i checkouts hinsert
        rw [← (Prod.mk.inj (Except.ok.inj h)).1]
        constructor
        · intro c hc
          refine ⟨_, (Table.mem_insert hinsert).mpr (Or.inr (mem_sweepCheckouts.mpr ⟨c, hc, rfl⟩)),
            (sweep_id input w.clock c).1, .sweep⟩
        · intro c' hc'
          rcases (Table.mem_insert hinsert).mp hc' with rfl | hold
          · refine Or.inr ⟨input, subscribed, onSale, rfl, rfl, hnone rfl, ?_, ?_⟩
            · have hfresh := (Table.insert?_eq_some_iff.mp hinsert).1
              rw [Table.find?_eq_none_iff] at hfresh ⊢
              intro d hd heq
              refine hfresh _ (mem_sweepCheckouts.mpr ⟨d, hd, rfl⟩) ?_
              exact (sweep_id input w.clock d).1.trans heq
            · intro d' hd' huser hne
              rcases (Table.mem_insert hinsert).mp hd' with rfl | hold
              · exact absurd rfl hne
              · obtain ⟨d, hd, rfl⟩ := mem_sweepCheckouts.mp hold
                refine halone d hd ((sweep_id input w.clock d).2.symm.trans huser) (by simp)
          · obtain ⟨c, hc, rfl⟩ := mem_sweepCheckouts.mp hold
            exact Or.inl ⟨c, hc, (sweep_id input w.clock c).1, .sweep⟩

theorem checkoutOf_spec {db : BillingDb} {userId key : Uuid} {row : CheckoutAttempt}
    (h : db.checkoutOf userId key = some row) :
    row ∈ db.checkouts ∧ row.userId = userId ∧ row.idempotencyKey = key := by
  have hkey := List.find?_some h
  simp only [Bool.and_eq_true, decide_eq_true_eq] at hkey
  exact ⟨List.mem_of_find?_eq_some h, hkey⟩

theorem touches_begin {input : BeginCheckoutInput} {subscribed onSale : Bool} {db' : BillingDb}
    {result : BeginCheckoutResult}
    (h : w.db.beginCheckout input subscribed onSale w.clock = .ok (db', result)) :
    Touches stripe w (.begin input subscribed onSale) db'.checkouts := by
  unfold BillingDb.beginCheckout at h
  split at h
  · rw [← (Prod.mk.inj (Except.ok.inj h)).1]
    exact touches_same
  split at h
  · rename_i hnone
    exact touches_openAttempt h (by simp) fun _ ↦ hnone
  · rename_i row hrow
    obtain ⟨hmem, huser, hkey⟩ := checkoutOf_spec hrow
    split at h
    · rw [← (Prod.mk.inj (Except.ok.inj h)).1]
      exact touches_same
    · rw [← (Prod.mk.inj (Except.ok.inj h)).1]
      exact touches_same
    · rename_i hexpire
      rw [← (Prod.mk.inj (Except.ok.inj h)).1]
      refine touches_modify ?_ fun c hc hid _ ↦ ?_
      · exact fun _ ↦ rfl
      obtain rfl : c = row := Table.eq_of_key_eq hc hmem (by simpa using hid)
      exact .expire huser hkey hexpire
    · rw [← (Prod.mk.inj (Except.ok.inj h)).1]
      exact touches_same
    · exact absurd h (by simp)
    · rw [← (Prod.mk.inj (Except.ok.inj h)).1]
      exact touches_same
    · rename_i hproceed
      refine touches_openAttempt h ?_ (by simp)
      rintro _ ⟨⟩
      exact ⟨hmem, huser, hproceed⟩

/-- A projection leaves the attempts alone. -/
theorem checkouts_applyCommand {db db' : BillingDb} {command : WebhookCommand} {now : ℤ}
    {effect : Option WebhookEffect} {p : SubscriptionProjection}
    (hp : command.projection? = some p) (h : db.applyCommand command now = .ok (db', effect)) :
    db'.checkouts = db.checkouts := by
  obtain ⟨db₁, v, db₂, applied, invoices, hresolve, hupsert, rfl, _⟩ :=
    BillingDb.applyCommand_eq_ok hp h
  obtain ⟨_, customers, rfl⟩ := BillingDb.sameCustomers_resolveUser hresolve
  obtain ⟨subscriptions, others, rfl, _⟩ := BillingDb.upsertSubscription_cases hupsert
  rfl

theorem touches_webhook {command : WebhookCommand} (hparsed : command.IsParsed) :
    Touches stripe w (.webhook command) (deliver w.db ⟨command, w.clock⟩).checkouts := by
  rcases deliver_outcome w.db ⟨command, w.clock⟩ with hsame | ⟨events, hsame | ⟨result, hcommand, hsame⟩⟩
  · rw [hsame]
    exact touches_same
  · rw [hsame]
    exact touches_same
  · rw [hsame]
    cases command with
    | receipt metadata =>
        rw [← Except.ok.inj hcommand]
        exact touches_same
    | subscription metadata projection =>
        rw [checkouts_applyCommand rfl hcommand]
        exact touches_same
    | invoice metadata projection state notify =>
        rw [checkouts_applyCommand rfl hcommand]
        exact touches_same
    | checkout metadata sessionId status =>
        rw [← Except.ok.inj hcommand]
        refine touches_modify ?_ fun c hc hheld _ ↦ ?_
        · exact fun _ ↦ rfl
        simp only [Bool.and_eq_true, Bool.or_eq_true, decide_eq_true_eq] at hheld
        exact .close hparsed hheld.2 (by simp [hheld.1])
    | customerDeleted metadata customerId =>
        simp only [BillingDb.applyCommand, BillingDb.markCustomerDeleted] at hcommand
        split at hcommand
        · rw [← Except.ok.inj hcommand]
          exact touches_same
        · simp only [bind, Except.bind] at hcommand
          split at hcommand
          · exact absurd hcommand (by simp)
          · rw [← Except.ok.inj hcommand]
            refine touches_modify ?_ fun c hc hheld _ ↦ ?_
            · exact fun _ ↦ rfl
            simp only [Bool.and_eq_true, Bool.or_eq_true, decide_eq_true_eq] at hheld
            exact .customerDeleted hheld.2

theorem checkouts_mapCustomer {db mapped : BillingDb} {userId : Uuid} {customerId : String}
    {clock : ℤ} (h : db.mapCustomer userId customerId clock = .ok (some mapped)) :
    mapped.checkouts = db.checkouts := by
  unfold BillingDb.mapCustomer at h
  split at h
  · split at h
    · split at h
      · exact absurd h (by simp)
      · rw [← Option.some.inj (Except.ok.inj h)]
    · exact absurd (Except.ok.inj h) (by simp)
  · split at h
    · exact absurd h (by simp)
    · obtain ⟨customers, _, rfl⟩ := Option.map_eq_some_iff.mp (Except.ok.inj h)
      rfl

theorem touches_recover {attemptId : Uuid} {customerId : Option String} :
    Touches stripe w (.recover attemptId customerId)
      (w.db.recoverCustomerCreation attemptId customerId w.clock).1.checkouts := by
  unfold BillingDb.recoverCustomerCreation
  split
  · exact touches_same
  rename_i row hrow
  split
  · exact touches_same
  rename_i herased
  have hnotErased : ∀ c ∈ w.db.checkouts, c.id = attemptId → c.customerErasedAt = none := by
    intro c hc hid
    have hfind := (Option.filter_eq_some_iff.mp hrow).1
    rw [← hid, Table.find?_key hc] at hfind
    rw [Option.some.inj hfind]
    simpa using herased
  split
  · exact touches_same
  split
  · refine touches_modify ?_ fun c hc hid _ ↦ ?_
    · exact fun _ ↦ rfl
    have hid' : c.id = attemptId := by simpa using hid
    have hnone := hnotErased c hc hid'
    subst hid'
    exact .recover hnone
  · split
    · rename_i mapped hmapped
      simp only [BillingDb.recoverAttempt, checkouts_mapCustomer hmapped]
      refine touches_modify _ fun c hc hid _ ↦ ?_
      have hid' : c.id = attemptId := by simpa using hid
      have hnone := hnotErased c hc hid'
      subst hid'
      exact .recover hnone
    · exact touches_same

theorem touches_owned {g : Grant} {f : CheckoutAttempt → CheckoutAttempt}
    (hf : ∀ c, (f c).id = c.id)
    (h : ∀ c ∈ w.db.checkouts, c.id = g.attemptId → c.isOwned g.generation = true →
      ∀ after, Touch stripe w after a c (f c)) :
    Touches stripe w a (w.db.checkouts.modify
      (fun row ↦ row.id = g.attemptId && row.isOwned g.generation) f hf) := by
  refine touches_modify hf fun c hc howned ↦ ?_
  simp only [Bool.and_eq_true, decide_eq_true_eq] at howned
  exact h c hc howned.1 howned.2

theorem touches_prepare {g : Grant} {input request : CheckoutInput} {db' : BillingDb}
    (h : w.db.prepareCheckoutRequest g.attemptId g.generation input = .ok (db', request)) :
    Touches stripe w (.prepare g input) db'.checkouts := by
  unfold BillingDb.prepareCheckoutRequest at h
  split at h
  · exact absurd h (by simp)
  split at h
  · rw [← (Prod.mk.inj (Except.ok.inj h)).1]
    refine touches_owned ?_ fun c _ hid howned _ ↦ .prepare hid howned
    exact fun _ ↦ rfl
  · exact absurd h (by simp)

theorem touches_markOpen {g : Grant} {request : CheckoutInput} {url : String} {db' : BillingDb}
    {done : Bool} (h : w.db.markCheckoutOpen g.attemptId g.generation
      (Desk.session stripe request url) w.clock = .ok (db', done)) :
    Touches stripe w (.markOpen g request url) db'.checkouts := by
  unfold BillingDb.markCheckoutOpen at h
  split at h
  · exact absurd h (by simp)
  · rw [← (Prod.mk.inj (Except.ok.inj h)).1]
    refine touches_owned ?_ fun c _ hid howned _ ↦ .hold hid howned
    exact fun _ ↦ rfl

theorem touches_markFailed {g : Grant} {sessionId : Option String} {db' : BillingDb} {done : Bool}
    (h : w.db.markCheckoutFailed g.attemptId g.generation sessionId w.clock = .ok (db', done)) :
    Touches stripe w (.markFailed g sessionId) db'.checkouts := by
  unfold BillingDb.markCheckoutFailed at h
  split at h
  · exact absurd h (by simp)
  · rw [← (Prod.mk.inj (Except.ok.inj h)).1]
    refine touches_owned ?_ fun c _ hid howned _ ↦ .fail hid howned
    exact fun _ ↦ rfl

theorem touches_saveCustomer {userId : Uuid} {customerId : String} {db' : BillingDb} {done : Bool}
    (h : w.db.saveCustomer userId customerId w.clock = .ok (db', done)) :
    Touches stripe w a db'.checkouts := by
  unfold BillingDb.saveCustomer at h
  split at h
  · simp only [bind, Except.bind] at h
    split at h
    · exact absurd h (by simp)
    · rename_i mapped hmapped
      split at h
      · rename_i db₁
        rw [← (Prod.mk.inj (Except.ok.inj h)).1, checkouts_mapCustomer hmapped]
        exact touches_same
      · rw [← (Prod.mk.inj (Except.ok.inj h)).1]
        exact touches_same
  · rw [← (Prod.mk.inj (Except.ok.inj h)).1]
    exact touches_same

/-- The attempts after a step. -/
theorem touches_next (henabled : Desk.Enabled stripe w a) :
    Touches stripe w a (Desk.next stripe w a).db.checkouts := by
  cases a with
  | advance clock => exact touches_same
  | begin input subscribed onSale =>
      simp only [Desk.next]
      cases hbegin : w.db.beginCheckout input subscribed onSale w.clock with
      | error error => exact touches_same
      | ok result =>
          obtain ⟨db', result⟩ := result
          have htouches : Touches stripe w (.begin input subscribed onSale) db'.checkouts :=
            touches_begin hbegin
          cases result <;> exact htouches
  | replace userId attemptId sessionId =>
      refine touches_modify ?_ fun c _ hheld _ ↦ ?_
      · exact fun _ ↦ rfl
      · simp only [Bool.and_eq_true, Bool.or_eq_true, decide_eq_true_eq] at hheld
        exact .replace hheld.1.2 hheld.2
  | prepare g input =>
      simp only [Desk.next]
      split
      · exact touches_prepare ‹_›
      · exact touches_same
  | send g request => exact touches_same
  | markOpen g request url =>
      simp only [Desk.next]
      split
      · exact touches_markOpen ‹_›
      · exact touches_markOpen ‹_›
      · exact touches_same
  | markFailed g sessionId =>
      simp only [Desk.next]
      split
      · exact touches_markFailed ‹_›
      · exact touches_same
  | beginCustomer g =>
      refine touches_modify ?_ fun c _ _ _ ↦ .same ⟨rfl, rfl, rfl, rfl, rfl, rfl, rfl, rfl⟩
      exact fun _ ↦ rfl
  | recordCustomer g customerId =>
      refine touches_modify ?_ fun c _ _ _ ↦ .same ⟨rfl, rfl, rfl, rfl, rfl, rfl, rfl, rfl⟩
      exact fun _ ↦ rfl
  | saveCustomer g customerId =>
      simp only [Desk.next]
      split
      · exact touches_saveCustomer ‹_›
      · exact touches_same
  | eraseCustomer g =>
      refine touches_modify ?_ fun c _ _ _ ↦ .same ⟨rfl, rfl, rfl, rfl, rfl, rfl, rfl, rfl⟩
      exact fun _ ↦ rfl
  | webhook command => exact touches_webhook henabled
  | recover attemptId customerId => exact touches_recover

theorem begun_clock (db : BillingDb) (input : BeginCheckoutInput) (result : BeginCheckoutResult) :
    (w.begun db input result).clock = w.clock := by
  cases result <;> rfl

theorem clock_next (henabled : Desk.Enabled stripe w a) :
    w.clock ≤ (Desk.next stripe w a).clock := by
  cases a with
  | advance clock => exact henabled
  | begin input subscribed onSale =>
      simp only [Desk.next]
      split
      · rw [begun_clock]
      · exact le_rfl
  | prepare g input =>
      simp only [Desk.next]
      split <;> exact le_rfl
  | markOpen g request url =>
      simp only [Desk.next]
      split <;> exact le_rfl
  | markFailed g sessionId =>
      simp only [Desk.next]
      split <;> exact le_rfl
  | saveCustomer g customerId =>
      simp only [Desk.next]
      split <;> exact le_rfl
  | _ => exact le_rfl

end Touches

/-- A Stripe that names the session after the key. -/
def sampleStripe (request : CheckoutInput) : StripeSession :=
  ⟨"cs_" ++ request.idempotencyKey, some "pay", request.expiresAt⟩

def sampleBegin (idempotencyKey attemptId : Uuid) (billingPeriod : BillingPeriod) (now : ℤ) :
    BeginCheckoutInput :=
  ⟨1, idempotencyKey, billingPeriod, attemptId, now, now + checkoutTtl,
    now - checkoutCreationStale⟩

def sampleRequest (attemptId : Uuid) (billingPeriod : BillingPeriod) (now : ℤ) : CheckoutInput :=
  ⟨some .fr, 1, "cus_1", "price_1", billingPeriod, 0, now + checkoutTtl, checkoutKey attemptId,
    "success", "cancel", false, false⟩

/-- User 1 opens a checkout. -/
def samplePurchase (idempotencyKey attemptId : Uuid) (billingPeriod : BillingPeriod) (now : ℤ) :
    List DeskStep :=
  [.begin (sampleBegin idempotencyKey attemptId billingPeriod now) false true,
    .prepare ⟨attemptId, 1, 1, idempotencyKey⟩ (sampleRequest attemptId billingPeriod now),
    .send ⟨attemptId, 1, 1, idempotencyKey⟩ (sampleRequest attemptId billingPeriod now),
    .markOpen ⟨attemptId, 1, 1, idempotencyKey⟩ (sampleRequest attemptId billingPeriod now) "pay"]

def sampleDesk : Desk := ⟨0, knownCustomer, [], [], [], []⟩

end Histae.Billing
