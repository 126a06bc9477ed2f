import Mathlib
import Histae.Billing.CheckoutRuns

/-!
# Finished checkouts

Most statements that change the status of an attempt look at it first. Two
do not: a replay of a key after its expiry expires the attempt whatever its
status, and the recovery of a customer fails it whatever its status. Runs in
which neither meets a finished attempt leave finished attempts finished.
-/

namespace Histae.Billing

open Relational Systems

namespace CheckoutAttempt

/-- Not to be resumed: expired, or failed with a session. -/
def IsShut (c : CheckoutAttempt) : Prop :=
  c.status = .expired ∨ c.status = .failed ∧ c.stripeSessionId.isSome = true

variable {c : CheckoutAttempt} {input : BeginCheckoutInput}

theorem previous_expire (h : c.previous input = .expire) :
    c.billingPeriod = input.billingPeriod ∧
      c.stripeCheckoutRequest ≠ some .legacyUnrecoverable ∧
      (c.status = .open ∨ c.stripeCheckoutRequest.isSome = true) ∧ c.expiresAt ≤ input.now := by
  unfold previous at h
  split at h
  · exact absurd h (by simp)
  rename_i hperiod
  split at h
  · exact absurd h (by simp)
  rename_i hlegacy
  split at h
  · rename_i hexpired
    exact ⟨by simpa using hperiod, hlegacy, hexpired⟩
  split at h
  · split at h <;> exact absurd h (by simp)
  split at h
  · exact absurd h (by simp)
  split at h <;> exact absurd h (by simp)

theorem previous_proceed (h : c.previous input = .proceed) :
    (c.status = .failed ∧ c.stripeSessionId = none ∨ c.status = .creating) ∧
      c.stripeCheckoutRequest ≠ some .legacyUnrecoverable := by
  unfold previous at h
  split at h
  · exact absurd h (by simp)
  split at h
  · exact absurd h (by simp)
  rename_i hlegacy
  split at h
  · exact absurd h (by simp)
  rename_i hunexpired
  split at h
  · split at h <;> exact absurd h (by simp)
  rename_i hclosed
  split at h
  · exact absurd h (by simp)
  rename_i hunfinished
  refine ⟨?_, hlegacy⟩
  push Not at hunfinished hunexpired hclosed
  cases hstatus : c.status with
  | creating => exact Or.inr rfl
  | «open» =>
      have hlate := hclosed hstatus
      exact absurd (hunexpired (Or.inl hstatus)) (not_lt.mpr hlate)
  | completed => exact absurd hstatus hunfinished.1
  | expired => exact absurd hstatus hunfinished.2.1
  | failed =>
      refine Or.inl ⟨rfl, ?_⟩
      simpa using hunfinished.2.2 hstatus

theorem isOwned_status {generation : ℕ} (h : c.isOwned generation = true) :
    c.status = .creating ∧ c.creationGeneration = generation := by
  simpa [isOwned] using h

end CheckoutAttempt

/-- The step does not replay the key of a completed attempt whose request has
expired, nor recover the customer of a completed attempt or of an expired one
without a session. -/
def SparesFinished (w : Desk) : DeskStep → Prop
  | .begin input _ _ => ∀ c ∈ w.db.checkouts, c.userId = input.userId →
      c.idempotencyKey = input.idempotencyKey → c.billingPeriod = input.billingPeriod →
      c.status = .completed → c.stripeCheckoutRequest ≠ some .legacyUnrecoverable →
      c.stripeCheckoutRequest.isSome = true → input.now < c.expiresAt
  | .recover attemptId _ => ∀ c ∈ w.db.checkouts, c.id = attemptId → c.customerErasedAt = none →
      c.status ≠ .completed ∧ (c.status = .expired → c.stripeSessionId.isSome = true)
  | _ => True

instance (w : Desk) : ∀ a, Decidable (SparesFinished w a)
  | .begin input _ _ => inferInstanceAs (Decidable (∀ c ∈ w.db.checkouts,
      c.userId = input.userId → c.idempotencyKey = input.idempotencyKey →
      c.billingPeriod = input.billingPeriod → c.status = .completed →
      c.stripeCheckoutRequest ≠ some .legacyUnrecoverable →
      c.stripeCheckoutRequest.isSome = true → input.now < c.expiresAt))
  | .recover attemptId _ => inferInstanceAs (Decidable (∀ c ∈ w.db.checkouts,
      c.id = attemptId → c.customerErasedAt = none →
      c.status ≠ .completed ∧ (c.status = .expired → c.stripeSessionId.isSome = true)))
  | .advance _ | .replace _ _ _ | .prepare _ _ | .send _ _ | .markOpen _ _ _ | .markFailed _ _
  | .beginCustomer _ | .recordCustomer _ _ | .saveCustomer _ _ | .eraseCustomer _ | .webhook _ =>
      .isTrue trivial

section Finality

variable {stripe : CheckoutInput → StripeSession} {w : Desk} {after : Table CheckoutAttempt.id}
  {a : DeskStep} {c c' : CheckoutAttempt} {as : List DeskStep}

theorem Touch.completed (h : Touch stripe w after a c c') (hc : c ∈ w.db.checkouts)
    (hspares : SparesFinished w a) (hcompleted : c.status = .completed) :
    c'.status = .completed := by
  cases h with
  | same hsame => rw [hsame.status, hcompleted]
  | sweep =>
      rename_i input subscribed onSale
      rcases c.sweep_cases input w.clock with hsame | ⟨_, hstatus, _⟩ | ⟨hstatus, _⟩
      · rw [hsame, hcompleted]
      · simp [hcompleted] at hstatus
      · simp [hcompleted] at hstatus
  | expire huser hkey hprevious =>
      obtain ⟨hperiod, hlegacy, hrequest, hexpired⟩ := CheckoutAttempt.previous_expire hprevious
      have hsome : c.stripeCheckoutRequest.isSome = true := by simpa [hcompleted] using hrequest
      exact absurd (hspares c hc huser hkey hperiod hcompleted hlegacy hsome) (not_lt.mpr hexpired)
  | retry hprevious _ =>
      have hstatus := (CheckoutAttempt.previous_proceed hprevious).1
      simp [hcompleted] at hstatus
  | replace _ hstatus => simp [hcompleted] at hstatus
  | prepare _ howned =>
      have hstatus := (CheckoutAttempt.isOwned_status howned).1
      simp [hcompleted] at hstatus
  | hold _ howned =>
      have hstatus := (CheckoutAttempt.isOwned_status howned).1
      simp [hcompleted] at hstatus
  | fail _ howned =>
      have hstatus := (CheckoutAttempt.isOwned_status howned).1
      simp [hcompleted] at hstatus
  | close _ hbefore _ => simp [hcompleted] at hbefore
  | customerDeleted hbefore => simp [hcompleted] at hbefore
  | recover herased => exact absurd hcompleted (hspares c hc rfl herased).1

theorem Touch.isShut (h : Touch stripe w after a c c') (hc : c ∈ w.db.checkouts)
    (hspares : SparesFinished w a) (hshut : c.IsShut) : c'.IsShut := by
  have hnotCreating : c.status ≠ .creating := by
    rcases hshut with hstatus | ⟨hstatus, _⟩ <;> simp [hstatus]
  have hnotOpen : c.status ≠ .open := by
    rcases hshut with hstatus | ⟨hstatus, _⟩ <;> simp [hstatus]
  cases h with
  | same hsame =>
      rw [CheckoutAttempt.IsShut, hsame.status, hsame.stripeSessionId]
      exact hshut
  | sweep =>
      rename_i input subscribed onSale
      rcases c.sweep_cases input w.clock with hsame | ⟨_, _, hexpired⟩ | ⟨hstatus, _⟩
      · rw [hsame]
        exact hshut
      · rw [hexpired]
        exact Or.inl rfl
      · exact absurd hstatus hnotCreating
  | expire _ _ _ => exact Or.inl rfl
  | retry hprevious _ =>
      rcases (CheckoutAttempt.previous_proceed hprevious).1 with ⟨hfailed, hnone⟩ | hcreating
      · rcases hshut with hstatus | ⟨_, hsession⟩
        · simp [hfailed] at hstatus
        · simp [hnone] at hsession
      · exact absurd hcreating hnotCreating
  | replace _ _ => exact Or.inl rfl
  | prepare _ howned => exact absurd (CheckoutAttempt.isOwned_status howned).1 hnotCreating
  | hold _ howned => exact absurd (CheckoutAttempt.isOwned_status howned).1 hnotCreating
  | fail _ howned => exact absurd (CheckoutAttempt.isOwned_status howned).1 hnotCreating
  | close _ hbefore _ => exact absurd hbefore (by simp [hnotOpen, hnotCreating])
  | customerDeleted hbefore => exact absurd hbefore (by simp [hnotOpen, hnotCreating])
  | recover herased =>
      refine Or.inr ⟨rfl, ?_⟩
      rcases hshut with hstatus | ⟨_, hsession⟩
      · exact (hspares c hc rfl herased).2 hstatus
      · exact hsession

/-- What a step keeps of an attempt, a run keeps. -/
theorem kept_exec {P : CheckoutAttempt → Prop} (h : (desk stripe).Valid w as)
    (hspares : (desk stripe).Along SparesFinished w as) (hc : c ∈ w.db.checkouts) (hP : P c)
    (hstep : ∀ w after a c c', Touch stripe w after a c c' → c ∈ w.db.checkouts →
      SparesFinished w a → P c → P c') :
    ∃ c' ∈ ((desk stripe).exec w as).db.checkouts, c'.id = c.id ∧ P c' := by
  induction as generalizing w c with
  | nil => exact ⟨c, hc, rfl, hP⟩
  | cons a as ih =>
      obtain ⟨c₁, hc₁, hid, htouch⟩ := (touches_next h.1).forth c hc
      obtain ⟨c', hc', hid', hP'⟩ := ih h.2 hspares.2 hc₁ (hstep _ _ _ _ _ htouch hc hspares.1 hP)
      exact ⟨c', hc', hid'.trans hid, hP'⟩

theorem finished_checkout_stays_finished (h : (desk stripe).Valid w as)
    (hspares : (desk stripe).Along SparesFinished w as) (hc : c ∈ w.db.checkouts) :
    ∃ c' ∈ ((desk stripe).exec w as).db.checkouts, c'.id = c.id ∧
      (c.status = .completed → c'.status = .completed) ∧
      (c.status = .expired →
        c'.status ≠ .creating ∧ c'.status ≠ .open ∧ c'.status ≠ .completed) := by
  obtain ⟨c', hc', hid, hkept⟩ := kept_exec
    (P := fun d ↦ (c.status = .completed → d.status = .completed) ∧
      (c.status = .expired → d.IsShut)) h hspares hc ⟨id, Or.inl⟩
    fun w after a d d' htouch hd hspares hkept ↦
      ⟨fun hstatus ↦ htouch.completed hd hspares (hkept.1 hstatus),
        fun hstatus ↦ htouch.isShut hd hspares (hkept.2 hstatus)⟩
  refine ⟨c', hc', hid, hkept.1, fun hstatus ↦ ?_⟩
  rcases hkept.2 hstatus with hexpired | ⟨hfailed, _⟩
  · simp [hexpired]
  · simp [hfailed]

end Finality

/-- User 1 pays within the time. -/
def paidPurchase : List DeskStep :=
  samplePurchase 7 8 .monthly 0 ++
    [.webhook (.checkout (sampleMetadata "evt_1" (minutes 5)) ("cs_" ++ checkoutKey 8) .completed)]

/-- The same key again, at a later time. -/
def replayedPurchase (now : ℤ) : List DeskStep :=
  [.advance now, .begin (sampleBegin 7 9 .monthly now) false true]

theorem completed_checkout_expires :
    (desk sampleStripe).Valid sampleDesk (paidPurchase ++ replayedPurchase (minutes 40)) ∧
      (((desk sampleStripe).exec sampleDesk paidPurchase).db.checkouts.find? 8).map
        CheckoutAttempt.status = some .completed ∧
      (((desk sampleStripe).exec sampleDesk
        (paidPurchase ++ replayedPurchase (minutes 40))).db.checkouts.find? 8).map
          CheckoutAttempt.status = some .expired := by
  decide +kernel

theorem finished_checkout_stays_finished_earlyReplay :
    ∃ c, ((desk sampleStripe).exec sampleDesk paidPurchase).db.checkouts.find? 8 = some c ∧
      c.status = .completed ∧
      ∃ c' ∈ ((desk sampleStripe).exec ((desk sampleStripe).exec sampleDesk paidPurchase)
        (replayedPurchase (minutes 10))).db.checkouts, c'.id = c.id ∧ c'.status = .completed := by
  have hpaid : ((((desk sampleStripe).exec sampleDesk paidPurchase).db.checkouts.find? 8).any
      fun c ↦ c.status = .completed) = true := by decide +kernel
  obtain ⟨c, hfind, hstatus⟩ := (Option.any_eq_true _ _).mp hpaid
  have hcompleted : c.status = .completed := by simpa using hstatus
  have hvalid : (desk sampleStripe).Valid ((desk sampleStripe).exec sampleDesk paidPurchase)
      (replayedPurchase (minutes 10)) := by decide +kernel
  have hspares : (desk sampleStripe).Along SparesFinished
      ((desk sampleStripe).exec sampleDesk paidPurchase) (replayedPurchase (minutes 10)) := by
    decide +kernel
  obtain ⟨c', hc', hid, hkept, _⟩ := finished_checkout_stays_finished hvalid hspares
    (Table.find?_eq_some_iff.mp hfind).1
  exact ⟨c, hfind, hcompleted, c', hc', hid, hkept hcompleted⟩

end Histae.Billing
