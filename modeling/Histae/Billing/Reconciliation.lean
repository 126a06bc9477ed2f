import Mathlib
import Histae.Billing.Deletion

/-!
# Reconciliation with Stripe

A reconciliation reads a context, asks Stripe for the state of the customer
and applies the answer in one transaction, which it gives up when the
projection has moved on since. The answers of Stripe are opaque: choosing
the subscription among those listed and reading its fields are left out.
-/

namespace Histae.Billing

open Relational

structure KnownSubscriptionPrice where
  subscriptionId : String
  priceId : String
  billingPeriod : BillingPeriod
  deriving DecidableEq

structure SubscriptionContext where
  userId : Uuid
  stripeCustomerId : String
  projectionVersion : Option ℕ
  knownPrice : Option KnownSubscriptionPrice
  deriving DecidableEq

inductive ReconciliationApplyState
  | applied
  | stale
  | notFound
  | conflict
  deriving DecidableEq

structure ReconciliationApplyResult where
  state : ReconciliationApplyState
  previousStatus : Option StripeSubscriptionStatus
  status : Option StripeSubscriptionStatus
  deriving DecidableEq

namespace UserSubscription

def knownPrice (row : UserSubscription) : Option KnownSubscriptionPrice :=
  match row.provider, row.providerSubscriptionId, row.providerPriceId, row.billingPeriod with
  | some .stripe, some subscriptionId, some priceId, some billingPeriod =>
      some ⟨subscriptionId, priceId, billingPeriod⟩
  | _, _, _, _ => none

/-- The columns a reconciliation writes into an absent row. -/
def discover (userId : Uuid) (input : SubscriptionProjection) (snapshotAt now : ℤ) :
    UserSubscription :=
  { project userId input now with
    providerEventCreatedAt := none, providerSnapshotAt := some snapshotAt }

/-- The columns it writes into a stored row; the time of the last event
stays. -/
def correct (input : SubscriptionProjection) (snapshotAt now : ℤ) (row : UserSubscription) :
    UserSubscription :=
  { project row.userId input now with
    providerEventCreatedAt := row.providerEventCreatedAt
    projectionVersion := row.projectionVersion + 1
    providerSnapshotAt := some snapshotAt }

/-- Stripe has no subscription any more. -/
def lapse (snapshotAt now : ℤ) (row : UserSubscription) : UserSubscription :=
  { row with
    status := some .canceled
    cancelAtPeriodEnd := false
    canceledAt := row.canceledAt <|> some snapshotAt
    projectionVersion := row.projectionVersion + 1
    providerSnapshotAt := some snapshotAt
    updatedAt := now }

end UserSubscription

namespace BillingDb

variable (db : BillingDb)

/-- The customer of an active account, unless Stripe deleted it. -/
def reconcilable (userId : Uuid) : Option BillingCustomer :=
  (db.customers.find? userId).filter fun customer ↦
    customer.stripeCustomerDeletedAt.isNone &&
      (db.accounts.find? userId).any fun account ↦ account.deletedAt.isNone

def subscriptionContext (userId : Uuid) : Option SubscriptionContext :=
  (db.reconcilable userId).map fun customer ↦
    ⟨customer.userId, customer.stripeCustomerId,
      (db.subscriptions.find? userId).map UserSubscription.projectionVersion,
      (db.subscriptions.find? userId).bind UserSubscription.knownPrice⟩

def correctSubscription (userId : Uuid) (input : SubscriptionProjection) (snapshotAt now : ℤ) :
    BillingDb :=
  { db with
    subscriptions := db.subscriptions.upsert (.discover userId input snapshotAt now)
      (UserSubscription.correct input snapshotAt now) fun _ ↦ rfl
    customers := match input.trialStartsAt with
      | none => db.customers
      | some trialStartedAt => db.customers.modify (fun c ↦ c.userId = userId)
          (fun c ↦ { c with trialUsedAt := c.trialUsedAt <|> some trialStartedAt }) fun _ ↦ rfl }

def lapseSubscription (userId : Uuid) (snapshotAt now : ℤ) : BillingDb :=
  { db with
    subscriptions := db.subscriptions.modify (fun row ↦ row.userId = userId)
      (UserSubscription.lapse snapshotAt now) fun _ ↦ rfl }

def recordReconciliation (userId : Uuid) (snapshotAt nextDueAt : ℤ) (customerDeleted : Bool)
    (now : ℤ) : BillingDb :=
  { db with
    customers := db.customers.modify (fun c ↦ c.userId = userId)
      (fun c ↦ { c with
        stripeReconciledAt := some snapshotAt
        stripeReconciliationDueAt := nextDueAt
        stripeCustomerDeletedAt := if customerDeleted then
          c.stripeCustomerDeletedAt <|> some snapshotAt else c.stripeCustomerDeletedAt
        updatedAt := now }) fun _ ↦ rfl }

def applySubscription (context : SubscriptionContext) (projection : Option SubscriptionProjection)
    (snapshotAt nextDueAt : ℤ) (customerDeleted : Bool) (now : ℤ) :
    BillingDb × ReconciliationApplyResult :=
  let userId := context.userId
  let current := db.subscriptions.find? userId
  let currentStatus := current.bind UserSubscription.status
  if (db.reconcilable userId).map BillingCustomer.stripeCustomerId ≠
      some context.stripeCustomerId then
    (db, ⟨.notFound, none, none⟩)
  else if current.map UserSubscription.projectionVersion ≠ context.projectionVersion ∨
      ((current.bind UserSubscription.providerSnapshotAt).any fun s ↦ snapshotAt < s) = true then
    (db, ⟨.stale, currentStatus, currentStatus⟩)
  else
    match projection with
    | some projection =>
        if db.subscriptionTaken userId projection then (db, ⟨.conflict, none, none⟩)
        else
          ((db.correctSubscription userId projection snapshotAt now).recordReconciliation userId
              snapshotAt nextDueAt customerDeleted now,
            ⟨.applied, currentStatus, some projection.status⟩)
    | none =>
        if (current.any fun row ↦ row.provider = some .stripe) = true then
          ((db.lapseSubscription userId snapshotAt now).recordReconciliation userId snapshotAt
              nextDueAt customerDeleted now,
            ⟨.applied, currentStatus, some .canceled⟩)
        else
          (db.recordReconciliation userId snapshotAt nextDueAt customerDeleted now,
            ⟨.applied, currentStatus, currentStatus⟩)

variable {db} {db' : BillingDb} {u v : Uuid} {cus : String} {now : ℤ}

/-- The version of a row as a number that only grows, 0 when there is no
row. -/
def stamp (version : Option ℕ) : ℕ := version.elim 0 (· + 1)

/-- The version of the user's row. -/
def versionOf (db : BillingDb) (u : Uuid) : Option ℕ :=
  (db.subscriptions.find? u).map UserSubscription.projectionVersion

/-- What reconciliation looks at in a customer does not change. -/
def SameCustomers (db db' : BillingDb) : Prop :=
  ∀ v c, db.customers.find? v = some c → ∃ c', db'.customers.find? v = some c' ∧
    c'.stripeCustomerId = c.stripeCustomerId ∧
    c'.stripeCustomerDeletedAt = c.stripeCustomerDeletedAt

theorem SameCustomers.refl (db : BillingDb) : SameCustomers db db :=
  fun _ c hc ↦ ⟨c, hc, rfl, rfl⟩

theorem SameCustomers.trans {db'' : BillingDb} (h : SameCustomers db db')
    (h' : SameCustomers db' db'') : SameCustomers db db'' := by
  intro v c hc
  obtain ⟨c', hc', hid, hdeleted⟩ := h v c hc
  obtain ⟨c'', hc'', hid', hdeleted'⟩ := h' v c' hc'
  exact ⟨c'', hc'', hid'.trans hid, hdeleted'.trans hdeleted⟩

theorem sameCustomers_modify {p : BillingCustomer → Bool} {f : BillingCustomer → BillingCustomer}
    (hf : ∀ c, (f c).userId = c.userId) (hid : ∀ c, (f c).stripeCustomerId = c.stripeCustomerId)
    (hdeleted : ∀ c, (f c).stripeCustomerDeletedAt = c.stripeCustomerDeletedAt)
    (hdb : db'.customers = db.customers.modify p f hf) : SameCustomers db db' := by
  intro v c hc
  rw [hdb, Table.find?_modify, hc]
  refine ⟨_, rfl, ?_, ?_⟩
  · by_cases hp : p c = true <;> simp [hp, hid]
  · by_cases hp : p c = true <;> simp [hp, hdeleted]

theorem reconcilable_of_same (h : SameCustomers db db') (haccounts : db'.accounts = db.accounts)
    (hcus : (db.reconcilable u).map BillingCustomer.stripeCustomerId = some cus) :
    (db'.reconcilable u).map BillingCustomer.stripeCustomerId = some cus := by
  obtain ⟨c, hc, rfl⟩ := Option.map_eq_some_iff.mp hcus
  obtain ⟨hfind, hactive⟩ := Option.filter_eq_some_iff.mp hc
  obtain ⟨c', hfind', hid, hdeleted⟩ := h u c hfind
  refine Option.map_eq_some_iff.mpr ⟨c', Option.filter_eq_some_iff.mpr ⟨hfind', ?_⟩, hid⟩
  rwa [hdeleted, haccounts]

/-- A reconciliation whose context is outdated answers `Stale` and changes
nothing. -/
theorem applySubscription_stale {context : SubscriptionContext}
    (hcus : (db.reconcilable context.userId).map BillingCustomer.stripeCustomerId =
      some context.stripeCustomerId)
    (hversion : db.versionOf context.userId ≠ context.projectionVersion)
    (projection : Option SubscriptionProjection) (snapshotAt nextDueAt : ℤ)
    (customerDeleted : Bool) (now : ℤ) :
    db.applySubscription context projection snapshotAt nextDueAt customerDeleted now =
      (db, ⟨.stale, (db.subscriptions.find? context.userId).bind UserSubscription.status,
        (db.subscriptions.find? context.userId).bind UserSubscription.status⟩) := by
  have hcurrent : (db.subscriptions.find? context.userId).map UserSubscription.projectionVersion ≠
      context.projectionVersion := hversion
  simp only [applySubscription, hcus, ne_eq, not_true_eq_false, if_false]
  rw [if_pos (Or.inl hcurrent)]

/-- What a reconciliation writes into the row of its user. -/
def Corrected (db db' : BillingDb) (u : Uuid) (snapshotAt now : ℤ) :
    Option SubscriptionProjection → Prop
  | some p => db'.subscriptions = (db.correctSubscription u p snapshotAt now).subscriptions
  | none => db'.subscriptions = db.subscriptions ∨
      (∃ row, db.subscriptions.find? u = some row ∧ row.provider = some .stripe) ∧
        db'.subscriptions = (db.lapseSubscription u snapshotAt now).subscriptions

theorem recordReconciliation_spec (db : BillingDb) (u : Uuid) (snapshotAt nextDueAt now : ℤ) :
    SameCustomers db (db.recordReconciliation u snapshotAt nextDueAt false now) ∧
      ∀ v cus, db.Linked v cus →
        (db.recordReconciliation u snapshotAt nextDueAt false now).Linked v cus := by
  constructor
  · refine sameCustomers_modify ?_ ?_ ?_ rfl <;> exact fun _ ↦ rfl
  · intro v cus h
    refine Linked.modify ?_ ?_ h <;> exact fun _ ↦ rfl

theorem correctSubscription_spec (db : BillingDb) (u : Uuid) (p : SubscriptionProjection)
    (snapshotAt now : ℤ) :
    SameCustomers db (db.correctSubscription u p snapshotAt now) ∧
      ∀ v cus, db.Linked v cus → (db.correctSubscription u p snapshotAt now).Linked v cus := by
  unfold correctSubscription
  cases p.trialStartsAt with
  | none => exact ⟨fun _ c hc ↦ ⟨c, hc, rfl, rfl⟩, fun _ _ h ↦ h⟩
  | some trialStartedAt =>
      constructor
      · refine sameCustomers_modify ?_ ?_ ?_ rfl <;> exact fun _ ↦ rfl
      · intro v cus h
        have hmodify : { db with
            customers := db.customers.modify (fun c ↦ c.userId = u)
              (fun c ↦ { c with trialUsedAt := c.trialUsedAt <|> some trialStartedAt })
              fun _ ↦ rfl }.Linked v cus := by
          refine Linked.modify ?_ ?_ h <;> exact fun _ ↦ rfl
        exact hmodify

/-- A reconciliation changes nothing, or its context is current, its snapshot
not overtaken, and it writes what Stripe answered. -/
theorem applySubscription_cases {context : SubscriptionContext}
    {projection : Option SubscriptionProjection} {snapshotAt nextDueAt : ℤ} {result}
    (h : db.applySubscription context projection snapshotAt nextDueAt false now = (db', result)) :
    db' = db ∨ db.versionOf context.userId = context.projectionVersion ∧
      (∀ row s, db.subscriptions.find? context.userId = some row →
        row.providerSnapshotAt = some s → s ≤ snapshotAt) ∧
      Corrected db db' context.userId snapshotAt now projection ∧ SameCustomers db db' ∧
      (∀ v cus, db.Linked v cus → db'.Linked v cus) ∧
      db.customers.find? context.userId ≠ none ∧
      ∃ subscriptions customers, db' = { db with subscriptions, customers } := by
  simp only [applySubscription] at h
  split at h
  · exact Or.inl (Prod.mk.inj h).1.symm
  rename_i hmapped
  have hknown : db.customers.find? context.userId ≠ none := by
    intro hnone
    exact hmapped (by simp [reconcilable, hnone])
  split at h
  · exact Or.inl (Prod.mk.inj h).1.symm
  rename_i hcurrent
  push Not at hcurrent
  obtain ⟨hversion, hsnapshot⟩ := hcurrent
  have hnotOvertaken : ∀ row s, db.subscriptions.find? context.userId = some row →
      row.providerSnapshotAt = some s → s ≤ snapshotAt := by
    intro row s hrow hs
    simpa [hrow, hs] using hsnapshot
  cases projection with
  | some p =>
      simp only at h
      split at h
      · exact Or.inl (Prod.mk.inj h).1.symm
      · rw [← (Prod.mk.inj h).1]
        obtain ⟨hcustomers, hlinked⟩ :=
          correctSubscription_spec db context.userId p snapshotAt now
        obtain ⟨hrecorded, hstill⟩ := recordReconciliation_spec
          (db.correctSubscription context.userId p snapshotAt now) context.userId snapshotAt
          nextDueAt now
        exact Or.inr ⟨hversion, hnotOvertaken, rfl, hcustomers.trans hrecorded,
          fun v cus hl ↦ hstill v cus (hlinked v cus hl), hknown, _, _, rfl⟩
  | none =>
      simp only at h
      split at h
      · rename_i hstripe
        rw [← (Prod.mk.inj h).1]
        obtain ⟨hrecorded, hstill⟩ := recordReconciliation_spec
          (db.lapseSubscription context.userId snapshotAt now) context.userId snapshotAt
          nextDueAt now
        obtain ⟨row, hrow, hprovider⟩ := (Option.any_eq_true _ _).mp hstripe
        exact Or.inr ⟨hversion, hnotOvertaken,
          Or.inr ⟨⟨row, hrow, by simpa using hprovider⟩, rfl⟩, hrecorded, hstill, hknown, _, _, rfl⟩
      · rw [← (Prod.mk.inj h).1]
        obtain ⟨hrecorded, hstill⟩ := recordReconciliation_spec db context.userId snapshotAt
          nextDueAt now
        exact Or.inr ⟨hversion, hnotOvertaken, Or.inl rfl, hrecorded, hstill, hknown, _, _, rfl⟩

theorem find?_correctSubscription (db : BillingDb) (u v : Uuid) (p : SubscriptionProjection)
    (snapshotAt now : ℤ) :
    (db.correctSubscription u p snapshotAt now).subscriptions.find? v =
      if v = u then some (((db.subscriptions.find? v).map (.correct p snapshotAt now)).getD
        (.discover u p snapshotAt now)) else db.subscriptions.find? v := by
  have hkey : ∀ row, (UserSubscription.correct p snapshotAt now row).userId = row.userId :=
    fun _ ↦ rfl
  exact Table.find?_upsert hkey

theorem find?_lapseSubscription (db : BillingDb) (u v : Uuid) (snapshotAt now : ℤ) :
    (db.lapseSubscription u snapshotAt now).subscriptions.find? v =
      (db.subscriptions.find? v).map fun row ↦
        if row.userId = u then row.lapse snapshotAt now else row := by
  have hkey : ∀ row, (UserSubscription.lapse snapshotAt now row).userId = row.userId :=
    fun _ ↦ rfl
  rw [lapseSubscription]
  exact (Table.find?_modify hkey).trans (by simp)

theorem Corrected.others {snapshotAt : ℤ} {projection : Option SubscriptionProjection}
    (h : Corrected db db' v snapshotAt now projection) (hu : u ≠ v) :
    db'.subscriptions.find? u = db.subscriptions.find? u := by
  cases projection with
  | some p =>
      have hsame : db'.subscriptions = (db.correctSubscription v p snapshotAt now).subscriptions := h
      rw [hsame, find?_correctSubscription, if_neg hu]
  | none =>
      rcases h with hsame | ⟨_, hsame⟩
      · rw [hsame]
      · rw [hsame, find?_lapseSubscription]
        cases hfind : db.subscriptions.find? u with
        | none => rfl
        | some row =>
            have hrow : row.userId ≠ v := by
              rw [(Table.find?_eq_some_iff.mp hfind).2]
              exact hu
            simp [hrow]

theorem Corrected.stamp_le {snapshotAt : ℤ} {projection : Option SubscriptionProjection}
    (h : Corrected db db' v snapshotAt now projection) :
    stamp (db.versionOf u) ≤ stamp (db'.versionOf u) := by
  cases projection with
  | some p =>
      have hsame : db'.subscriptions = (db.correctSubscription v p snapshotAt now).subscriptions := h
      rw [versionOf, versionOf, hsame, find?_correctSubscription]
      by_cases hu : u = v
      · rw [if_pos hu]
        cases db.subscriptions.find? u <;> simp [stamp, UserSubscription.correct]
      · rw [if_neg hu]
  | none =>
      rcases h with hsame | ⟨_, hsame⟩
      · rw [versionOf, versionOf, hsame]
      · rw [versionOf, versionOf, hsame, find?_lapseSubscription]
        cases db.subscriptions.find? u with
        | none => rfl
        | some row =>
            by_cases hrow : row.userId = v <;> simp [stamp, hrow, UserSubscription.lapse]

theorem sameCustomers_recordTrial (db : BillingDb) (u : Uuid) (p : SubscriptionProjection)
    (now : ℤ) : SameCustomers db (db.recordTrial u p now) := by
  unfold recordTrial
  split
  · exact SameCustomers.refl db
  · refine sameCustomers_modify ?_ ?_ ?_ rfl <;> exact fun _ ↦ rfl

theorem sameCustomers_resolveUser {p : SubscriptionProjection}
    (h : db.resolveUser p now = .ok (db', v)) :
    SameCustomers db db' ∧ ∃ customers, db' = { db with customers } := by
  unfold resolveUser at h
  split at h
  · simp only [bind, Except.bind] at h
    split at h
    · exact absurd h (by simp)
    split at h
    · exact absurd h (by simp)
    · rw [← (Prod.mk.inj (Except.ok.inj h)).1]
      exact ⟨SameCustomers.refl db, _, rfl⟩
  · split at h
    · exact absurd h (by simp)
    simp only [bind, Except.bind] at h
    split at h
    · exact absurd h (by simp)
    unfold linkCustomer at h
    split at h
    · split at h
      · rw [← (Prod.mk.inj (Except.ok.inj h)).1]
        refine ⟨?_, _, rfl⟩
        refine sameCustomers_modify ?_ ?_ ?_ rfl <;> exact fun _ ↦ rfl
      · exact absurd h (by simp)
    · split at h
      · exact absurd h (by simp)
      · rename_i hunused _ customers hinsert
        rw [← (Prod.mk.inj (Except.ok.inj h)).1]
        refine ⟨fun w c hc ↦ ⟨c, ?_, rfl, rfl⟩, _, rfl⟩
        rw [Table.find?_insert hinsert]
        split
        · rename_i heq
          rw [← heq] at hc
          exact absurd (hunused.symm.trans hc) (by simp)
        · exact hc

end BillingDb

section Deliveries

variable {db db' : BillingDb} {u : Uuid} {p : SubscriptionProjection} {d : Delivery}

theorem sameCustomers_deliver (hp : d.command.projection? = some p) :
    BillingDb.SameCustomers db (deliver db d) ∧ (deliver db d).accounts = db.accounts := by
  rcases deliver_outcome db d with hsame | ⟨events, hsame | ⟨result, hcommand, hsame⟩⟩
  · rw [hsame]
    exact ⟨BillingDb.SameCustomers.refl db, rfl⟩
  · rw [hsame]
    exact ⟨BillingDb.SameCustomers.refl db, rfl⟩
  · rw [hsame]
    obtain ⟨db₁, v, db₂, applied, invoices, hresolve, hupsert, hresult, _⟩ :=
      BillingDb.applyCommand_eq_ok hp hcommand
    obtain ⟨hcustomers, customers, rfl⟩ := BillingDb.sameCustomers_resolveUser hresolve
    rw [hresult]
    rcases BillingDb.upsertSubscription_eq_ok hupsert with ⟨_, _, rfl⟩ | ⟨_, _, rfl⟩
    · have htrial := BillingDb.sameCustomers_recordTrial
        (BillingDb.writeSubscription { db with events, customers } v p d.now) v p d.now
      refine ⟨hcustomers.trans htrial, ?_⟩
      obtain ⟨others, hspec, _⟩ := BillingDb.recordTrial_spec
        (BillingDb.writeSubscription { db with events, customers } v p d.now) v p d.now
      rw [hspec]
      rfl
    · have htrial := BillingDb.sameCustomers_recordTrial
        ({ db with events, customers } : BillingDb) v p d.now
      refine ⟨hcustomers.trans htrial, ?_⟩
      obtain ⟨others, hspec, _⟩ := BillingDb.recordTrial_spec
        ({ db with events, customers } : BillingDb) v p d.now
      rw [hspec]

theorem stamp_writeSubscription (db : BillingDb) (u : Uuid) (p : SubscriptionProjection) (now : ℤ) :
    BillingDb.stamp (db.versionOf u) <
      BillingDb.stamp ((db.writeSubscription u p now).versionOf u) := by
  rw [BillingDb.versionOf, BillingDb.versionOf, BillingDb.find?_writeSubscription, if_pos rfl]
  cases db.subscriptions.find? u with
  | none => simp [BillingDb.stamp]
  | some row => simp [BillingDb.stamp, UserSubscription.overwrite]

theorem versionOf_recordTrial (db : BillingDb) (u v : Uuid) (p : SubscriptionProjection)
    (now : ℤ) : (db.recordTrial v p now).versionOf u = db.versionOf u := by
  obtain ⟨customers, hspec, _⟩ := BillingDb.recordTrial_spec db v p now
  rw [hspec]
  rfl

theorem stamp_applyCommand {c : WebhookCommand} {now : ℤ} {effect : Option WebhookEffect}
    (hp : c.projection? = some p) (h : db.applyCommand c now = .ok (db', effect)) :
    BillingDb.stamp (db.versionOf u) ≤ BillingDb.stamp (db'.versionOf u) ∧
      ((∃ e, effect = some e ∧ e.userId = u) →
        BillingDb.stamp (db.versionOf u) < BillingDb.stamp (db'.versionOf u)) := by
  obtain ⟨db₁, v, db₂, applied, invoices, hresolve, hupsert, hresult, heffect⟩ :=
    BillingDb.applyCommand_eq_ok hp h
  obtain ⟨_, customers, rfl⟩ := BillingDb.sameCustomers_resolveUser hresolve
  have hversion : db'.versionOf u = db₂.versionOf u := by
    rw [hresult]
    rfl
  have hbefore : BillingDb.versionOf { db with customers } u = db.versionOf u := rfl
  rw [hversion, ← hbefore]
  rcases BillingDb.upsertSubscription_eq_ok hupsert with ⟨rfl, _, rfl⟩ | ⟨rfl, _, rfl⟩
  · rw [versionOf_recordTrial]
    by_cases hv : v = u
    · rw [hv]
      have hlt := stamp_writeSubscription { db with customers } u p now
      exact ⟨hlt.le, fun _ ↦ hlt⟩
    · have hsame : (BillingDb.writeSubscription { db with customers } v p now).versionOf u =
          BillingDb.versionOf { db with customers } u := by
        rw [BillingDb.versionOf, BillingDb.find?_writeSubscription, if_neg (Ne.symm hv)]
        rfl
      refine ⟨hsame ▸ le_rfl, ?_⟩
      rintro ⟨e, he, rfl⟩
      rw [heffect] at he
      exact absurd (congrArg WebhookEffect.userId (Option.some.inj he)) hv
  · rw [versionOf_recordTrial]
    refine ⟨le_rfl, ?_⟩
    rintro ⟨e, he, _⟩
    rw [heffect] at he
    exact absurd he (by simp)

theorem stamp_deliver (hp : d.command.projection? = some p) :
    BillingDb.stamp (db.versionOf u) ≤ BillingDb.stamp ((deliver db d).versionOf u) := by
  rcases deliver_outcome db d with hsame | ⟨events, hsame | ⟨result, hcommand, hsame⟩⟩
  · rw [hsame]
  · rw [hsame]
    rfl
  · rw [hsame]
    exact (stamp_applyCommand hp hcommand).1

/-- A webhook that projects the user's subscription moves its version. -/
theorem stamp_applied {effect : WebhookEffect} (hp : d.command.projection? = some p)
    (h : db.apply d.command d.now = .ok (db', .applied (some effect))) (hu : effect.userId = u) :
    BillingDb.stamp (db.versionOf u) < BillingDb.stamp ((deliver db d).versionOf u) := by
  have hnext : deliver db d = db' := by simp only [deliver, h]
  rw [hnext]
  unfold BillingDb.apply at h
  split at h
  · exact absurd h (by simp)
  · rename_i events hinsert
    simp only at h
    split at h
    · rename_i result hcommand
      obtain ⟨rfl, heffect⟩ := Prod.mk.inj (Except.ok.inj h)
      exact (stamp_applyCommand hp hcommand).2 ⟨effect, by simpa using heffect, hu⟩
    all_goals exact absurd h (by simp)

end Deliveries

end Histae.Billing
