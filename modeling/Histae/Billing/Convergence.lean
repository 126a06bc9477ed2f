import Mathlib
import Histae.Billing.Reconciliation

/-!
# Convergence to Stripe's last state

Stripe changes one subscription from instant to instant and emits an event
for each change, dated by whole seconds. Webhooks deliver the events in any
order; reconciliations read their context, take the time, read the state at
Stripe and apply it, all of it interleaved in any way.

The row shows a change that is no older than any delivered one, as long as no
reconciliation dates what it has read after the second of a later change.
-/

namespace Histae.Billing

open Relational Systems

/-- A change of the subscription at Stripe. -/
structure Change where
  eventId : String
  instant : ℤ
  state : SubscriptionProjection
  deriving DecidableEq

namespace Change

/-- The field `created` of the event, in whole seconds. -/
def created (c : Change) : ℤ := seconds (c.instant / seconds 1)

def projection (c : Change) : SubscriptionProjection := { c.state with eventCreatedAt := c.created }

def event (c : Change) : WebhookCommand :=
  .subscription ⟨c.eventId, "customer.subscription.updated", some c.state.stripeSubscriptionId,
    false, none, c.created⟩ c.projection

/-- The state as a reconciliation reads it. -/
def readAt (snapshotAt : ℤ) (c : Change) : SubscriptionProjection :=
  { c.state with eventCreatedAt := snapshotAt }

end Change

inductive Stage
  | context
  | snapshot (snapshotAt : ℤ)
  | read (snapshotAt : ℤ) (projection : Option SubscriptionProjection)
  deriving DecidableEq

structure Reconciliation where
  context : SubscriptionContext
  stage : Stage
  deriving DecidableEq

/-- The changes so far, oldest first, the ones delivered, the reconciliations
under way and the database. -/
structure Exchange where
  clock : ℤ
  changes : List Change
  delivered : List Change
  running : List Reconciliation
  db : BillingDb

inductive ExchangeStep
  | advance (clock : ℤ)
  | change (eventId : String) (state : SubscriptionProjection)
  | deliver (c : Change)
  | context
  | snapshot (r : Reconciliation)
  | read (r : Reconciliation)
  | apply (r : Reconciliation) (nextDueAt : ℤ)
  | abandon (r : Reconciliation)

namespace Exchange

/-- The change that a step makes at Stripe. -/
def changeAt (w : Exchange) (eventId : String) (state : SubscriptionProjection) : Change :=
  ⟨eventId, w.clock, state⟩

def replace (w : Exchange) (r : Reconciliation) (stage : Stage) : Exchange :=
  { w with running := { r with stage } :: w.running.erase r }

/-- The subscription belongs to the user, its customer and nobody else, and
an event has its own identifier. -/
def Enabled (u : Uuid) (cus sub : String) (w : Exchange) : ExchangeStep → Prop
  | .advance clock => w.clock ≤ clock
  | .change eventId state => state.stripeCustomerId = cus ∧ state.stripeSubscriptionId = sub ∧
      (state.metadataUserId = some u ∨ state.metadataUserId = none ∧ w.db.Linked u cus) ∧
      w.db.events.find? eventId = none ∧ ∀ c ∈ w.changes, c.eventId ≠ eventId
  | .deliver c => c ∈ w.changes
  | .context => True
  | .snapshot r => r ∈ w.running ∧ r.stage = .context
  | .read r => r ∈ w.running ∧ ∃ snapshotAt, r.stage = .snapshot snapshotAt
  | .apply r _ => r ∈ w.running ∧ ∃ snapshotAt projection, r.stage = .read snapshotAt projection
  | .abandon r => r ∈ w.running

def next (u : Uuid) (w : Exchange) : ExchangeStep → Exchange
  | .advance clock => { w with clock }
  | .change eventId state => { w with changes := w.changes ++ [w.changeAt eventId state] }
  | .deliver c =>
      { w with delivered := c :: w.delivered, db := Billing.deliver w.db ⟨c.event, w.clock⟩ }
  | .context =>
      match w.db.subscriptionContext u with
      | none => w
      | some context => { w with running := ⟨context, .context⟩ :: w.running }
  | .snapshot r => w.replace r (.snapshot w.clock)
  | .read r =>
      match r.stage with
      | .snapshot snapshotAt =>
          w.replace r (.read snapshotAt (w.changes.getLast?.map (Change.readAt snapshotAt)))
      | _ => w
  | .apply r nextDueAt =>
      match r.stage with
      | .read snapshotAt projection =>
          { w with
            running := w.running.erase r
            db := (w.db.applySubscription r.context projection snapshotAt nextDueAt false
              w.clock).1 }
      | _ => w
  | .abandon r => { w with running := w.running.erase r }

end Exchange

/-- The subscription `sub` of the customer `cus` of the user `u`. -/
def exchange (u : Uuid) (cus sub : String) : System Exchange ExchangeStep where
  Enabled := Exchange.Enabled u cus sub
  next := Exchange.next u

/-- Changes fall in distinct seconds. -/
def Spaced (w : Exchange) : ExchangeStep → Prop
  | .change eventId state => ∀ c ∈ w.changes, c.created ≠ (w.changeAt eventId state).created
  | _ => True

/-- No reconciliation that has read Stripe before this change, and is applied
or still under way, took its snapshot after the start of its second. -/
def Aligned (u : Uuid) (w : Exchange) : ExchangeStep → Prop
  | .change eventId state =>
      (∀ row s, w.db.subscriptions.find? u = some row → row.providerSnapshotAt = some s →
        s ≤ (w.changeAt eventId state).created) ∧
      ∀ r ∈ w.running, ∀ s p, r.stage = .read s p → s ≤ (w.changeAt eventId state).created
  | _ => True

section Decidability

variable (u : Uuid) (cus sub : String) (w : Exchange)

instance (db : BillingDb) : Decidable (db.Linked u cus) :=
  decidable_of_iff (((db.customerOf cus).any fun c ↦ c.userId = u) = true) (by
    rw [Option.any_eq_true]
    simp [BillingDb.Linked])

def Stage.isSnapshot : Stage → Bool
  | .snapshot _ => true
  | _ => false

def Stage.isRead : Stage → Bool
  | .read _ _ => true
  | _ => false

/-- The time at which a reconciliation that has read Stripe is dated. -/
def Stage.readTime? : Stage → Option ℤ
  | .read snapshotAt _ => some snapshotAt
  | _ => none

instance : ∀ a, Decidable ((exchange u cus sub).Enabled w a)
  | .advance clock => inferInstanceAs (Decidable (w.clock ≤ clock))
  | .change eventId state => inferInstanceAs (Decidable (state.stripeCustomerId = cus ∧
      state.stripeSubscriptionId = sub ∧
      (state.metadataUserId = some u ∨ state.metadataUserId = none ∧ w.db.Linked u cus) ∧
      w.db.events.find? eventId = none ∧ ∀ c ∈ w.changes, c.eventId ≠ eventId))
  | .deliver c => inferInstanceAs (Decidable (c ∈ w.changes))
  | .context => .isTrue trivial
  | .snapshot r => inferInstanceAs (Decidable (r ∈ w.running ∧ r.stage = .context))
  | .read r => decidable_of_iff (r ∈ w.running ∧ r.stage.isSnapshot = true) (and_congr_right (by
      intro _
      cases hstage : r.stage <;> simp [Stage.isSnapshot]))
  | .apply r _ => decidable_of_iff (r ∈ w.running ∧ r.stage.isRead = true) (and_congr_right (by
      intro _
      cases hstage : r.stage <;> simp [Stage.isRead]))
  | .abandon r => inferInstanceAs (Decidable (r ∈ w.running))

instance : ∀ a, Decidable (Spaced w a)
  | .change eventId state => inferInstanceAs (Decidable
      (∀ c ∈ w.changes, c.created ≠ (w.changeAt eventId state).created))
  | .advance _ | .deliver _ | .context | .snapshot _ | .read _ | .apply _ _ | .abandon _ =>
      .isTrue trivial

instance : ∀ a, Decidable (Aligned u w a)
  | .change eventId state => decidable_of_iff
      ((∀ row ∈ w.db.subscriptions.find? u, ∀ s ∈ row.providerSnapshotAt,
          s ≤ (w.changeAt eventId state).created) ∧
        ∀ r ∈ w.running, ∀ s ∈ r.stage.readTime?, s ≤ (w.changeAt eventId state).created) (by
      refine and_congr ?_ (forall₂_congr fun r _ ↦ ?_)
      · exact ⟨fun h row s hrow hs ↦ h row hrow s hs, fun h row hrow s hs ↦ h row s hrow hs⟩
      · cases hstage : r.stage <;> simp [Stage.readTime?])
  | .advance _ | .deliver _ | .context | .snapshot _ | .read _ | .apply _ _ | .abandon _ =>
      .isTrue trivial

end Decidability

section Versions

variable {u : Uuid} {cus sub : String} {w : Exchange} {as : List ExchangeStep}

theorem Change.projection_eventCreatedAt (c : Change) :
    c.projection.eventCreatedAt = c.created := rfl

theorem Change.projection_stripeSubscriptionId (c : Change) :
    c.projection.stripeSubscriptionId = c.state.stripeSubscriptionId := rfl

theorem event_projection (c : Change) : c.event.projection? = some c.projection := rfl

/-- The database after a step: as before, after a delivery, or after a
reconciliation. -/
theorem next_db (w : Exchange) (a : ExchangeStep) :
    (Exchange.next u w a).db = w.db ∨
      (∃ c, a = .deliver c ∧ (Exchange.next u w a).db = Billing.deliver w.db ⟨c.event, w.clock⟩) ∨
      ∃ r nextDueAt s p, a = .apply r nextDueAt ∧ r.stage = .read s p ∧
        (Exchange.next u w a).db =
          (w.db.applySubscription r.context p s nextDueAt false w.clock).1 := by
  cases a with
  | deliver c => exact Or.inr (Or.inl ⟨c, rfl, rfl⟩)
  | apply r nextDueAt =>
      cases hstage : r.stage with
      | read s p => exact Or.inr (Or.inr ⟨r, nextDueAt, s, p, rfl, hstage, by simp [Exchange.next, hstage]⟩)
      | context => exact Or.inl (by simp [Exchange.next, hstage])
      | snapshot s => exact Or.inl (by simp [Exchange.next, hstage])
  | context =>
      refine Or.inl ?_
      simp only [Exchange.next]
      split <;> rfl
  | read r =>
      refine Or.inl ?_
      simp only [Exchange.next]
      split <;> rfl
  | _ => exact Or.inl rfl

theorem sameCustomers_next (w : Exchange) (a : ExchangeStep) :
    BillingDb.SameCustomers w.db (Exchange.next u w a).db ∧
      (Exchange.next u w a).db.accounts = w.db.accounts := by
  rcases next_db w a with hsame | ⟨c, _, hdb⟩ | ⟨r, nextDueAt, s, p, _, _, hdb⟩
  · rw [hsame]
    exact ⟨BillingDb.SameCustomers.refl w.db, rfl⟩
  · rw [hdb]
    exact sameCustomers_deliver (event_projection c)
  · rw [hdb]
    rcases BillingDb.applySubscription_cases (Prod.mk.eta.symm) with
      hsame | ⟨_, _, _, hcustomers, _, _, subscriptions, customers, hfields⟩
    · rw [hsame]
      exact ⟨BillingDb.SameCustomers.refl w.db, rfl⟩
    · exact ⟨hcustomers, by rw [hfields]⟩

theorem stamp_next (w : Exchange) (a : ExchangeStep) :
    BillingDb.stamp (w.db.versionOf u) ≤
      BillingDb.stamp ((Exchange.next u w a).db.versionOf u) := by
  rcases next_db w a with hsame | ⟨c, _, hdb⟩ | ⟨r, nextDueAt, s, p, _, _, hdb⟩
  · rw [hsame]
  · rw [hdb]
    exact stamp_deliver (event_projection c)
  · rw [hdb]
    rcases BillingDb.applySubscription_cases (Prod.mk.eta.symm) with hsame | ⟨_, _, hcorrected, _⟩
    · rw [hsame]
    · exact hcorrected.stamp_le

theorem reconcilable_exec {v : Uuid} {mapped : String}
    (h : (w.db.reconcilable v).map BillingCustomer.stripeCustomerId = some mapped) :
    (((exchange u cus sub).exec w as).db.reconcilable v).map BillingCustomer.stripeCustomerId =
      some mapped := by
  induction as generalizing w with
  | nil => exact h
  | cons a as ih =>
      obtain ⟨hcustomers, haccounts⟩ := sameCustomers_next (u := u) w a
      exact ih (BillingDb.reconcilable_of_same hcustomers haccounts h)

theorem stamp_exec : BillingDb.stamp (w.db.versionOf u) ≤
    BillingDb.stamp (((exchange u cus sub).exec w as).db.versionOf u) := by
  induction as generalizing w with
  | nil => exact le_rfl
  | cons a as ih => exact (stamp_next w a).trans ih

/-- A context read before a webhook projected the user's subscription is
stale for ever. -/
theorem stale_after_webhook {pre mid post : List ExchangeStep} {c : Change}
    {context : SubscriptionContext} {db' : BillingDb} {effect : WebhookEffect}
    (hcontext : ((exchange u cus sub).exec w pre).db.subscriptionContext u = some context)
    (happlied : ((exchange u cus sub).exec w (pre ++ mid)).db.apply c.event
      ((exchange u cus sub).exec w (pre ++ mid)).clock = .ok (db', .applied (some effect)))
    (heffect : effect.userId = u) (projection : Option SubscriptionProjection)
    (snapshotAt nextDueAt : ℤ) (customerDeleted : Bool) (now : ℤ) :
    ∃ status, ((exchange u cus sub).exec w (pre ++ mid ++ .deliver c :: post)).db.applySubscription
        context projection snapshotAt nextDueAt customerDeleted now =
      (((exchange u cus sub).exec w (pre ++ mid ++ .deliver c :: post)).db,
        ⟨.stale, status, status⟩) := by
  obtain ⟨customer, hcustomer, rfl⟩ := Option.map_eq_some_iff.mp hcontext
  have huser : customer.userId = u :=
    (Table.find?_eq_some_iff.mp (Option.filter_eq_some_iff.mp hcustomer).1).2
  have hmapped : (((exchange u cus sub).exec w pre).db.reconcilable u).map
      BillingCustomer.stripeCustomerId = some customer.stripeCustomerId := by
    rw [hcustomer, Option.map_some]
  have hbefore : BillingDb.stamp (((exchange u cus sub).exec w pre).db.versionOf u) ≤
      BillingDb.stamp (((exchange u cus sub).exec w (pre ++ mid)).db.versionOf u) := by
    rw [System.exec_append]
    exact stamp_exec
  have hmoved := stamp_applied (d := ⟨c.event, _⟩) (event_projection c) happlied heffect
  have hsplit : (exchange u cus sub).exec w (pre ++ mid ++ .deliver c :: post) =
      (exchange u cus sub).exec
        (Exchange.next u ((exchange u cus sub).exec w (pre ++ mid)) (.deliver c)) post :=
    System.exec_append
  have hafter : BillingDb.stamp ((Exchange.next u ((exchange u cus sub).exec w (pre ++ mid))
      (.deliver c)).db.versionOf u) ≤ BillingDb.stamp
        (((exchange u cus sub).exec w (pre ++ mid ++ .deliver c :: post)).db.versionOf u) := by
    rw [hsplit]
    exact stamp_exec
  have hdelivered : (Exchange.next u ((exchange u cus sub).exec w (pre ++ mid)) (.deliver c)).db =
      Billing.deliver ((exchange u cus sub).exec w (pre ++ mid)).db
        ⟨c.event, ((exchange u cus sub).exec w (pre ++ mid)).clock⟩ := rfl
  have hne : ((exchange u cus sub).exec w (pre ++ mid ++ .deliver c :: post)).db.versionOf u ≠
      ((exchange u cus sub).exec w pre).db.versionOf u := by
    intro heq
    rw [heq, hdelivered] at hafter
    exact absurd (hbefore.trans_lt hmoved) (not_lt.mpr hafter)
  have hstill : (((exchange u cus sub).exec w (pre ++ mid ++ .deliver c :: post)).db.reconcilable
      u).map BillingCustomer.stripeCustomerId = some customer.stripeCustomerId := by
    rw [List.append_assoc, System.exec_append]
    exact reconcilable_exec hmapped
  refine ⟨_, BillingDb.applySubscription_stale ?_ ?_ projection snapshotAt nextDueAt
    customerDeleted now⟩
  · rw [huser]
    exact hstill
  · rw [huser]
    exact hne

end Versions

/-- What holds in every state, whatever the clocks do. -/
structure Sound (u : Uuid) (cus sub : String) (w : Exchange) : Prop where
  active : w.db.requireActiveAccount u = .ok ()
  customer : w.db.Linked u cus ∨ w.db.customerOf cus = none ∧ w.db.customers.find? u = none
  untaken : ∀ v row, v ≠ u → w.db.subscriptions.find? v = some row →
    row.providerSubscriptionId ≠ some sub
  changes : ∀ c ∈ w.changes, c.state.stripeCustomerId = cus ∧ c.state.stripeSubscriptionId = sub ∧
    (c.state.metadataUserId = some u ∨ c.state.metadataUserId = none ∧ w.db.Linked u cus)
  ids : ∀ c ∈ w.changes, ∀ d ∈ w.changes, c.eventId = d.eventId → c = d
  past : ∀ c ∈ w.changes, c.instant ≤ w.clock
  ordered : w.changes.Pairwise fun c d ↦ c.created < d.created
  delivered : ∀ c ∈ w.delivered, c ∈ w.changes
  events : ∀ c ∈ w.changes, w.db.events.find? c.eventId ≠ none ↔ c ∈ w.delivered
  contexts : ∀ r ∈ w.running, r.context.userId = u ∧
    BillingDb.stamp r.context.projectionVersion ≤ BillingDb.stamp (w.db.versionOf u)

/-- The row shows the change `d`, written at the time `s`. -/
structure Holds (u : Uuid) (w : Exchange) (d : Change) (row : UserSubscription) (s : ℤ) : Prop where
  mem : d ∈ w.changes
  stored : w.db.subscriptions.find? u = some row
  columns : row.Shows d.state
  snapshotAt : row.providerSnapshotAt = some s
  eventAt : ∀ t, row.providerEventCreatedAt = some t → ∃ e ∈ w.delivered, t = e.created
  newest : ∀ c ∈ w.delivered, c.created ≤ d.created
  guarded : ∀ c ∈ w.delivered,
    (∃ t, row.providerEventCreatedAt = some t ∧ c.created ≤ t) ∨ c.created < s
  behind : ∀ n ∈ w.changes, d.created < n.created → s ≤ n.created

/-- The change that the row shows, if a change was written at all. -/
def Displays (u : Uuid) (w : Exchange) : Option Change → Prop
  | none => (∀ row, w.db.subscriptions.find? u = some row →
      BillingDb.Blank row ∧ row.provider = none) ∧ w.delivered = []
  | some d => ∃ row s, Holds u w d row s

/-- A reconciliation that has read `seen`: it is dated before every change it
has not seen, and while its context is current, the row shows nothing
newer. -/
structure HasRead (u : Uuid) (w : Exchange) (shown : Option Change) (version : Option ℕ)
    (s : ℤ) (seen : Option Change) : Prop where
  mem : ∀ d, seen = some d → d ∈ w.changes
  behind : ∀ n ∈ w.changes, (∀ d, seen = some d → d.created < n.created) → s ≤ n.created
  current : w.db.versionOf u = version → ∀ d', shown = some d' →
    ∃ d, seen = some d ∧ d'.created ≤ d.created

def Reads (u : Uuid) (w : Exchange) (shown : Option Change) (r : Reconciliation) : Prop :=
  ∀ s p, r.stage = .read s p → ∃ seen : Option Change, p = seen.map (Change.readAt s) ∧
    HasRead u w shown r.context.projectionVersion s seen

structure Converging (u : Uuid) (cus sub : String) (w : Exchange) : Prop where
  sound : Sound u cus sub w
  shown : ∃ shown, Displays u w shown ∧ ∀ r ∈ w.running, Reads u w shown r

section Acceptance

variable {u : Uuid} {w : Exchange} {d c : Change} {row : UserSubscription} {s : ℤ}

/-- An event is refused because of a later event or a later snapshot. -/
theorem refused_cases (hsub : row.providerSubscriptionId = some c.state.stripeSubscriptionId)
    (hsnapshot : row.providerSnapshotAt = some s) (h : row.accepts c.projection = false) :
    (∃ t, row.providerEventCreatedAt = some t ∧ c.created ≤ t) ∨ c.created < s := by
  by_contra hnot
  push Not at hnot
  obtain ⟨hevent, hs⟩ := hnot
  have haccepts : row.accepts c.projection = true := by
    rw [UserSubscription.accepts, hsub, hsnapshot, Bool.and_eq_true, Bool.and_eq_true]
    refine ⟨⟨by simp [Change.projection_stripeSubscriptionId], ?_⟩, decide_eq_true hs⟩
    cases hat : row.providerEventCreatedAt with
    | none => rfl
    | some t => exact Bool.or_eq_true_iff.mpr (Or.inl (decide_eq_true (hevent t hat)))
  rw [haccepts] at h
  exact absurd h (by simp)

theorem refused_stale (hsub : row.providerSubscriptionId = some c.state.stripeSubscriptionId)
    (hsnapshot : row.providerSnapshotAt = some s) (h : row.accepts c.projection = false) :
    ∃ id, row.providerSubscriptionId = some id ∧ row.isStale id c.projection = true := by
  refine ⟨_, hsub, ?_⟩
  rcases refused_cases hsub hsnapshot h with ⟨t, ht, hle⟩ | hlt
  · have hevent : c.projection.eventCreatedAt ≤ t := hle
    simp [UserSubscription.isStale, ht, hevent]
  · have hearlier : c.projection.eventCreatedAt < s := hlt
    simp [UserSubscription.isStale, hsnapshot, hearlier]

theorem accepted_after (h : row.accepts c.projection = true) :
    (∀ t, row.providerEventCreatedAt = some t → t ≤ c.created) ∧
      ∀ s, row.providerSnapshotAt = some s → s ≤ c.created := by
  rw [UserSubscription.accepts, Bool.and_eq_true, Bool.and_eq_true] at h
  refine ⟨fun t ht ↦ ?_, fun s hs ↦ ?_⟩
  · have hevent := h.1.2
    rw [ht] at hevent
    simp only [Option.all_some, Bool.or_eq_true, Bool.and_eq_true, decide_eq_true_eq] at hevent
    rcases hevent with hlt | ⟨heq, _⟩
    · exact hlt.le
    · exact heq.le
  · have hsnapshot := h.2
    rw [hs] at hsnapshot
    exact of_decide_eq_true hsnapshot

end Acceptance

section Delivery

variable {u : Uuid} {cus sub : String} {w : Exchange} {c : Change}

/-- What the first delivery of an event does, when what the row does not
accept is stale. -/
structure FirstDelivery (u : Uuid) (cus : String) (c : Change) (now : ℤ) (db db' : BillingDb) :
    Prop where
  accounts : db'.accounts = db.accounts
  linked : db'.Linked u cus
  events : ∀ k, db'.events.find? k ≠ none ↔ db.events.find? k ≠ none ∨ c.eventId = k
  subscriptions : db'.subscriptions =
    if (db.subscriptions.find? u).all fun row ↦ row.accepts c.projection then
      (db.writeSubscription u c.projection now).subscriptions
    else db.subscriptions

theorem firstDelivery {db : BillingDb} (now : ℤ)
    (hactive : db.requireActiveAccount u = .ok ()) (hcus : c.projection.stripeCustomerId = cus)
    (hlink : db.Linked u cus ∧
        (c.projection.metadataUserId = some u ∨ c.projection.metadataUserId = none) ∨
      db.customerOf cus = none ∧ db.customers.find? u = none ∧
        c.projection.metadataUserId = some u)
    (huntaken : db.subscriptionTaken u c.projection = false)
    (hnew : db.events.find? c.eventId = none)
    (hstale : ∀ row, db.subscriptions.find? u = some row → row.accepts c.projection = false →
      ∃ id, row.providerSubscriptionId = some id ∧ row.isStale id c.projection = true) :
    FirstDelivery u cus c now db (deliver db ⟨c.event, now⟩) := by
  cases hinsert : db.events.insert? c.event.metadata with
  | none => exact absurd hnew (Table.insert?_eq_none_iff.mp hinsert)
  | some events =>
      obtain ⟨customers, hresolve, hlinked⟩ := BillingDb.resolveUser_spec
        { db with events } now hactive hcus hlink
      have hfree : BillingDb.subscriptionTaken { db with events, customers } u
        c.projection = false := huntaken
      obtain ⟨subscriptions, others, applied, hupsert, hstill, happlied, hsame⟩ :=
        BillingDb.upsertSubscription_total { db with events, customers } now hfree hstale
      have hdeliver : deliver db ⟨c.event, now⟩ =
          { db with events, subscriptions, customers := others } := by
        have hmetadata : c.event.metadata = ⟨c.eventId, "customer.subscription.updated",
          some c.state.stripeSubscriptionId, false, none, c.created⟩ := rfl
        rw [hmetadata] at hinsert
        simp only [deliver, BillingDb.apply, Change.event, WebhookCommand.metadata, hinsert,
          BillingDb.applyCommand, hresolve, hupsert, bind, Except.bind]
      rw [hdeliver]
      refine ⟨rfl, hstill u cus hlinked, fun k ↦ ?_, ?_⟩
      · change events.find? k ≠ none ↔ _
        rw [Table.find?_insert hinsert]
        have hkey : c.event.metadata.id = k ↔ c.eventId = k := Iff.rfl
        by_cases hk : c.eventId = k
        · rw [if_pos (hkey.mpr hk)]
          simp [hk]
        · rw [if_neg fun heq ↦ hk (hkey.mp heq)]
          simp [hk]
      · rw [happlied] at hsame
        exact hsame

theorem Sound.first (h : Sound u cus sub w) (hc : c ∈ w.changes) (hnew : c ∉ w.delivered)
    (hstale : ∀ row, w.db.subscriptions.find? u = some row → row.accepts c.projection = false →
      ∃ id, row.providerSubscriptionId = some id ∧ row.isStale id c.projection = true) :
    FirstDelivery u cus c w.clock w.db (deliver w.db ⟨c.event, w.clock⟩) := by
  obtain ⟨hcus, hsub, hmeta⟩ := h.changes c hc
  refine firstDelivery w.clock h.active hcus ?_ ?_ ?_ hstale
  · rcases h.customer with hlinked | ⟨hnone, hunused⟩
    · exact Or.inl ⟨hlinked, hmeta.imp_right And.left⟩
    · rcases hmeta with hmeta | ⟨_, customer, hfind, _⟩
      · exact Or.inr ⟨hnone, hunused, hmeta⟩
      · exact absurd (hnone.symm.trans hfind) (by simp)
  · rw [BillingDb.subscriptionTaken, decide_eq_false_iff_not, Table.count_pos_iff]
    rintro ⟨row, hrow, htaken⟩
    simp only [Bool.and_eq_true, decide_eq_true_eq] at htaken
    rw [Change.projection_stripeSubscriptionId, hsub] at htaken
    exact h.untaken row.userId row htaken.1 (Table.find?_key hrow) htaken.2
  · by_contra hfound
    exact hnew ((h.events c hc).mp hfound)

end Delivery

section Frames

variable {u : Uuid} {cus sub : String} {w w' : Exchange} {shown : Option Change}

theorem Displays.congr (h : Displays u w shown) (hchanges : w'.changes = w.changes)
    (hdelivered : ∀ c, c ∈ w'.delivered ↔ c ∈ w.delivered)
    (hrow : w'.db.subscriptions.find? u = w.db.subscriptions.find? u) : Displays u w' shown := by
  cases shown with
  | none =>
      refine ⟨fun row hfind ↦ h.1 row (hrow ▸ hfind), List.eq_nil_iff_forall_not_mem.mpr ?_⟩
      intro c hc
      rw [hdelivered, h.2] at hc
      exact absurd hc (by simp)
  | some d =>
      obtain ⟨row, s, hd⟩ := h
      refine ⟨row, s, hchanges ▸ hd.mem, hrow.trans hd.stored, hd.columns, hd.snapshotAt, ?_, ?_, ?_,
        hchanges ▸ hd.behind⟩
      · intro t ht
        obtain ⟨e, he, heq⟩ := hd.eventAt t ht
        exact ⟨e, (hdelivered e).mpr he, heq⟩
      · exact fun c hc ↦ hd.newest c ((hdelivered c).mp hc)
      · exact fun c hc ↦ hd.guarded c ((hdelivered c).mp hc)

theorem Reads.congr {r : Reconciliation} (h : Reads u w shown r) (hchanges : w'.changes = w.changes)
    (hversion : w'.db.versionOf u = w.db.versionOf u) : Reads u w' shown r := by
  intro s p hstage
  obtain ⟨seen, hp, hread⟩ := h s p hstage
  exact ⟨seen, hp, hchanges ▸ hread.mem, hchanges ▸ hread.behind, hversion ▸ hread.current⟩

/-- A reconciliation whose context is outdated only keeps what it has read. -/
theorem Reads.outdated {r : Reconciliation} {shown' : Option Change} (h : Reads u w shown r)
    (hchanges : w'.changes = w.changes)
    (hversion : BillingDb.stamp r.context.projectionVersion <
      BillingDb.stamp (w'.db.versionOf u)) : Reads u w' shown' r := by
  intro s p hstage
  obtain ⟨seen, hp, hread⟩ := h s p hstage
  refine ⟨seen, hp, hchanges ▸ hread.mem, hchanges ▸ hread.behind, fun heq ↦ ?_⟩
  rw [heq] at hversion
  exact absurd hversion (lt_irrefl _)

/-- A step that leaves Stripe and the database alone. -/
theorem Converging.congr (h : Converging u cus sub w) (hchanges : w'.changes = w.changes)
    (hdelivered : w'.delivered = w.delivered) (hdb : w'.db = w.db) (hclock : w.clock ≤ w'.clock)
    (hcontexts : ∀ r ∈ w'.running, r.context.userId = u ∧
      BillingDb.stamp r.context.projectionVersion ≤ BillingDb.stamp (w.db.versionOf u))
    (hreads : ∀ shown, Displays u w shown → (∀ r ∈ w.running, Reads u w shown r) →
      ∀ r ∈ w'.running, Reads u w shown r) : Converging u cus sub w' := by
  obtain ⟨hsound, shown, hshown, hread⟩ := h
  constructor
  · refine ⟨by rw [hdb]; exact hsound.active, by rw [hdb]; exact hsound.customer,
      by rw [hdb]; exact hsound.untaken, by rw [hchanges, hdb]; exact hsound.changes,
      by rw [hchanges]; exact hsound.ids, ?_, by rw [hchanges]; exact hsound.ordered,
      by rw [hchanges, hdelivered]; exact hsound.delivered,
      by rw [hchanges, hdelivered, hdb]; exact hsound.events, by rw [hdb]; exact hcontexts⟩
    intro c hc
    exact (hsound.past c (hchanges ▸ hc)).trans hclock
  · refine ⟨shown, hshown.congr hchanges (by simp [hdelivered]) (by rw [hdb]), fun r hr ↦ ?_⟩
    exact (hreads shown hshown hread r hr).congr hchanges (by rw [hdb])

theorem Converging.of_subset (h : Converging u cus sub w) (hchanges : w'.changes = w.changes)
    (hdelivered : w'.delivered = w.delivered) (hdb : w'.db = w.db) (hclock : w.clock ≤ w'.clock)
    (hrunning : ∀ r ∈ w'.running, r ∈ w.running) : Converging u cus sub w' :=
  h.congr hchanges hdelivered hdb hclock (fun r hr ↦ h.sound.contexts r (hrunning r hr))
    fun _ _ hreads r hr ↦ hreads r (hrunning r hr)

end Frames

section Steps

variable {u : Uuid} {cus sub : String} {w : Exchange}

theorem Converging.context (h : Converging u cus sub w) :
    Converging u cus sub (Exchange.next u w .context) := by
  simp only [Exchange.next]
  cases hcontext : w.db.subscriptionContext u with
  | none => exact h
  | some context =>
      obtain ⟨customer, hcustomer, hfields⟩ := Option.map_eq_some_iff.mp hcontext
      have huser : customer.userId = u :=
        (Table.find?_eq_some_iff.mp (Option.filter_eq_some_iff.mp hcustomer).1).2
      refine h.congr rfl rfl rfl le_rfl ?_ ?_
      · intro r hr
        rcases List.mem_cons.mp hr with rfl | hr
        · rw [← hfields]
          exact ⟨huser, le_rfl⟩
        · exact h.sound.contexts r hr
      · intro shown _ hreads r hr
        rcases List.mem_cons.mp hr with rfl | hr
        · exact fun s p hstage ↦ absurd hstage (by simp)
        · exact hreads r hr

theorem Converging.replace (h : Converging u cus sub w) {r : Reconciliation} (hr : r ∈ w.running)
    {stage : Stage}
    (hreads : ∀ shown, Displays u w shown → Reads u w shown { r with stage }) :
    Converging u cus sub (w.replace r stage) := by
  refine h.congr rfl rfl rfl le_rfl ?_ ?_
  · intro q hq
    rcases List.mem_cons.mp hq with rfl | hq
    · exact h.sound.contexts r hr
    · exact h.sound.contexts q (List.mem_of_mem_erase hq)
  · intro shown hshown hbefore q hq
    rcases List.mem_cons.mp hq with rfl | hq
    · exact hreads shown hshown
    · exact hbefore q (List.mem_of_mem_erase hq)

theorem Sound.eq_or_lt_last (h : Sound u cus sub w) {c : Change} (hc : c ∈ w.changes) :
    ∃ d, w.changes.getLast? = some d ∧ (c = d ∨ c.created < d.created) := by
  have hordered := h.ordered
  rcases List.eq_nil_or_concat' w.changes with hnil | ⟨before, last, hchanges⟩
  · rw [hnil] at hc
    exact absurd hc (by simp)
  · rw [hchanges] at hc hordered ⊢
    refine ⟨last, by simp, ?_⟩
    rcases List.mem_append.mp hc with hc | hc
    · exact Or.inr ((List.pairwise_append.mp hordered).2.2 c hc last (by simp))
    · exact Or.inl (List.mem_singleton.mp hc)

theorem Sound.le_last (h : Sound u cus sub w) {c : Change} (hc : c ∈ w.changes) :
    ∃ d, w.changes.getLast? = some d ∧ c.created ≤ d.created := by
  obtain ⟨d, hd, rfl | hlt⟩ := h.eq_or_lt_last hc
  · exact ⟨c, hd, le_rfl⟩
  · exact ⟨d, hd, hlt.le⟩

theorem Converging.read (h : Converging u cus sub w) {r : Reconciliation} (hr : r ∈ w.running)
    (s : ℤ) : Converging u cus sub
      (w.replace r (.read s (w.changes.getLast?.map (Change.readAt s)))) := by
  refine h.replace hr fun shown hshown s' p hstage ↦ ?_
  obtain ⟨rfl, rfl⟩ := Stage.read.inj hstage
  refine ⟨w.changes.getLast?, rfl, ?_, ?_, ?_⟩
  · exact fun d hd ↦ List.mem_of_getLast? hd
  · intro n hn hbefore
    obtain ⟨d, hd, hle⟩ := h.sound.le_last hn
    exact absurd (hbefore d hd) (not_lt.mpr hle)
  · rintro _ d' rfl
    obtain ⟨row, t, hd'⟩ := hshown
    exact h.sound.le_last hd'.mem

theorem created_mono {c d : Change} (h : c.instant ≤ d.instant) : c.created ≤ d.created := by
  unfold Change.created seconds
  omega

theorem Converging.change (h : Converging u cus sub w) {eventId : String}
    {state : SubscriptionProjection}
    (henabled : Exchange.Enabled u cus sub w (.change eventId state))
    (hspaced : Spaced w (.change eventId state)) (haligned : Aligned u w (.change eventId state)) :
    Converging u cus sub (Exchange.next u w (.change eventId state)) := by
  obtain ⟨hcus, hsub, hmeta, hfresh, hid⟩ := henabled
  obtain ⟨hsound, shown, hshown, hreads⟩ := h
  have hafter : ∀ c ∈ w.changes, c.created < (w.changeAt eventId state).created := by
    intro c hc
    exact lt_of_le_of_ne (created_mono (hsound.past c hc)) (hspaced c hc)
  constructor
  · refine ⟨hsound.active, hsound.customer, hsound.untaken, ?_, ?_, ?_, ?_, ?_, ?_, hsound.contexts⟩
    · intro c hc
      rcases List.mem_append.mp hc with hc | hc
      · exact hsound.changes c hc
      · rw [List.mem_singleton.mp hc]
        exact ⟨hcus, hsub, hmeta⟩
    · intro c hc d hd heq
      rcases List.mem_append.mp hc with hc | hc
      · rcases List.mem_append.mp hd with hd | hd
        · exact hsound.ids c hc d hd heq
        · rw [List.mem_singleton.mp hd] at heq
          exact absurd heq (hid c hc)
      · rcases List.mem_append.mp hd with hd | hd
        · rw [List.mem_singleton.mp hc] at heq
          exact absurd heq.symm (hid d hd)
        · rw [List.mem_singleton.mp hc, List.mem_singleton.mp hd]
    · intro c hc
      rcases List.mem_append.mp hc with hc | hc
      · exact hsound.past c hc
      · rw [List.mem_singleton.mp hc]
        exact le_rfl
    · refine List.pairwise_append.mpr ⟨hsound.ordered, List.pairwise_singleton _ _, ?_⟩
      intro c hc d hd
      rw [List.mem_singleton.mp hd]
      exact hafter c hc
    · exact fun c hc ↦ List.mem_append_left _ (hsound.delivered c hc)
    · intro c hc
      rcases List.mem_append.mp hc with hc | hc
      · exact hsound.events c hc
      · rw [List.mem_singleton.mp hc]
        refine ⟨fun hfound ↦ absurd hfresh hfound, fun hdelivered ↦ ?_⟩
        exact absurd rfl (hid _ (hsound.delivered _ hdelivered))
  · refine ⟨shown, ?_, fun r hr s p hstage ↦ ?_⟩
    · cases shown with
      | none => exact hshown
      | some d =>
          obtain ⟨row, s, hd⟩ := hshown
          refine ⟨row, s, List.mem_append_left _ hd.mem, hd.stored, hd.columns, hd.snapshotAt,
            hd.eventAt, hd.newest, hd.guarded, ?_⟩
          intro n hn hlt
          rcases List.mem_append.mp hn with hn | hn
          · exact hd.behind n hn hlt
          · rw [List.mem_singleton.mp hn]
            exact haligned.1 row s hd.stored hd.snapshotAt
    · obtain ⟨seen, hp, hread⟩ := hreads r hr s p hstage
      refine ⟨seen, hp, fun d hd ↦ List.mem_append_left _ (hread.mem d hd), ?_, hread.current⟩
      intro n hn hbefore
      rcases List.mem_append.mp hn with hn | hn
      · exact hread.behind n hn hbefore
      · rw [List.mem_singleton.mp hn]
        exact haligned.2 r hr s p hstage

theorem shows_state {row : UserSubscription} {state : SubscriptionProjection} {t : ℤ}
    (h : row.Shows { state with eventCreatedAt := t }) : row.Shows state :=
  ⟨h.plan, h.provider, h.providerSubscriptionId, h.providerPriceId, h.billingPeriod, h.status,
    h.cancelAtPeriodEnd, h.currentPeriodStartsAt, h.currentPeriodEndsAt, h.trialEndsAt,
    h.canceledAt⟩

/-- The row that a webhook writes. -/
theorem find?_written {db : BillingDb} {c : Change} (now : ℤ)
    (haccepts : ((db.subscriptions.find? u).all fun row ↦ row.accepts c.projection) = true) :
    ∃ row, (db.writeSubscription u c.projection now).subscriptions.find? u = some row ∧
      row.Shows c.state ∧ row.providerEventCreatedAt = some c.created ∧
      row.providerSnapshotAt = some c.created := by
  rw [BillingDb.find?_writeSubscription, if_pos rfl]
  cases hfind : db.subscriptions.find? u with
  | none =>
      exact ⟨_, rfl, shows_state (UserSubscription.project_shows u c.projection now), rfl, rfl⟩
  | some row =>
      refine ⟨_, rfl, shows_state (UserSubscription.overwrite_shows c.projection now row), rfl, ?_⟩
      rw [hfind, Option.all_some] at haccepts
      have hle := (accepted_after haccepts).2
      cases hs : row.providerSnapshotAt with
      | none => simp [UserSubscription.overwrite, hs, greatest, Change.projection_eventCreatedAt]
      | some s =>
          simp [UserSubscription.overwrite, hs, greatest, Change.projection_eventCreatedAt, hle s hs]

/-- Nothing that was delivered is newer than an event the row accepts. -/
theorem Holds.newest_of_accepts {d c : Change} {row : UserSubscription} {s : ℤ}
    (h : Holds u w d row s) (haccepts : row.accepts c.projection = true) :
    ∀ e ∈ w.delivered, e.created ≤ c.created := by
  intro e he
  obtain ⟨hevent, hsnapshot⟩ := accepted_after haccepts
  rcases h.guarded e he with ⟨t, ht, hle⟩ | hlt
  · exact hle.trans (hevent t ht)
  · exact hlt.le.trans (hsnapshot s h.snapshotAt)

/-- A refused event is no newer than the change shown. -/
theorem Holds.le_of_refused {d c : Change} {row : UserSubscription} {s : ℤ}
    (h : Holds u w d row s) (hc : c ∈ w.changes)
    (hsub : row.providerSubscriptionId = some c.state.stripeSubscriptionId)
    (hrefused : row.accepts c.projection = false) : c.created ≤ d.created := by
  rcases refused_cases hsub h.snapshotAt hrefused with ⟨t, ht, hle⟩ | hlt
  · obtain ⟨e, he, rfl⟩ := h.eventAt t ht
    exact hle.trans (h.newest e he)
  · by_contra hnewer
    exact absurd (h.behind c hc (not_le.mp hnewer)) (not_le.mpr hlt)

theorem Sound.delivered_first (h : Sound u cus sub w) {c : Change} (hc : c ∈ w.changes)
    (hfirst : FirstDelivery u cus c w.clock w.db (deliver w.db ⟨c.event, w.clock⟩)) :
    Sound u cus sub (Exchange.next u w (.deliver c)) := by
  refine ⟨?_, Or.inl hfirst.linked, ?_, ?_, h.ids, h.past, h.ordered, ?_, ?_, ?_⟩
  · exact (BillingDb.requireActiveAccount_congr hfirst.accounts u).trans h.active
  · intro v row hv hrow
    change (deliver w.db ⟨c.event, w.clock⟩).subscriptions.find? v = some row at hrow
    rw [hfirst.subscriptions] at hrow
    split at hrow
    · rw [BillingDb.find?_writeSubscription, if_neg hv] at hrow
      exact h.untaken v row hv hrow
    · exact h.untaken v row hv hrow
  · intro d hd
    obtain ⟨hcus, hsub, hmeta⟩ := h.changes d hd
    exact ⟨hcus, hsub, hmeta.imp_right fun hnone ↦ ⟨hnone.1, hfirst.linked⟩⟩
  · intro d hd
    rcases List.mem_cons.mp hd with rfl | hd
    · exact hc
    · exact h.delivered d hd
  · intro d hd
    change (deliver w.db ⟨c.event, w.clock⟩).events.find? d.eventId ≠ none ↔ d ∈ c :: w.delivered
    rw [hfirst.events, h.events d hd, List.mem_cons]
    constructor
    · rintro (hmem | heq)
      · exact Or.inr hmem
      · exact Or.inl (h.ids d hd c hc heq.symm)
    · rintro (rfl | hmem)
      · exact Or.inr rfl
      · exact Or.inl hmem
  · intro r hr
    obtain ⟨huser, hstamp⟩ := h.contexts r hr
    exact ⟨huser, hstamp.trans (stamp_next w (.deliver c))⟩

theorem Converging.deliver_again (h : Converging u cus sub w) {c : Change} (hc : c ∈ w.changes)
    (hagain : c ∈ w.delivered) : Converging u cus sub (Exchange.next u w (.deliver c)) := by
  have hfound : w.db.events.find? c.event.metadata.id ≠ none := (h.sound.events c hc).mpr hagain
  have hsame : deliver w.db ⟨c.event, w.clock⟩ = w.db := by
    simp only [deliver, BillingDb.apply, Table.insert?_eq_none_iff.mpr hfound]
  have hmem : ∀ d, d ∈ c :: w.delivered ↔ d ∈ w.delivered := by
    intro d
    rw [List.mem_cons, or_iff_right_iff_imp]
    rintro rfl
    exact hagain
  obtain ⟨hsound, shown, hshown, hreads⟩ := h
  simp only [Exchange.next, hsame]
  constructor
  · refine ⟨hsound.active, hsound.customer, hsound.untaken, hsound.changes, hsound.ids, hsound.past,
      hsound.ordered, ?_, ?_, hsound.contexts⟩
    · exact fun d hd ↦ hsound.delivered d ((hmem d).mp hd)
    · exact fun d hd ↦ (hsound.events d hd).trans (hmem d).symm
  · exact ⟨shown, hshown.congr rfl hmem rfl, fun r hr ↦ (hreads r hr).congr rfl rfl⟩

theorem Converging.deliver_first (h : Converging u cus sub w) {c : Change} (hc : c ∈ w.changes)
    (hnew : c ∉ w.delivered) : Converging u cus sub (Exchange.next u w (.deliver c)) := by
  obtain ⟨hsound, shown, hshown, hreads⟩ := h
  have hsub := (hsound.changes c hc).2.1
  have hheld : ∀ d row s, Holds u w d row s →
      row.providerSubscriptionId = some c.state.stripeSubscriptionId := by
    intro d row s hd
    rw [hd.columns.providerSubscriptionId, (hsound.changes d hd.mem).2.1, hsub]
  have hstale : ∀ row, w.db.subscriptions.find? u = some row → row.accepts c.projection = false →
      ∃ id, row.providerSubscriptionId = some id ∧ row.isStale id c.projection = true := by
    intro row hfind hrefused
    cases shown with
    | none =>
        obtain ⟨hid, hevent, hsnapshot⟩ := (hshown.1 row hfind).1
        simp [UserSubscription.accepts, hid, hevent, hsnapshot] at hrefused
    | some d =>
        obtain ⟨row', s, hd⟩ := hshown
        obtain rfl : row = row' := Option.some.inj (hfind.symm.trans hd.stored)
        exact refused_stale (hheld d row s hd) hd.snapshotAt hrefused
  have hfirst := hsound.first hc hnew hstale
  refine ⟨hsound.delivered_first hc hfirst, ?_⟩
  cases haccepts : (w.db.subscriptions.find? u).all fun row ↦ row.accepts c.projection with
  | true =>
      have hwritten := hfirst.subscriptions
      rw [if_pos haccepts] at hwritten
      obtain ⟨row, hfind, hcolumns, hevent, hsnapshot⟩ := find?_written w.clock haccepts
      have hnewest : ∀ e ∈ w.delivered, e.created ≤ c.created := by
        cases shown with
        | none =>
            intro e he
            rw [hshown.2] at he
            exact absurd he (by simp)
        | some d =>
            obtain ⟨row', s, hd⟩ := hshown
            rw [hd.stored, Option.all_some] at haccepts
            exact hd.newest_of_accepts haccepts
      have hall : ∀ e ∈ c :: w.delivered, e.created ≤ c.created := by
        intro e he
        rcases List.mem_cons.mp he with rfl | he
        · exact le_rfl
        · exact hnewest e he
      refine ⟨some c, ⟨row, c.created, hc, ?_, hcolumns, hsnapshot, ?_, hall, ?_,
        fun n _ hlt ↦ hlt.le⟩, ?_⟩
      · change (deliver w.db ⟨c.event, w.clock⟩).subscriptions.find? u = some row
        rw [hwritten, hfind]
      · intro t ht
        exact ⟨c, List.mem_cons_self, Option.some.inj (ht.symm.trans hevent)⟩
      · exact fun e he ↦ Or.inl ⟨c.created, hevent, hall e he⟩
      · intro r hr
        refine (hreads r hr).outdated rfl (lt_of_le_of_lt (hsound.contexts r hr).2 ?_)
        have hversion : (Exchange.next u w (.deliver c)).db.versionOf u =
            (w.db.writeSubscription u c.projection w.clock).versionOf u := by
          change ((deliver w.db ⟨c.event, w.clock⟩).subscriptions.find? u).map _ = _
          rw [hwritten]
          rfl
        rw [hversion]
        exact stamp_writeSubscription w.db u c.projection w.clock
  | false =>
      have hkept := hfirst.subscriptions
      rw [if_neg (by simp [haccepts])] at hkept
      have hrow : (Exchange.next u w (.deliver c)).db.subscriptions.find? u =
          w.db.subscriptions.find? u := by
        change (deliver w.db ⟨c.event, w.clock⟩).subscriptions.find? u = _
        rw [hkept]
      refine ⟨shown, ?_, fun r hr ↦ (hreads r hr).congr rfl ?_⟩
      · cases shown with
        | none =>
            cases hfind : w.db.subscriptions.find? u with
            | none => simp [hfind] at haccepts
            | some row =>
                obtain ⟨hid, hevent, hsnapshot⟩ := (hshown.1 row hfind).1
                simp [hfind, UserSubscription.accepts, hid, hevent, hsnapshot] at haccepts
        | some d =>
            obtain ⟨row, s, hd⟩ := hshown
            rw [hd.stored, Option.all_some] at haccepts
            refine ⟨row, s, hd.mem, hrow.trans hd.stored, hd.columns, hd.snapshotAt, ?_, ?_, ?_,
              hd.behind⟩
            · intro t ht
              obtain ⟨e, he, heq⟩ := hd.eventAt t ht
              exact ⟨e, List.mem_cons_of_mem c he, heq⟩
            · intro e he
              rcases List.mem_cons.mp he with rfl | he
              · exact hd.le_of_refused hc (hheld d row s hd) haccepts
              · exact hd.newest e he
            · intro e he
              rcases List.mem_cons.mp he with rfl | he
              · exact refused_cases (hheld d row s hd) hd.snapshotAt haccepts
              · exact hd.guarded e he
      · rw [BillingDb.versionOf, BillingDb.versionOf, hrow]

theorem Converging.deliver (h : Converging u cus sub w) {c : Change} (hc : c ∈ w.changes) :
    Converging u cus sub (Exchange.next u w (.deliver c)) := by
  by_cases hagain : c ∈ w.delivered
  · exact h.deliver_again hc hagain
  · exact h.deliver_first hc hagain

/-- The row that a reconciliation writes. -/
theorem find?_corrected (db : BillingDb) (d : Change) (s now : ℤ) :
    ∃ row, (db.correctSubscription u (d.readAt s) s now).subscriptions.find? u = some row ∧
      row.Shows d.state ∧ row.providerSnapshotAt = some s ∧
      row.providerEventCreatedAt =
        (db.subscriptions.find? u).bind UserSubscription.providerEventCreatedAt := by
  rw [BillingDb.find?_correctSubscription, if_pos rfl]
  cases db.subscriptions.find? u with
  | none => exact ⟨_, rfl, ⟨rfl, rfl, rfl, rfl, rfl, rfl, rfl, rfl, rfl, rfl, rfl⟩, rfl, rfl⟩
  | some row => exact ⟨_, rfl, ⟨rfl, rfl, rfl, rfl, rfl, rfl, rfl, rfl, rfl, rfl, rfl⟩, rfl, rfl⟩

theorem stamp_correctSubscription (db : BillingDb) (p : SubscriptionProjection) (s now : ℤ) :
    BillingDb.stamp (db.versionOf u) <
      BillingDb.stamp ((db.correctSubscription u p s now).versionOf u) := by
  rw [BillingDb.versionOf, BillingDb.versionOf, BillingDb.find?_correctSubscription, if_pos rfl]
  cases db.subscriptions.find? u with
  | none => simp [BillingDb.stamp]
  | some row => simp [BillingDb.stamp, UserSubscription.correct]

/-- The row after a reconciliation shows the change it has read. -/
theorem Displays.corrected {shown : Option Change} {version : Option ℕ} {d : Change} {s : ℤ}
    {w' : Exchange} (h : Displays u w shown) (hread : HasRead u w shown version s (some d))
    (hversion : w.db.versionOf u = version)
    (hsnapshot : ∀ row t, w.db.subscriptions.find? u = some row →
      row.providerSnapshotAt = some t → t ≤ s)
    (hchanges : w'.changes = w.changes) (hdelivered : w'.delivered = w.delivered)
    (hdb : w'.db.subscriptions =
      (w.db.correctSubscription u (d.readAt s) s w.clock).subscriptions) :
    Displays u w' (some d) := by
  obtain ⟨row, hfind, hcolumns, hat, hevent⟩ := find?_corrected (u := u) w.db d s w.clock
  refine ⟨row, s, hchanges ▸ hread.mem d rfl, by rw [hdb, hfind], hcolumns, hat, ?_, ?_, ?_, ?_⟩
  · intro t ht
    rw [hdelivered]
    cases shown with
    | none =>
        cases hstored : w.db.subscriptions.find? u with
        | none => simp [hevent, hstored] at ht
        | some blank =>
            obtain ⟨_, hnone, _⟩ := (h.1 blank hstored).1
            simp [hevent, hstored, hnone] at ht
    | some d' =>
        obtain ⟨row', s', hd'⟩ := h
        rw [hevent, hd'.stored, Option.bind_some] at ht
        exact hd'.eventAt t ht
  · rw [hdelivered]
    intro c hc
    cases shown with
    | none =>
        rw [h.2] at hc
        exact absurd hc (by simp)
    | some d' =>
        obtain ⟨row', s', hd'⟩ := h
        obtain ⟨e, he, hle⟩ := hread.current hversion d' rfl
        rw [← Option.some.inj he] at hle
        exact (hd'.newest c hc).trans hle
  · rw [hdelivered]
    intro c hc
    cases shown with
    | none =>
        rw [h.2] at hc
        exact absurd hc (by simp)
    | some d' =>
        obtain ⟨row', s', hd'⟩ := h
        rw [hevent, hd'.stored, Option.bind_some]
        rcases hd'.guarded c hc with hguard | hlt
        · exact Or.inl hguard
        · exact Or.inr (hlt.trans_le (hsnapshot row' s' hd'.stored hd'.snapshotAt))
  · rw [hchanges]
    intro n hn hlt
    refine hread.behind n hn fun e he ↦ ?_
    rw [← Option.some.inj he]
    exact hlt

theorem Sound.reconciled (h : Sound u cus sub w) {r : Reconciliation} {db' : BillingDb} {s : ℤ}
    {projection : Option SubscriptionProjection}
    (hcorrected : BillingDb.Corrected w.db db' u s w.clock projection)
    (hlinked : ∀ v cus, w.db.Linked v cus → db'.Linked v cus)
    (hknown : w.db.customers.find? u ≠ none) (haccounts : db'.accounts = w.db.accounts)
    (hevents : db'.events = w.db.events) :
    Sound u cus sub { w with running := w.running.erase r, db := db' } := by
  refine ⟨?_, ?_, ?_, ?_, h.ids, h.past, h.ordered, h.delivered, ?_, ?_⟩
  · exact (BillingDb.requireActiveAccount_congr haccounts u).trans h.active
  · rcases h.customer with hlink | ⟨_, hunused⟩
    · exact Or.inl (hlinked u cus hlink)
    · exact absurd hunused hknown
  · intro v row hv hrow
    exact h.untaken v row hv ((hcorrected.others hv).symm.trans hrow)
  · intro c hc
    obtain ⟨hcus, hsub, hmeta⟩ := h.changes c hc
    exact ⟨hcus, hsub, hmeta.imp_right fun hnone ↦ ⟨hnone.1, hlinked u cus hnone.2⟩⟩
  · intro c hc
    change db'.events.find? c.eventId ≠ none ↔ _
    rw [hevents]
    exact h.events c hc
  · intro q hq
    obtain ⟨huser, hstamp⟩ := h.contexts q (List.mem_of_mem_erase hq)
    exact ⟨huser, hstamp.trans hcorrected.stamp_le⟩

theorem Converging.apply (h : Converging u cus sub w) {r : Reconciliation} (hr : r ∈ w.running)
    {s nextDueAt : ℤ} {p : Option SubscriptionProjection} (hstage : r.stage = .read s p) :
    Converging u cus sub { w with
      running := w.running.erase r
      db := (w.db.applySubscription r.context p s nextDueAt false w.clock).1 } := by
  have huser := (h.sound.contexts r hr).1
  rcases BillingDb.applySubscription_cases (Prod.mk.eta.symm :
      w.db.applySubscription r.context p s nextDueAt false w.clock = _) with
    hsame | ⟨hversion, hsnapshot, hcorrected, _, hlinked, hknown, subscriptions, customers, hdb⟩
  · rw [hsame]
    exact h.of_subset rfl rfl rfl le_rfl fun q hq ↦ List.mem_of_mem_erase hq
  · rw [huser] at hversion hsnapshot hcorrected hknown
    obtain ⟨hsound, shown, hshown, hreads⟩ := h
    refine ⟨hsound.reconciled hcorrected hlinked hknown (by rw [hdb]) (by rw [hdb]), ?_⟩
    obtain ⟨seen, rfl, hread⟩ := hreads r hr s p hstage
    cases seen with
    | none =>
        have hunshown : shown = none := by
          cases shown with
          | none => rfl
          | some d' =>
              obtain ⟨d, hd, _⟩ := hread.current hversion d' rfl
              exact absurd hd (by simp)
        subst hunshown
        have hsame : (w.db.applySubscription r.context none s nextDueAt false
            w.clock).1.subscriptions = w.db.subscriptions := by
          rcases hcorrected with hsame | ⟨⟨row, hrow, hstripe⟩, _⟩
          · exact hsame
          · exact absurd ((hshown.1 row hrow).2.symm.trans hstripe) (by simp)
        refine ⟨none, hshown.congr rfl (fun _ ↦ Iff.rfl) ?_, fun q hq ↦ ?_⟩
        · exact congrArg (fun t ↦ Table.find? t u) hsame
        · refine (hreads q (List.mem_of_mem_erase hq)).congr rfl ?_
          exact congrArg (fun t ↦ (Table.find? t u).map UserSubscription.projectionVersion) hsame
    | some d =>
        have hsubscriptions : (w.db.applySubscription r.context (some (d.readAt s)) s nextDueAt
            false w.clock).1.subscriptions =
            (w.db.correctSubscription u (d.readAt s) s w.clock).subscriptions := hcorrected
        refine ⟨some d, hshown.corrected hread hversion hsnapshot rfl rfl hsubscriptions,
          fun q hq ↦ ?_⟩
        have hq' := List.mem_of_mem_erase hq
        refine (hreads q hq').outdated rfl (lt_of_le_of_lt (hsound.contexts q hq').2 ?_)
        refine (stamp_correctSubscription w.db (d.readAt s) s w.clock).trans_eq ?_
        exact congrArg (fun t : Table UserSubscription.userId ↦ BillingDb.stamp
          ((t.find? u).map UserSubscription.projectionVersion)) hsubscriptions.symm

/-- Every step of a run keeps the invariant. -/
theorem Converging.next (h : Converging u cus sub w) {a : ExchangeStep}
    (henabled : Exchange.Enabled u cus sub w a) (hspaced : Spaced w a) (haligned : Aligned u w a) :
    Converging u cus sub (Exchange.next u w a) := by
  cases a with
  | advance clock => exact h.of_subset rfl rfl rfl henabled fun _ hr ↦ hr
  | change eventId state => exact h.change henabled hspaced haligned
  | deliver c => exact h.deliver henabled
  | context => exact h.context
  | snapshot r => exact h.replace henabled.1 fun _ _ s p hstage ↦ absurd hstage (by simp)
  | read r =>
      obtain ⟨hr, s, hstage⟩ := henabled
      simp only [Exchange.next, hstage]
      exact h.read hr s
  | apply r nextDueAt =>
      obtain ⟨hr, s, p, hstage⟩ := henabled
      simp only [Exchange.next, hstage]
      exact h.apply hr hstage
  | abandon r => exact h.of_subset rfl rfl rfl le_rfl fun _ hq ↦ List.mem_of_mem_erase hq

end Steps

/-- Stripe has not made the subscription yet, and nothing is under way. -/
structure Dormant (u : Uuid) (cus sub : String) (w : Exchange) : Prop where
  untouched : Untouched w.db u cus sub
  internal : ∀ row, w.db.subscriptions.find? u = some row → row.provider = none
  changes : w.changes = []
  delivered : w.delivered = []
  running : w.running = []

section Runs

variable {u : Uuid} {cus sub : String} {w : Exchange} {as : List ExchangeStep}

theorem Dormant.converging (h : Dormant u cus sub w) : Converging u cus sub w := by
  constructor
  · refine ⟨h.untouched.active, h.untouched.customer, ?_, by simp [h.changes], by simp [h.changes],
      by simp [h.changes], by simp [h.changes], by simp [h.delivered], by simp [h.changes],
      by simp [h.running]⟩
    intro v row _ hrow
    exact h.untouched.untaken row (Table.find?_eq_some_iff.mp hrow).1
  · refine ⟨none, ⟨fun row hrow ↦ ⟨h.untouched.blank row hrow, h.internal row hrow⟩, h.delivered⟩, ?_⟩
    simp [h.running]

theorem converging_exec (hstart : Dormant u cus sub w) (h : (exchange u cus sub).Valid w as)
    (hspaced : (exchange u cus sub).Along Spaced w as)
    (haligned : (exchange u cus sub).Along (Aligned u) w as) :
    Converging u cus sub ((exchange u cus sub).exec w as) := by
  refine h.invariant_along (hspaced.and haligned) hstart.converging ?_
  intro w a hw henabled hstep
  exact hw.next henabled hstep.1 hstep.2

/-- No delivered change is newer than the one the row shows. -/
theorem Converging.shows (h : Converging u cus sub w) {c : Change} (hc : c ∈ w.delivered) :
    ∃ row d, w.db.subscriptions.find? u = some row ∧ d ∈ w.changes ∧ row.Shows d.state ∧
      c.created ≤ d.created := by
  obtain ⟨_, shown, hshown, _⟩ := h
  cases shown with
  | none =>
      rw [hshown.2] at hc
      exact absurd hc (by simp)
  | some d =>
      obtain ⟨row, s, hd⟩ := hshown
      exact ⟨row, d, hd.stored, hd.mem, hd.columns, hd.newest c hc⟩

theorem Converging.shows_last (h : Converging u cus sub w) {last : Change}
    (hlast : w.changes.getLast? = some last) (hdelivered : last ∈ w.delivered) :
    ∃ row, w.db.subscriptions.find? u = some row ∧ row.Shows last.state := by
  obtain ⟨row, d, hrow, hd, hcolumns, hle⟩ := h.shows hdelivered
  refine ⟨row, hrow, ?_⟩
  obtain ⟨last', hlast', hsame⟩ := h.sound.eq_or_lt_last hd
  obtain rfl : last' = last := Option.some.inj (hlast'.symm.trans hlast)
  rcases hsame with rfl | hlt
  · exact hcolumns
  · exact absurd hlt (not_lt.mpr hle)

theorem reconciliation_converges (hstart : Dormant u cus sub w)
    (h : (exchange u cus sub).Valid w as) (hspaced : (exchange u cus sub).Along Spaced w as) :
    (∀ pre mid c post context db' effect, as = pre ++ mid ++ .deliver c :: post →
      ((exchange u cus sub).exec w pre).db.subscriptionContext u = some context →
      ((exchange u cus sub).exec w (pre ++ mid)).db.apply c.event
        ((exchange u cus sub).exec w (pre ++ mid)).clock = .ok (db', .applied (some effect)) →
      effect.userId = u → ∀ projection snapshotAt nextDueAt customerDeleted now, ∃ status,
        ((exchange u cus sub).exec w as).db.applySubscription context projection snapshotAt
          nextDueAt customerDeleted now =
        (((exchange u cus sub).exec w as).db, ⟨.stale, status, status⟩)) ∧
    ((exchange u cus sub).Along (Aligned u) w as →
      (∀ c ∈ ((exchange u cus sub).exec w as).delivered,
        ∃ row d, ((exchange u cus sub).exec w as).db.subscriptions.find? u = some row ∧
          d ∈ ((exchange u cus sub).exec w as).changes ∧ row.Shows d.state ∧
          c.created ≤ d.created) ∧
      ∀ last, ((exchange u cus sub).exec w as).changes.getLast? = some last →
        (∀ c ∈ ((exchange u cus sub).exec w as).changes,
          c ∈ ((exchange u cus sub).exec w as).delivered) →
        ∃ row, ((exchange u cus sub).exec w as).db.subscriptions.find? u = some row ∧
          row.Shows last.state) := by
  constructor
  · rintro pre mid c post context db' effect rfl hcontext happlied heffect
    exact stale_after_webhook hcontext happlied heffect
  · intro haligned
    have hfinal := converging_exec hstart h hspaced haligned
    refine ⟨fun c hc ↦ hfinal.shows hc, fun last hlast hall ↦ ?_⟩
    exact hfinal.shows_last hlast (hall last (List.mem_of_getLast? hlast))

end Runs

/-- A change of the sample subscription. -/
def sampleChange (eventId : String) (status : StripeSubscriptionStatus) (instant : ℤ) : Change :=
  ⟨eventId, instant, sampleProjection status 0⟩

def sampleContext : SubscriptionContext :=
  ⟨1, "cus_1", some 1, some ⟨"sub_1", "price_1", .monthly⟩⟩

def quietExchange : Exchange := ⟨0, [], [], [], knownCustomer⟩

/-- The subscription is created and its event delivered; a reconciliation
takes the time and reads Stripe, and the subscription is canceled at
`instant`, before the reconciliation is applied and the event delivered. -/
def racingExchange (snapshotAt instant : ℤ) : List ExchangeStep :=
  [.advance (seconds 5), .change "evt_1" (sampleProjection .active 0),
    .deliver (sampleChange "evt_1" .active (seconds 5)), .context, .advance snapshotAt,
    .snapshot ⟨sampleContext, .context⟩, .read ⟨sampleContext, .snapshot snapshotAt⟩,
    .advance instant, .change "evt_2" (sampleProjection .canceled 0),
    .apply ⟨sampleContext, .read snapshotAt (some (sampleProjection .active snapshotAt))⟩
      (snapshotAt + hours 1),
    .deliver (sampleChange "evt_2" .canceled instant)]

theorem dormant_quietExchange : Dormant 1 "cus_1" "sub_1" quietExchange :=
  ⟨⟨rfl, Or.inl ⟨_, rfl, rfl⟩, by simp [quietExchange, knownCustomer, oneAccount],
    by simp [quietExchange, knownCustomer, oneAccount]⟩, by simp [quietExchange, knownCustomer, oneAccount], rfl, rfl, rfl⟩

/-- The snapshot is of 10.5 s and the cancellation of 10.8 s, so its event is
dated 10 s and dropped. -/
theorem cancellation_discarded :
    (exchange 1 "cus_1" "sub_1").Valid quietExchange (racingExchange 10500000 10800000) ∧
      (exchange 1 "cus_1" "sub_1").Along Spaced quietExchange
        (racingExchange 10500000 10800000) ∧
      ((exchange 1 "cus_1" "sub_1").exec quietExchange
        (racingExchange 10500000 10800000)).changes =
          [sampleChange "evt_1" .active 5000000, sampleChange "evt_2" .canceled 10800000] ∧
      ((exchange 1 "cus_1" "sub_1").exec quietExchange
        (racingExchange 10500000 10800000)).delivered =
          [sampleChange "evt_2" .canceled 10800000, sampleChange "evt_1" .active 5000000] ∧
      ((exchange 1 "cus_1" "sub_1").exec quietExchange
        (racingExchange 10500000 10800000)).running = [] ∧
      (((exchange 1 "cus_1" "sub_1").exec quietExchange
        (racingExchange 10500000 10800000)).db.subscriptions.find? 1).bind
          UserSubscription.status = some .active := by
  decide +kernel

/-- The cancellation falls in the next second. -/
theorem reconciliation_converges_nextSecond :
    ∃ row, ((exchange 1 "cus_1" "sub_1").exec quietExchange
        (racingExchange 10500000 11200000)).db.subscriptions.find? 1 = some row ∧
      row.Shows (sampleProjection .canceled 0) := by
  have hvalid : (exchange 1 "cus_1" "sub_1").Valid quietExchange
      (racingExchange 10500000 11200000) := by decide +kernel
  have hspaced : (exchange 1 "cus_1" "sub_1").Along Spaced quietExchange
      (racingExchange 10500000 11200000) := by decide +kernel
  have haligned : (exchange 1 "cus_1" "sub_1").Along (Aligned 1) quietExchange
      (racingExchange 10500000 11200000) := by decide +kernel
  have hlast : ((exchange 1 "cus_1" "sub_1").exec quietExchange
      (racingExchange 10500000 11200000)).changes.getLast? =
        some (sampleChange "evt_2" .canceled 11200000) := by decide +kernel
  exact ((reconciliation_converges dormant_quietExchange hvalid hspaced).2 haligned).2 _ hlast
    (by decide +kernel)

end Histae.Billing
