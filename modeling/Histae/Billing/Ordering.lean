import Mathlib
import Histae.Billing.Webhook
import Histae.Systems.Latest
import Histae.Systems.Run

/-!
# Webhooks in any order

The conflict clauses of the two upserts are policies for the latest of many:
the row of the user holds one of the latest subscriptions delivered so far,
and the row of an invoice one of the latest states of that invoice. The
staleness test accepts exactly what the conflict clause leaves, so that a
late command is dropped and not rejected.
-/

namespace Histae.Billing

open Relational Systems

structure Delivery where
  command : WebhookCommand
  now : ℤ
  deriving DecidableEq

/-- A transaction that fails leaves nothing behind. -/
def deliver (db : BillingDb) (d : Delivery) : BillingDb :=
  match db.apply d.command d.now with
  | .ok (db, _) => db
  | .error _ => db

def webhooks : System BillingDb Delivery where
  Enabled _ _ := True
  next := deliver

def WebhookCommand.projection? : WebhookCommand → Option SubscriptionProjection
  | .subscription _ projection | .invoice _ projection _ _ => some projection
  | _ => none

def WebhookCommand.invoice? : WebhookCommand → Option InvoiceProjection
  | .invoice _ _ state _ => some state
  | _ => none

def Delivery.eventId (d : Delivery) : String := d.command.metadata.id

/-- The projections of the subscription that were delivered. -/
def projections (ds : List Delivery) : List SubscriptionProjection :=
  ds.filterMap fun d ↦ d.command.projection?

/-- The states of one invoice that were delivered. -/
def invoiceStates (id : String) (ds : List Delivery) : List InvoiceProjection :=
  ds.filterMap fun d ↦ d.command.invoice?.filter fun invoice ↦ invoice.stripeInvoiceId = id

/-- The row shows the columns of a projection. -/
structure UserSubscription.Shows (row : UserSubscription) (p : SubscriptionProjection) : Prop where
  plan : row.plan = "premium"
  provider : row.provider = some .stripe
  providerSubscriptionId : row.providerSubscriptionId = some p.stripeSubscriptionId
  providerPriceId : row.providerPriceId = some p.stripePriceId
  billingPeriod : row.billingPeriod = some p.billingPeriod
  status : row.status = some p.status
  cancelAtPeriodEnd : row.cancelAtPeriodEnd = p.cancelAtPeriodEnd
  currentPeriodStartsAt : row.currentPeriodStartsAt = some p.currentPeriodStartsAt
  currentPeriodEndsAt : row.currentPeriodEndsAt = some p.currentPeriodEndsAt
  trialEndsAt : row.trialEndsAt = p.trialEndsAt
  canceledAt : row.canceledAt = p.canceledAt

/-- The columns of a stored invoice that a later state replaces. -/
structure BillingInvoice.Shows (row : BillingInvoice) (i : InvoiceProjection) : Prop where
  stripeCustomerId : row.stripeCustomerId = i.stripeCustomerId
  stripeSubscriptionId : row.stripeSubscriptionId = i.stripeSubscriptionId
  status : row.status = i.status
  currency : row.currency = i.currency
  amountDue : row.amountDue = i.amountDue
  amountPaid : row.amountPaid = i.amountPaid
  amountRemaining : row.amountRemaining = i.amountRemaining
  periodStartsAt : row.periodStartsAt = i.periodStartsAt
  periodEndsAt : row.periodEndsAt = i.periodEndsAt
  paidAt : row.paidAt = i.paidAt
  providerEventCreatedAt : row.providerEventCreatedAt = some i.eventCreatedAt

namespace UserSubscription

theorem project_shows (u : Uuid) (p : SubscriptionProjection) (now : ℤ) :
    (project u p now).Shows p :=
  ⟨rfl, rfl, rfl, rfl, rfl, rfl, rfl, rfl, rfl, rfl, rfl⟩

theorem overwrite_shows (p : SubscriptionProjection) (now : ℤ) (row : UserSubscription) :
    (overwrite p now row).Shows p :=
  ⟨rfl, rfl, rfl, rfl, rfl, rfl, rfl, rfl, rfl, rfl, rfl⟩

end UserSubscription

theorem BillingInvoice.project_shows (u : Uuid) (i : InvoiceProjection) (now : ℤ) :
    (project u i now).Shows i :=
  ⟨rfl, rfl, rfl, rfl, rfl, rfl, rfl, rfl, rfl, rfl, rfl⟩

theorem BillingInvoice.overwrite_shows (u : Uuid) (i : InvoiceProjection) (now : ℤ)
    (row : BillingInvoice) : (overwrite u i now row).Shows i :=
  ⟨rfl, rfl, rfl, rfl, rfl, rfl, rfl, rfl, rfl, rfl, rfl⟩

/-- Closed among the projections, in the sense of the tie rule. -/
def SubscriptionProjection.closed (p : SubscriptionProjection) : Bool := p.status.isClosed

def InvoiceProjection.settled (i : InvoiceProjection) : Bool := BillingInvoice.isSettled i.status

/-- The row was last written by the webhook of `p`. -/
structure Written (row : UserSubscription) (p : SubscriptionProjection) : Prop where
  columns : row.Shows p
  eventAt : row.providerEventCreatedAt = some p.eventCreatedAt
  snapshotAt : row.providerSnapshotAt = some p.eventCreatedAt

section Policies

variable {row : UserSubscription} {p q : SubscriptionProjection}

theorem accepts_iff (h : Written row p)
    (hsub : p.stripeSubscriptionId = q.stripeSubscriptionId) :
    row.accepts q = (decide (p.eventCreatedAt < q.eventCreatedAt) ||
      decide (p.eventCreatedAt = q.eventCreatedAt) && (!p.closed || q.closed)) := by
  simp only [UserSubscription.accepts, h.columns.providerSubscriptionId, h.columns.status, h.eventAt,
    h.snapshotAt, hsub, SubscriptionProjection.closed]
  rw [Bool.eq_iff_iff]
  simp
  grind

theorem accepts_arbitrates (h : Written row p)
    (hsub : p.stripeSubscriptionId = q.stripeSubscriptionId) :
    Arbitrates SubscriptionProjection.eventCreatedAt SubscriptionProjection.closed
      (row.accepts q) p q := by
  rw [accepts_iff h hsub]
  constructor
  · intro hlt
    simp [hlt]
  · intro hlt
    have hne : p.eventCreatedAt ≠ q.eventCreatedAt := by omega
    simp [hne, hlt.le]
  · intro heq hclosed
    simp [heq, hclosed]
  · intro heq hheld hopen
    simp [heq, hheld, hopen]

theorem isStale_of_not_accepts (h : Written row p)
    (hsub : p.stripeSubscriptionId = q.stripeSubscriptionId) (hrefused : row.accepts q = false)
    (id : String) : row.isStale id q = true := by
  have hle : q.eventCreatedAt ≤ p.eventCreatedAt := by
    by_contra hlt
    rw [(accepts_arbitrates h hsub).later (not_le.mp hlt)] at hrefused
    exact absurd hrefused (by simp)
  simp [UserSubscription.isStale, h.eventAt, hle]

theorem invoice_arbitrates {stored : BillingInvoice} {i j : InvoiceProjection}
    (h : stored.Shows i) :
    Arbitrates InvoiceProjection.eventCreatedAt InvoiceProjection.settled
      (stored.accepts j) i j := by
  have haccepts : stored.accepts j = (decide (i.eventCreatedAt < j.eventCreatedAt) ||
      decide (i.eventCreatedAt = j.eventCreatedAt) &&
        (i.status.isSome && !i.settled || j.settled)) := by
    simp [BillingInvoice.accepts, h.providerEventCreatedAt, h.status, InvoiceProjection.settled]
  rw [haccepts]
  constructor
  · intro hlt
    simp [hlt]
  · intro hlt
    have hne : i.eventCreatedAt ≠ j.eventCreatedAt := by omega
    simp [hne, hlt.le]
  · intro heq hsettled
    simp [heq, hsettled]
  · intro heq hheld hopen
    simp [heq, hheld, hopen]

end Policies

namespace BillingDb

/-- The Stripe customer belongs to the user. -/
def Linked (db : BillingDb) (u : Uuid) (cus : String) : Prop :=
  ∃ c, db.customerOf cus = some c ∧ c.userId = u

variable {db : BillingDb} {u : Uuid} {cus : String}

theorem Linked.modify {p : BillingCustomer → Bool} {f : BillingCustomer → BillingCustomer}
    (hf : ∀ c, (f c).userId = c.userId) (hcus : ∀ c, (f c).stripeCustomerId = c.stripeCustomerId)
    (h : db.Linked u cus) : { db with customers := db.customers.modify p f hf }.Linked u cus := by
  obtain ⟨c, hfind, rfl⟩ := h
  have hkeep : ∀ c : BillingCustomer, (if p c then f c else c).stripeCustomerId =
      c.stripeCustomerId := by
    intro c
    by_cases hp : p c = true <;> simp [hp, hcus]
  refine ⟨if p c then f c else c, ?_, ?_⟩
  · simp only [customerOf, Table.modify] at hfind ⊢
    rw [List.find?_map]
    have hcomp : ((fun customer : BillingCustomer ↦ decide (customer.stripeCustomerId = cus)) ∘
        fun r ↦ if p r = true then f r else r) =
        fun customer : BillingCustomer ↦ decide (customer.stripeCustomerId = cus) := by
      funext c
      simp [hkeep]
    rw [hcomp, hfind]
    rfl
  · by_cases hp : p c = true <;> simp [hp, hf]

/-- What a subscription command may resolve to. -/
theorem resolveUser_spec (db : BillingDb) {p : SubscriptionProjection} (now : ℤ)
    (hactive : db.requireActiveAccount u = .ok ()) (hp : p.stripeCustomerId = cus)
    (hcustomer : db.Linked u cus ∧ (p.metadataUserId = some u ∨ p.metadataUserId = none) ∨
      db.customerOf cus = none ∧ db.customers.find? u = none ∧ p.metadataUserId = some u) :
    ∃ customers, db.resolveUser p now = .ok ({ db with customers }, u) ∧
      { db with customers }.Linked u cus := by
  rcases hcustomer with ⟨⟨c, hfind, rfl⟩, hmeta⟩ | ⟨hnone, hunused, hmeta⟩
  · refine ⟨db.customers, ?_, c, hfind, rfl⟩
    have hsame : (p.metadataUserId.any fun metadata ↦ metadata ≠ c.userId) = false := by
      rcases hmeta with hmeta | hmeta <;> simp [hmeta]
    simp only [resolveUser, hp, hfind, hactive, hsame, bind, Except.bind, Bool.false_eq_true,
      if_false]
  · cases hinsert : db.customers.insert? ⟨u, cus, none, none, now, none, now⟩ with
    | none => exact absurd hunused (Table.insert?_eq_none_iff.mp hinsert)
    | some customers =>
        refine ⟨customers, ?_, ⟨u, cus, none, none, now, none, now⟩, ?_, rfl⟩
        · simp only [resolveUser, linkCustomer, hp, hnone, hmeta, hactive, hunused, hinsert, bind,
            Except.bind]
        · simp [customerOf, (Table.insert?_eq_some_iff.mp hinsert).2]

theorem recordTrial_spec (db : BillingDb) (u : Uuid) (p : SubscriptionProjection) (now : ℤ) :
    ∃ customers, db.recordTrial u p now = { db with customers } ∧
      ∀ v cus, db.Linked v cus → { db with customers }.Linked v cus := by
  unfold recordTrial
  split
  · exact ⟨db.customers, rfl, fun _ _ h ↦ h⟩
  · refine ⟨_, rfl, fun v cus h ↦ ?_⟩
    refine Linked.modify ?_ ?_ h <;> exact fun _ ↦ rfl

/-- A row that no webhook has written yet. -/
def Blank (row : UserSubscription) : Prop :=
  row.providerSubscriptionId = none ∧ row.providerEventCreatedAt = none ∧
    row.providerSnapshotAt = none

/-- The version of a user's projection, 0 when there is no row. -/
def version (db : BillingDb) (u : Uuid) : ℕ :=
  ((db.subscriptions.find? u).map UserSubscription.projectionVersion).getD 0

/-- What becomes of the subscriptions when `q` is applied, or is not. -/
structure Upserted (db : BillingDb) (u : Uuid) (q : SubscriptionProjection) (applied : Bool)
    (subscriptions : Table UserSubscription.userId) : Prop where
  written : applied = true → ∃ row, subscriptions.find? u = some row ∧ Written row q ∧
    row.projectionVersion = db.version u + 1
  kept : applied = false → subscriptions = db.subscriptions
  others : ∀ v, v ≠ u → subscriptions.find? v = db.subscriptions.find? v

theorem find?_writeSubscription (db : BillingDb) (u v : Uuid) (q : SubscriptionProjection)
    (now : ℤ) : (db.writeSubscription u q now).subscriptions.find? v =
      if v = u then some (((db.subscriptions.find? v).map (.overwrite q now)).getD
        (.project u q now)) else db.subscriptions.find? v := by
  have hkey : ∀ row, (UserSubscription.overwrite q now row).userId = row.userId := fun _ ↦ rfl
  exact Table.find?_upsert hkey

/-- An upsert succeeds when what the row does not accept is stale. -/
theorem upsertSubscription_total (db : BillingDb) {q : SubscriptionProjection} (now : ℤ)
    (huntaken : db.subscriptionTaken u q = false)
    (hstale : ∀ row, db.subscriptions.find? u = some row → row.accepts q = false →
      ∃ id, row.providerSubscriptionId = some id ∧ row.isStale id q = true) :
    ∃ subscriptions customers applied,
      db.upsertSubscription u q now = .ok ({ db with subscriptions, customers }, applied) ∧
      (∀ v cus, db.Linked v cus → { db with subscriptions, customers }.Linked v cus) ∧
      applied = ((db.subscriptions.find? u).all fun row ↦ row.accepts q) ∧
      subscriptions = if applied then (db.writeSubscription u q now).subscriptions
        else db.subscriptions := by
  obtain ⟨customers, htrial, hlinked⟩ :=
    recordTrial_spec (db.writeSubscription u q now) u q now
  cases hfind : db.subscriptions.find? u with
  | none =>
      refine ⟨_, customers, true, ?_, hlinked, rfl, rfl⟩
      simp only [upsertSubscription, hfind, huntaken, Bool.false_eq_true, if_false, htrial]
      rfl
  | some row =>
      cases haccepts : row.accepts q with
      | true =>
          refine ⟨_, customers, true, ?_, hlinked, by simp [haccepts], rfl⟩
          simp only [upsertSubscription, hfind, haccepts, huntaken, Bool.false_eq_true, if_false,
            if_true, htrial]
          rfl
      | false =>
          obtain ⟨id, hid, hlate⟩ := hstale row hfind haccepts
          obtain ⟨others, hspec, hstill⟩ := recordTrial_spec db u q now
          refine ⟨db.subscriptions, others, false, ?_, hstill, by simp [haccepts], by simp⟩
          simp only [upsertSubscription, hfind, haccepts, hid, hlate, Bool.false_eq_true, if_false,
            if_true, hspec]

theorem upsertSubscription_spec (db : BillingDb) {q : SubscriptionProjection} (now : ℤ)
    (huntaken : db.subscriptionTaken u q = false)
    (hrow : ∀ row, db.subscriptions.find? u = some row → Blank row ∨
      ∃ p, Written row p ∧ p.stripeSubscriptionId = q.stripeSubscriptionId) :
    ∃ subscriptions customers applied,
      db.upsertSubscription u q now = .ok ({ db with subscriptions, customers }, applied) ∧
      (∀ v cus, db.Linked v cus → { db with subscriptions, customers }.Linked v cus) ∧
      applied = ((db.subscriptions.find? u).all fun row ↦ row.accepts q) ∧
      Upserted db u q applied subscriptions := by
  have hstale : ∀ row, db.subscriptions.find? u = some row → row.accepts q = false →
      ∃ id, row.providerSubscriptionId = some id ∧ row.isStale id q = true := by
    intro row hfind hrefused
    rcases hrow row hfind with ⟨hid, hevent, hsnapshot⟩ | ⟨p, hwritten, hsub⟩
    · simp [UserSubscription.accepts, hid, hevent, hsnapshot] at hrefused
    · exact ⟨_, hwritten.columns.providerSubscriptionId,
        isStale_of_not_accepts hwritten hsub hrefused p.stripeSubscriptionId⟩
  obtain ⟨subscriptions, customers, applied, hupsert, hlinked, happlied, hsame⟩ :=
    upsertSubscription_total db now huntaken hstale
  refine ⟨subscriptions, customers, applied, hupsert, hlinked, happlied, ?_⟩
  cases applied with
  | false =>
      rw [if_neg (by simp)] at hsame
      exact ⟨by simp, fun _ ↦ hsame, fun _ _ ↦ by rw [hsame]⟩
  | true =>
      rw [if_pos rfl] at hsame
      refine ⟨fun _ ↦ ?_, by simp, fun v hv ↦ by rw [hsame, find?_writeSubscription, if_neg hv]⟩
      rw [hsame, find?_writeSubscription, if_pos rfl]
      cases hfind : db.subscriptions.find? u with
      | none =>
          exact ⟨_, rfl, ⟨UserSubscription.project_shows u q now, rfl, rfl⟩,
            by simp [version, hfind, UserSubscription.project]⟩
      | some row =>
          have hsnapshot : greatest row.providerSnapshotAt q.eventCreatedAt =
              q.eventCreatedAt := by
            have haccepts : row.accepts q = true := by simpa [hfind] using happlied.symm
            have hle : (row.providerSnapshotAt.all fun t ↦ t ≤ q.eventCreatedAt) = true :=
              (Bool.and_eq_true_iff.mp haccepts).2
            cases hat : row.providerSnapshotAt with
            | none => rfl
            | some t => exact max_eq_right (by simpa [hat] using hle)
          exact ⟨_, rfl, ⟨UserSubscription.overwrite_shows q now row, rfl,
            congrArg some hsnapshot⟩, by simp [version, hfind, UserSubscription.overwrite]⟩

/-- What becomes of the invoices when the state `i` is applied, or is not. -/
theorem upsertInvoice_spec (db : BillingDb) (u : Uuid) {i : InvoiceProjection} (now : ℤ)
    (hstorable : i.storable = true) :
    ∃ invoices applied, db.upsertInvoice u i now = .ok ({ db with invoices }, applied) ∧
      applied = ((db.invoices.find? i.stripeInvoiceId).all fun row ↦ row.accepts i) ∧
      (applied = true → ∃ row, invoices.find? i.stripeInvoiceId = some row ∧ row.Shows i) ∧
      (applied = false → invoices = db.invoices) ∧
      ∀ id, id ≠ i.stripeInvoiceId → invoices.find? id = db.invoices.find? id := by
  have hkey : ∀ row, (BillingInvoice.overwrite u i now row).stripeInvoiceId =
      row.stripeInvoiceId := fun _ ↦ rfl
  have hupsert : ∀ id, (db.invoices.upsert (.project u i now) (.overwrite u i now) hkey).find? id =
      if id = i.stripeInvoiceId then some (((db.invoices.find? id).map (.overwrite u i now)).getD
        (.project u i now)) else db.invoices.find? id := fun id ↦ Table.find?_upsert hkey
  cases haccepts : (db.invoices.find? i.stripeInvoiceId).all fun row ↦ row.accepts i with
  | true =>
      refine ⟨db.invoices.upsert (.project u i now) (.overwrite u i now) hkey, true, ?_, rfl, ?_,
        by simp, ?_⟩
      · simp only [upsertInvoice, hstorable, haccepts, if_true]
      · intro _
        rw [hupsert, if_pos rfl]
        refine ⟨_, rfl, ?_⟩
        cases db.invoices.find? i.stripeInvoiceId with
        | none => exact BillingInvoice.project_shows u i now
        | some row => exact BillingInvoice.overwrite_shows u i now row
      · intro id hid
        rw [hupsert, if_neg hid]
  | false =>
      refine ⟨db.invoices, false, ?_, rfl, by simp, fun _ ↦ rfl, fun _ _ ↦ rfl⟩
      simp [upsertInvoice, hstorable, haccepts]

end BillingDb

/-- A command for the subscription `sub` of the customer `cus`, which is the
user's by its metadata or by a link that was there before. -/
structure Concerns (db₀ : BillingDb) (u : Uuid) (cus sub : String) (c : WebhookCommand)
    (p : SubscriptionProjection) : Prop where
  projection : c.projection? = some p
  customer : p.stripeCustomerId = cus
  subscription : p.stripeSubscriptionId = sub
  user : p.metadataUserId = some u ∨ p.metadataUserId = none ∧ db₀.Linked u cus
  storable : ∀ i, c.invoice? = some i → i.storable = true

/-- The user has no Stripe projection yet. -/
structure Untouched (db₀ : BillingDb) (u : Uuid) (cus sub : String) : Prop where
  active : db₀.requireActiveAccount u = .ok ()
  customer : db₀.Linked u cus ∨ db₀.customerOf cus = none ∧ db₀.customers.find? u = none
  blank : ∀ row, db₀.subscriptions.find? u = some row → BillingDb.Blank row
  untaken : ∀ row ∈ db₀.subscriptions, row.providerSubscriptionId ≠ some sub

/-- The state after the deliveries `ds`. -/
structure Projected (db₀ : BillingDb) (u : Uuid) (cus sub : String) (ds : List Delivery)
    (db : BillingDb) : Prop where
  active : db.requireActiveAccount u = .ok ()
  customer : db.Linked u cus ∨
    db.customerOf cus = none ∧ db.customers.find? u = none ∧ ¬ db₀.Linked u cus
  untaken : ∀ v row, v ≠ u → db.subscriptions.find? v = some row →
    row.providerSubscriptionId ≠ some sub
  events : ∀ k, db.events.find? k ≠ none ↔
    db₀.events.find? k ≠ none ∨ ∃ d ∈ ds, d.eventId = k
  row : ds = [] ∧ (∀ row, db.subscriptions.find? u = some row → BillingDb.Blank row) ∨
    ∃ row p, db.subscriptions.find? u = some row ∧ Written row p ∧ p.stripeSubscriptionId = sub ∧
      IsLatest SubscriptionProjection.eventCreatedAt SubscriptionProjection.closed
        (projections ds) p
  invoices : ∀ id, invoiceStates id ds = [] ∧ db.invoices.find? id = db₀.invoices.find? id ∨
    ∃ row i, db.invoices.find? id = some row ∧ row.Shows i ∧
      IsLatest InvoiceProjection.eventCreatedAt InvoiceProjection.settled (invoiceStates id ds) i

section Step

variable {db₀ db : BillingDb} {u : Uuid} {cus sub : String} {ds : List Delivery} {d : Delivery}
  {p : SubscriptionProjection}

theorem Untouched.projected (h : Untouched db₀ u cus sub) : Projected db₀ u cus sub [] db₀ where
  active := h.active
  customer := by
    rcases h.customer with hlinked | ⟨hnone, hunused⟩
    · exact Or.inl hlinked
    · refine Or.inr ⟨hnone, hunused, ?_⟩
      rintro ⟨c, hfind, _⟩
      exact absurd hfind (by simp [hnone])
  untaken v row _ hrow := h.untaken row (Table.find?_eq_some_iff.mp hrow).1
  events k := by simp
  row := Or.inl ⟨rfl, h.blank⟩
  invoices id := Or.inl ⟨rfl, rfl⟩

/-- A second delivery is recognised and changes nothing. -/
theorem Projected.duplicate (h : Projected db₀ u cus sub ds db) (hd : ∃ e ∈ ds, e.eventId = d.eventId)
    : db.apply d.command d.now = .ok (db, .duplicate) := by
  have hstored : db.events.find? d.command.metadata.id ≠ none := (h.events _).mpr (Or.inr hd)
  simp only [BillingDb.apply, Table.insert?_eq_none_iff.mpr hstored]

theorem Projected.again (h : Projected db₀ u cus sub ds db) (hd : ∃ e ∈ ds, e.command = d.command) :
    Projected db₀ u cus sub (ds ++ [d]) db := by
  obtain ⟨e, he, hcommand⟩ := hd
  have hprojections : ∀ q, q ∈ projections (ds ++ [d]) ↔ q ∈ projections ds := by
    intro q
    simp only [projections, List.filterMap_append, List.mem_append, List.mem_filterMap,
      List.mem_singleton]
    constructor
    · rintro (hq | ⟨x, rfl, hx⟩)
      · exact hq
      · exact ⟨e, he, hcommand ▸ hx⟩
    · exact Or.inl
  have hstates : ∀ id i, i ∈ invoiceStates id (ds ++ [d]) ↔ i ∈ invoiceStates id ds := by
    intro id i
    simp only [invoiceStates, List.filterMap_append, List.mem_append, List.mem_filterMap,
      List.mem_singleton]
    constructor
    · rintro (hi | ⟨x, rfl, hx⟩)
      · exact hi
      · exact ⟨e, he, hcommand ▸ hx⟩
    · exact Or.inl
  refine ⟨h.active, h.customer, h.untaken, ?_, ?_, ?_⟩
  · intro k
    rw [h.events k]
    refine or_congr_right ⟨?_, ?_⟩
    · rintro ⟨x, hx, hk⟩
      exact ⟨x, List.mem_append_left _ hx, hk⟩
    · rintro ⟨x, hx, hk⟩
      rcases List.mem_append.mp hx with hx | hx
      · exact ⟨x, hx, hk⟩
      · rw [List.mem_singleton.mp hx] at hk
        exact ⟨e, he, by rw [Delivery.eventId, hcommand, ← hk, Delivery.eventId]⟩
  · rcases h.row with ⟨rfl, _⟩ | ⟨row, q, hrow, hwritten, hsub, hlatest⟩
    · exact absurd he (by simp)
    · exact Or.inr ⟨row, q, hrow, hwritten, hsub, hlatest.congr hprojections⟩
  · intro id
    rcases h.invoices id with ⟨hnone, hfind⟩ | ⟨row, i, hrow, hshows, hlatest⟩
    · refine Or.inl ⟨List.eq_nil_iff_forall_not_mem.mpr fun i hi ↦ ?_, hfind⟩
      have hmem := (hstates id i).mp hi
      rw [hnone] at hmem
      exact absurd hmem (by simp)
    · exact Or.inr ⟨row, i, hrow, hshows, hlatest.congr (hstates id)⟩

theorem projections_concat (hp : d.command.projection? = some p) :
    projections (ds ++ [d]) = projections ds ++ [p] := by
  simp [projections, List.filterMap_append, hp]

theorem invoiceStates_concat_none (id : String) (hi : d.command.invoice? = none) :
    invoiceStates id (ds ++ [d]) = invoiceStates id ds := by
  simp [invoiceStates, List.filterMap_append, hi]

theorem invoiceStates_concat {i : InvoiceProjection} (id : String)
    (hi : d.command.invoice? = some i) :
    invoiceStates id (ds ++ [d]) =
      invoiceStates id ds ++ if i.stripeInvoiceId = id then [i] else [] := by
  by_cases hid : i.stripeInvoiceId = id <;>
    simp [invoiceStates, List.filterMap_append, hi, Option.filter, hid]

/-- The row after one more projection. -/
theorem Projected.row_concat (h : Projected db₀ u cus sub ds db)
    (hc : Concerns db₀ u cus sub d.command p) {applied : Bool}
    {subscriptions : Table UserSubscription.userId}
    (happlied : applied = ((db.subscriptions.find? u).all fun row ↦ row.accepts p))
    (hupserted : BillingDb.Upserted db u p applied subscriptions) :
    ∃ row q, subscriptions.find? u = some row ∧ Written row q ∧ q.stripeSubscriptionId = sub ∧
      IsLatest SubscriptionProjection.eventCreatedAt SubscriptionProjection.closed
        (projections (ds ++ [d])) q := by
  rw [projections_concat hc.projection]
  rcases h.row with ⟨rfl, hblank⟩ | ⟨row, q, hrow, hwritten, hsub, hlatest⟩
  · have htrue : applied = true := by
      rw [happlied]
      cases hfind : db.subscriptions.find? u with
      | none => rfl
      | some row =>
          obtain ⟨hid, hevent, hsnapshot⟩ := hblank row hfind
          simp [UserSubscription.accepts, hid, hevent, hsnapshot]
    obtain ⟨row, hrow, hwritten, _⟩ := hupserted.written htrue
    exact ⟨row, p, hrow, hwritten, hc.subscription, isLatest_singleton p⟩
  · have harb := accepts_arbitrates hwritten (hsub.trans hc.subscription.symm)
    have haccepts : applied = row.accepts p := by simp [happlied, hrow]
    rw [← haccepts] at harb
    cases applied with
    | true =>
        obtain ⟨row', hrow', hwritten', _⟩ := hupserted.written rfl
        exact ⟨row', p, hrow', hwritten', hc.subscription, hlatest.accept harb⟩
    | false =>
        rw [hupserted.kept rfl]
        exact ⟨row, q, hrow, hwritten, hsub, hlatest.reject harb⟩

/-- The stored invoices after one more state. -/
theorem Projected.invoices_concat (h : Projected db₀ u cus sub ds db) {i : InvoiceProjection}
    (hi : d.command.invoice? = some i) (hfresh : db₀.invoices.find? i.stripeInvoiceId = none)
    {applied : Bool} {invoices : Table BillingInvoice.stripeInvoiceId}
    (happlied : applied = ((db.invoices.find? i.stripeInvoiceId).all fun row ↦ row.accepts i))
    (hwritten : applied = true → ∃ row, invoices.find? i.stripeInvoiceId = some row ∧ row.Shows i)
    (hkept : applied = false → invoices = db.invoices)
    (hothers : ∀ id, id ≠ i.stripeInvoiceId → invoices.find? id = db.invoices.find? id)
    (id : String) :
    invoiceStates id (ds ++ [d]) = [] ∧ invoices.find? id = db₀.invoices.find? id ∨
      ∃ row j, invoices.find? id = some row ∧ row.Shows j ∧
        IsLatest InvoiceProjection.eventCreatedAt InvoiceProjection.settled
          (invoiceStates id (ds ++ [d])) j := by
  rw [invoiceStates_concat id hi]
  by_cases hid : i.stripeInvoiceId = id
  · subst hid
    rw [if_pos rfl]
    right
    rcases h.invoices i.stripeInvoiceId with ⟨hnone, hfind⟩ | ⟨row, j, hrow, hshows, hlatest⟩
    · have htrue : applied = true := by
        rw [happlied, hfind, hfresh]
        rfl
      obtain ⟨row, hrow, hshows⟩ := hwritten htrue
      rw [hnone]
      exact ⟨row, i, hrow, hshows, isLatest_singleton i⟩
    · have harb : Arbitrates InvoiceProjection.eventCreatedAt InvoiceProjection.settled
          (row.accepts i) j i := invoice_arbitrates hshows
      have haccepts : applied = row.accepts i := by simp [happlied, hrow]
      rw [← haccepts] at harb
      cases applied with
      | true =>
          obtain ⟨row', hrow', hshows'⟩ := hwritten rfl
          exact ⟨row', i, hrow', hshows', hlatest.accept harb⟩
      | false =>
          rw [hkept rfl]
          exact ⟨row, j, hrow, hshows, hlatest.reject harb⟩
  · rw [if_neg hid, List.append_nil, hothers id (Ne.symm hid)]
    exact h.invoices id

/-- The parts of a delivery, put together. -/
theorem Projected.concat (h : Projected db₀ u cus sub ds db)
    (hc : Concerns db₀ u cus sub d.command p) {events : Table WebhookMetadata.id}
    (hevents : db.events.insert? d.command.metadata = some events)
    {customers : Table BillingCustomer.userId} {subscriptions : Table UserSubscription.userId}
    {invoices : Table BillingInvoice.stripeInvoiceId} {applied : Bool}
    (hcustomer : BillingDb.Linked { db with customers } u cus)
    (happlied : applied = ((db.subscriptions.find? u).all fun row ↦ row.accepts p))
    (hupserted : BillingDb.Upserted db u p applied subscriptions)
    (hinvoices : ∀ id, invoiceStates id (ds ++ [d]) = [] ∧
        invoices.find? id = db₀.invoices.find? id ∨
      ∃ row j, invoices.find? id = some row ∧ row.Shows j ∧
        IsLatest InvoiceProjection.eventCreatedAt InvoiceProjection.settled
          (invoiceStates id (ds ++ [d])) j) :
    Projected db₀ u cus sub (ds ++ [d]) { db with events, customers, subscriptions, invoices } where
  active := h.active
  customer := Or.inl hcustomer
  untaken v row hv hrow := h.untaken v row hv ((hupserted.others v hv).symm.trans hrow)
  events k := by
    have hkey : d.command.metadata.id = k ↔ d.eventId = k := Iff.rfl
    simp only [Table.find?_insert hevents, List.mem_append, List.mem_singleton]
    by_cases hk : d.command.metadata.id = k
    · rw [if_pos hk]
      exact ⟨fun _ ↦ Or.inr ⟨d, Or.inr rfl, hk⟩, fun _ ↦ by simp⟩
    · rw [if_neg hk, h.events k]
      refine or_congr_right ⟨?_, ?_⟩
      · rintro ⟨e, he, hek⟩
        exact ⟨e, Or.inl he, hek⟩
      · rintro ⟨e, he | rfl, hek⟩
        · exact ⟨e, he, hek⟩
        · exact absurd hek hk
  row := Or.inr (h.row_concat hc happlied hupserted)
  invoices := hinvoices

/-- What the first delivery of an event does. -/
structure Effective (db db' : BillingDb) (u : Uuid) (p : SubscriptionProjection)
    (effect : Option WebhookEffect) : Prop where
  written : effect.isSome = true → db'.version u = db.version u + 1 ∧
    ∃ row, db'.subscriptions.find? u = some row ∧ Written row p
  kept : effect = none → db'.subscriptions.find? u = db.subscriptions.find? u

theorem Projected.first (h : Projected db₀ u cus sub ds db)
    (hc : Concerns db₀ u cus sub d.command p)
    (hinvoices : ∀ i, d.command.invoice? = some i → db₀.invoices.find? i.stripeInvoiceId = none)
    (hnew : db.events.find? d.eventId = none) :
    ∃ db' effect, db.apply d.command d.now = .ok (db', .applied effect) ∧
      Projected db₀ u cus sub (ds ++ [d]) db' ∧ Effective db db' u p effect := by
  cases hinsert : db.events.insert? d.command.metadata with
  | none => exact absurd hnew (Table.insert?_eq_none_iff.mp hinsert)
  | some events =>
      have hlink : db.Linked u cus ∧ (p.metadataUserId = some u ∨ p.metadataUserId = none) ∨
          db.customerOf cus = none ∧ db.customers.find? u = none ∧ p.metadataUserId = some u := by
        rcases h.customer with hlinked | ⟨hnone, hunused, hbefore⟩
        · refine Or.inl ⟨hlinked, ?_⟩
          rcases hc.user with hmeta | ⟨hmeta, _⟩
          · exact Or.inl hmeta
          · exact Or.inr hmeta
        · rcases hc.user with hmeta | ⟨_, hlinked⟩
          · exact Or.inr ⟨hnone, hunused, hmeta⟩
          · exact absurd hlinked hbefore
      obtain ⟨customers, hresolve, hlinked⟩ := BillingDb.resolveUser_spec
        { db with events } d.now h.active hc.customer hlink
      have huntaken : BillingDb.subscriptionTaken { db with events, customers } u p = false := by
        rw [BillingDb.subscriptionTaken, decide_eq_false_iff_not, Table.count_pos_iff]
        rintro ⟨row, hrow, htaken⟩
        simp only [Bool.and_eq_true, decide_eq_true_eq] at htaken
        rw [hc.subscription] at htaken
        exact h.untaken row.userId row htaken.1 (Table.find?_key hrow) htaken.2
      have hheld : ∀ row, db.subscriptions.find? u = some row → BillingDb.Blank row ∨
          ∃ q, Written row q ∧ q.stripeSubscriptionId = p.stripeSubscriptionId := by
        intro row hrow
        rcases h.row with ⟨_, hblank⟩ | ⟨row', q, hrow', hwritten, hsub, _⟩
        · exact Or.inl (hblank row hrow)
        · rw [hrow] at hrow'
          cases hrow'
          exact Or.inr ⟨q, hwritten, hsub.trans hc.subscription.symm⟩
      obtain ⟨subscriptions, customers', applied, hupsert, hstill, happlied, hupserted⟩ :=
        BillingDb.upsertSubscription_spec { db with events, customers } d.now huntaken hheld
      have hcustomer := hstill u cus hlinked
      have hupserted : BillingDb.Upserted db u p applied subscriptions :=
        ⟨hupserted.written, hupserted.kept, hupserted.others⟩
      have heffective : ∀ db' : BillingDb, db'.subscriptions = subscriptions →
          Effective db db' u p (if applied then some ⟨u, some p.status⟩ else none) := by
        rintro db' rfl
        constructor
        · intro hsome
          have htrue : applied = true := by
            cases applied with
            | true => rfl
            | false => simp at hsome
          obtain ⟨row, hrow, hwritten, hversion⟩ := hupserted.written htrue
          exact ⟨by simp [BillingDb.version, hrow, hversion], row, hrow, hwritten⟩
        · intro hnone
          have hfalse : applied = false := by
            cases applied with
            | false => rfl
            | true => simp at hnone
          rw [hupserted.kept hfalse]
      cases hi : d.command.invoice? with
      | none =>
          have hsame : ∀ id, invoiceStates id (ds ++ [d]) = [] ∧
              db.invoices.find? id = db₀.invoices.find? id ∨
              ∃ row j, db.invoices.find? id = some row ∧ row.Shows j ∧
                IsLatest InvoiceProjection.eventCreatedAt InvoiceProjection.settled
                  (invoiceStates id (ds ++ [d])) j := by
            intro id
            rw [invoiceStates_concat_none id hi]
            exact h.invoices id
          refine ⟨_, _, ?_, h.concat hc hinsert hcustomer happlied hupserted hsame,
            heffective _ rfl⟩
          cases hcommand : d.command with
          | subscription metadata projection =>
              have hp : projection = p := by
                simpa [hcommand, WebhookCommand.projection?] using hc.projection
              subst hp
              rw [hcommand] at hinsert
              simp only [BillingDb.apply, hinsert, BillingDb.applyCommand, hresolve, hupsert, bind,
                Except.bind]
          | invoice metadata projection state notify =>
              simp [hcommand, WebhookCommand.invoice?] at hi
          | receipt metadata => simpa [hcommand, WebhookCommand.projection?] using hc.projection
          | checkout metadata session status =>
              simpa [hcommand, WebhookCommand.projection?] using hc.projection
          | customerDeleted metadata customer =>
              simpa [hcommand, WebhookCommand.projection?] using hc.projection
      | some i =>
          obtain ⟨invoices, stored, hinvoice, hstored, hshown, hkept, hothers⟩ :=
            BillingDb.upsertInvoice_spec
              { db with events, subscriptions, customers := customers' } u d.now (hc.storable i hi)
          refine ⟨_, _, ?_, h.concat hc hinsert hcustomer happlied hupserted
            (h.invoices_concat hi (hinvoices i hi) hstored hshown hkept hothers),
            heffective _ rfl⟩
          cases hcommand : d.command with
          | invoice metadata projection state notify =>
              have hp : projection = p := by
                simpa [hcommand, WebhookCommand.projection?] using hc.projection
              have hstate : state = i := by simpa [hcommand, WebhookCommand.invoice?] using hi
              subst hp hstate
              rw [hcommand] at hinsert
              simp only [BillingDb.apply, hinsert, BillingDb.applyCommand, hresolve, hupsert, hinvoice,
                bind, Except.bind]
          | subscription metadata projection => simp [hcommand, WebhookCommand.invoice?] at hi
          | receipt metadata => simp [hcommand, WebhookCommand.invoice?] at hi
          | checkout metadata session status => simp [hcommand, WebhookCommand.invoice?] at hi
          | customerDeleted metadata customer => simp [hcommand, WebhookCommand.invoice?] at hi

end Step

/-- Deliveries, in any order and with any repetitions, of events about one
subscription that were not delivered before; an event has one command. -/
structure Deliverable (db₀ : BillingDb) (u : Uuid) (cus sub : String) (ds : List Delivery) :
    Prop where
  concerns : ∀ d ∈ ds, ∃ p, Concerns db₀ u cus sub d.command p
  ids : ∀ d ∈ ds, ∀ e ∈ ds, d.eventId = e.eventId → d.command = e.command
  events : ∀ d ∈ ds, db₀.events.find? d.eventId = none
  invoices : ∀ d ∈ ds, ∀ i, d.command.invoice? = some i →
    db₀.invoices.find? i.stripeInvoiceId = none

section Runs

variable {db₀ : BillingDb} {u : Uuid} {cus sub : String} {ds : List Delivery}

theorem Deliverable.of_append {es : List Delivery} (h : Deliverable db₀ u cus sub (ds ++ es)) :
    Deliverable db₀ u cus sub ds where
  concerns d hd := h.concerns d (List.mem_append_left _ hd)
  ids d hd e he := h.ids d (List.mem_append_left _ hd) e (List.mem_append_left _ he)
  events d hd := h.events d (List.mem_append_left _ hd)
  invoices d hd := h.invoices d (List.mem_append_left _ hd)

/-- One more delivery is a duplicate or takes effect. -/
theorem deliver_cases {d : Delivery} {db : BillingDb} (h : Deliverable db₀ u cus sub (ds ++ [d]))
    (hdb : Projected db₀ u cus sub ds db) :
    Projected db₀ u cus sub (ds ++ [d]) (deliver db d) ∧
      ((∃ e ∈ ds, e.eventId = d.eventId) ∧
          db.apply d.command d.now = .ok (db, .duplicate) ∧ deliver db d = db ∨
        (¬ ∃ e ∈ ds, e.eventId = d.eventId) ∧ ∃ p effect, d.command.projection? = some p ∧
          db.apply d.command d.now = .ok (deliver db d, .applied effect) ∧
            Effective db (deliver db d) u p effect) := by
  have hmem : d ∈ ds ++ [d] := by simp
  by_cases hseen : ∃ e ∈ ds, e.eventId = d.eventId
  · have hduplicate := hdb.duplicate hseen
    have hsame : deliver db d = db := by simp only [deliver, hduplicate]
    obtain ⟨e, he, hid⟩ := hseen
    have hagain := hdb.again ⟨e, he, h.ids e (List.mem_append_left _ he) d hmem hid⟩
    rw [hsame]
    exact ⟨hagain, Or.inl ⟨⟨e, he, hid⟩, hduplicate, rfl⟩⟩
  · obtain ⟨p, hp⟩ := h.concerns d hmem
    have hnew : db.events.find? d.eventId = none := by
      by_contra hstored
      rcases (hdb.events d.eventId).mp hstored with hbefore | hearlier
      · exact hbefore (h.events d hmem)
      · exact hseen hearlier
    obtain ⟨db', effect, happly, hprojected, heffective⟩ :=
      hdb.first hp (h.invoices d hmem) hnew
    have hnext : deliver db d = db' := by simp only [deliver, happly]
    rw [hnext]
    exact ⟨hprojected, Or.inr ⟨hseen, p, effect, hp.projection, happly, heffective⟩⟩

theorem projected_exec (hstart : Untouched db₀ u cus sub) (h : Deliverable db₀ u cus sub ds) :
    Projected db₀ u cus sub ds (webhooks.exec db₀ ds) := by
  induction ds using List.reverseRecOn with
  | nil => exact hstart.projected
  | append_singleton ds d ih =>
      rw [System.exec_concat]
      exact (deliver_cases h (ih h.of_append)).1

theorem stripe_webhooks_commute (hstart : Untouched db₀ u cus sub)
    (h : Deliverable db₀ u cus sub ds) :
    (∀ pre d post, ds = pre ++ d :: post →
      (∃ e ∈ pre, e.eventId = d.eventId) ∧
          (webhooks.exec db₀ pre).apply d.command d.now =
            .ok (webhooks.exec db₀ pre, .duplicate) ∧
          webhooks.exec db₀ (pre ++ [d]) = webhooks.exec db₀ pre ∨
        (¬ ∃ e ∈ pre, e.eventId = d.eventId) ∧ ∃ p effect, d.command.projection? = some p ∧
          (webhooks.exec db₀ pre).apply d.command d.now =
            .ok (webhooks.exec db₀ (pre ++ [d]), .applied effect) ∧
          Effective (webhooks.exec db₀ pre) (webhooks.exec db₀ (pre ++ [d])) u p effect) ∧
    (ds ≠ [] → ∃ row p, (webhooks.exec db₀ ds).subscriptions.find? u = some row ∧ row.Shows p ∧
      row.providerEventCreatedAt = some p.eventCreatedAt ∧
      IsLatest SubscriptionProjection.eventCreatedAt SubscriptionProjection.closed
        (projections ds) p ∧
      ∀ q ∈ projections ds,
        (∀ r ∈ projections ds, r ≠ q → r.eventCreatedAt < q.eventCreatedAt) → row.Shows q) ∧
    ∀ d ∈ ds, ∀ i, d.command.invoice? = some i →
      ∃ row j, (webhooks.exec db₀ ds).invoices.find? i.stripeInvoiceId = some row ∧ row.Shows j ∧
        IsLatest InvoiceProjection.eventCreatedAt InvoiceProjection.settled
          (invoiceStates i.stripeInvoiceId ds) j := by
  have hfinal := projected_exec hstart h
  refine ⟨?_, ?_, ?_⟩
  · rintro pre d post rfl
    have hpre : Deliverable db₀ u cus sub (pre ++ [d]) :=
      Deliverable.of_append (by rwa [List.append_assoc, List.singleton_append])
    have hstep := (deliver_cases hpre (projected_exec hstart hpre.of_append)).2
    rw [System.exec_concat]
    exact hstep
  · intro hne
    rcases hfinal.row with ⟨hnil, _⟩ | ⟨row, p, hrow, hwritten, _, hlatest⟩
    · exact absurd hnil hne
    · refine ⟨row, p, hrow, hwritten.columns, hwritten.eventAt, hlatest, fun q hq hunique ↦ ?_⟩
      rw [← hlatest.eq_of_unique hq hunique]
      exact hwritten.columns
  · intro d hd i hi
    have hmem : i ∈ invoiceStates i.stripeInvoiceId ds := by
      refine List.mem_filterMap.mpr ⟨d, hd, ?_⟩
      simp [hi, Option.filter]
    rcases hfinal.invoices i.stripeInvoiceId with ⟨hnone, _⟩ | hstored
    · rw [hnone] at hmem
      exact absurd hmem (by simp)
    · exact hstored

end Runs

/-- A subscription of user 1 as Stripe reports it at an instant. -/
def sampleProjection (status : StripeSubscriptionStatus) (instant : ℤ) : SubscriptionProjection :=
  ⟨some 1, "cus_1", "sub_1", "price_1", .monthly, status, false, 0, 1000, none, none, none, instant⟩

def sampleMetadata (id : String) (instant : ℤ) : WebhookMetadata :=
  ⟨id, "customer.subscription.updated", none, false, none, instant⟩

def sampleInvoice (status : String) (instant : ℤ) : InvoiceProjection :=
  ⟨"in_1", "cus_1", some "sub_1", some status, "EUR", 10, 0, 10, 0, 1000, none, 0, instant⟩

/-- One active account and nothing else. -/
def oneAccount : BillingDb :=
  ⟨⟨[⟨1, none⟩], by decide⟩, ∅, ∅, ∅, ∅, ∅⟩

/-- A cancellation is delivered before the activation it followed, twice, and
then an invoice of the same second as the cancellation. -/
def disordered : List Delivery :=
  [⟨.subscription (sampleMetadata "evt_2" 20) (sampleProjection .canceled 20), 30⟩,
    ⟨.subscription (sampleMetadata "evt_1" 10) (sampleProjection .active 10), 31⟩,
    ⟨.subscription (sampleMetadata "evt_2" 20) (sampleProjection .canceled 20), 32⟩,
    ⟨.invoice (sampleMetadata "evt_3" 20) (sampleProjection .active 20) (sampleInvoice "paid" 20)
      false, 33⟩]

theorem stripe_webhooks_commute_disordered :
    ((webhooks.exec oneAccount disordered).subscriptions.find? 1).bind UserSubscription.status =
        some .canceled ∧
      ∃ row p, (webhooks.exec oneAccount disordered).subscriptions.find? 1 = some row ∧
        row.Shows p ∧ row.providerEventCreatedAt = some p.eventCreatedAt ∧
        IsLatest SubscriptionProjection.eventCreatedAt SubscriptionProjection.closed
          (projections disordered) p := by
  have hstart : Untouched oneAccount 1 "cus_1" "sub_1" :=
    ⟨rfl, Or.inr ⟨rfl, rfl⟩, by simp [oneAccount], by simp [oneAccount]⟩
  have hconcerns : ∀ d ∈ disordered, ∃ p, Concerns oneAccount 1 "cus_1" "sub_1" d.command p := by
    intro d hd
    simp only [disordered, List.mem_cons, List.not_mem_nil, or_false] at hd
    rcases hd with rfl | rfl | rfl | rfl
    · exact ⟨_, rfl, rfl, rfl, Or.inl rfl, by simp [WebhookCommand.invoice?]⟩
    · exact ⟨_, rfl, rfl, rfl, Or.inl rfl, by simp [WebhookCommand.invoice?]⟩
    · exact ⟨_, rfl, rfl, rfl, Or.inl rfl, by simp [WebhookCommand.invoice?]⟩
    · refine ⟨_, rfl, rfl, rfl, Or.inl rfl, ?_⟩
      rintro i ⟨⟩
      rfl
  obtain ⟨_, hrow, _⟩ := stripe_webhooks_commute hstart
    ⟨hconcerns, by decide +kernel, fun _ _ ↦ rfl, fun _ _ _ _ ↦ rfl⟩
  obtain ⟨row, p, hfind, hshows, hevent, hlatest, _⟩ := hrow (by simp [disordered])
  exact ⟨by decide +kernel, row, p, hfind, hshows, hevent, hlatest⟩

end Histae.Billing
