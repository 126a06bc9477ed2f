import Mathlib
import Histae.Billing.Ordering

/-!
# Late events of a deleted customer

`customer.deleted` cancels the Stripe row that it finds and moves its times
up to the deletion, which shuts out every older event. When it finds no such
row it leaves nothing that would: `resolve_user` does not look at
`stripe_customer_deleted_at`, and the first older event then starts a new
projection.
-/

namespace Histae.Billing

open Relational Systems

/-- A subscription or invoice command of the customer that is older than
`t`. -/
structure Older (cus : String) (t : ℤ) (c : WebhookCommand) : Prop where
  projection : ∃ p, c.projection? = some p ∧ p.stripeCustomerId = cus ∧ p.eventCreatedAt < t

/-- The row refuses every projection older than `t`. -/
def UserSubscription.Shut (t : ℤ) (row : UserSubscription) : Prop :=
  (∃ s, row.providerSnapshotAt = some s ∧ t ≤ s) ∨
    ∃ e, row.providerEventCreatedAt = some e ∧ t ≤ e

theorem UserSubscription.Shut.refuses {t : ℤ} {row : UserSubscription} {p : SubscriptionProjection}
    (h : row.Shut t) (hp : p.eventCreatedAt < t) : row.accepts p = false := by
  rcases h with ⟨s, hs, hle⟩ | ⟨e, he, hle⟩
  · have hlate : ¬ s ≤ p.eventCreatedAt := by omega
    simp [UserSubscription.accepts, hs, hlate]
  · have hlate : ¬ e < p.eventCreatedAt := by omega
    have hne : e ≠ p.eventCreatedAt := by omega
    simp [UserSubscription.accepts, he, hlate, hne]

/-- A canceled row that is not shut accepts a closed status just before
`t`. -/
theorem UserSubscription.shut_of_refuses {t : ℤ} {row : UserSubscription}
    {p : SubscriptionProjection} (hcanceled : row.status = some .canceled)
    (hp : p.eventCreatedAt = t - 1) (hclosed : p.status.isClosed = true)
    (hrefused : row.accepts p = false) : row.Shut t := by
  by_contra hopen
  simp only [UserSubscription.Shut, not_or, not_exists, not_and, not_le] at hopen
  have hevent : (row.providerEventCreatedAt.all fun eventAt ↦
      eventAt < p.eventCreatedAt || eventAt = p.eventCreatedAt &&
        ((row.status.any fun status ↦ !status.isClosed) || p.status.isClosed)) = true := by
    cases he : row.providerEventCreatedAt with
    | none => rfl
    | some e =>
        have hlt := hopen.2 e he
        have hle : e < t - 1 ∨ e = t - 1 := by omega
        simpa [hp, hclosed] using hle
  have hsnapshot : (row.providerSnapshotAt.all fun s ↦ s ≤ p.eventCreatedAt) = true := by
    cases hs : row.providerSnapshotAt with
    | none => rfl
    | some s =>
        have hlt := hopen.1 s hs
        have hle : s ≤ t - 1 := by omega
        simpa [hp] using hle
  have haccepts : row.accepts p = true := by
    unfold UserSubscription.accepts
    rw [hevent, hsnapshot]
    simp [hcanceled, StripeSubscriptionStatus.isTerminal]
  exact absurd (haccepts.symm.trans hrefused) (by simp)

namespace BillingDb

variable {db db' : BillingDb} {u v : Uuid} {p : SubscriptionProjection} {now : ℤ}

theorem requireActiveAccount_congr (h : db'.accounts = db.accounts) (u : Uuid) :
    db'.requireActiveAccount u = db.requireActiveAccount u := by
  simp only [requireActiveAccount, h]

/-- An upsert that succeeds was accepted, or left everything but the trial. -/
theorem upsertSubscription_eq_ok {applied : Bool}
    (h : db.upsertSubscription v p now = .ok (db', applied)) :
    applied = true ∧ ((db.subscriptions.find? v).all fun row ↦ row.accepts p) = true ∧
        db' = (db.writeSubscription v p now).recordTrial v p now ∨
      applied = false ∧ ((db.subscriptions.find? v).all fun row ↦ row.accepts p) = false ∧
        db' = db.recordTrial v p now := by
  simp only [upsertSubscription] at h
  split at h
  · rename_i hfind
    split at h
    · exact absurd h (by simp)
    · obtain ⟨rfl, rfl⟩ := Prod.mk.inj (Except.ok.inj h)
      exact Or.inl ⟨rfl, by simp [hfind], rfl⟩
  · rename_i row hfind
    split at h
    · rename_i haccepts
      split at h
      · exact absurd h (by simp)
      · obtain ⟨rfl, rfl⟩ := Prod.mk.inj (Except.ok.inj h)
        exact Or.inl ⟨rfl, by simp [hfind, haccepts], rfl⟩
    · rename_i hrefused
      split at h
      · exact absurd h (by simp)
      · split at h
        · obtain ⟨rfl, rfl⟩ := Prod.mk.inj (Except.ok.inj h)
          exact Or.inr ⟨rfl, by simpa [hfind] using hrefused, rfl⟩
        · exact absurd h (by simp)

/-- An upsert writes the row of its user, or nothing. -/
theorem upsertSubscription_cases {applied : Bool}
    (h : db.upsertSubscription v p now = .ok (db', applied)) :
    ∃ subscriptions customers, db' = { db with subscriptions, customers } ∧
      (∀ w cus, db.Linked w cus → db'.Linked w cus) ∧
      (((db.subscriptions.find? v).all fun row ↦ row.accepts p) = true ∧
          subscriptions = (db.writeSubscription v p now).subscriptions ∨
        subscriptions = db.subscriptions) := by
  rcases upsertSubscription_eq_ok h with ⟨_, haccepts, rfl⟩ | ⟨_, _, rfl⟩
  · obtain ⟨customers, htrial, hlinked⟩ := recordTrial_spec (db.writeSubscription v p now) v p now
    rw [htrial]
    exact ⟨_, customers, rfl, hlinked, Or.inl ⟨haccepts, rfl⟩⟩
  · obtain ⟨customers, htrial, hlinked⟩ := recordTrial_spec db v p now
    rw [htrial]
    exact ⟨_, customers, rfl, hlinked, Or.inr rfl⟩

/-- The statements behind a subscription or invoice command. -/
theorem applyCommand_eq_ok {c : WebhookCommand} {effect : Option WebhookEffect}
    (hp : c.projection? = some p) (h : db.applyCommand c now = .ok (db', effect)) :
    ∃ db₁ v db₂ applied invoices, db.resolveUser p now = .ok (db₁, v) ∧
      db₁.upsertSubscription v p now = .ok (db₂, applied) ∧ db' = { db₂ with invoices } ∧
      effect = if applied then some ⟨v, some p.status⟩ else none := by
  cases c with
  | subscription metadata projection =>
      obtain rfl : projection = p := by simpa [WebhookCommand.projection?] using hp
      simp only [applyCommand, bind, Except.bind] at h
      split at h
      · exact absurd h (by simp)
      · rename_i resolved hresolve
        split at h
        · exact absurd h (by simp)
        · rename_i upserted hupsert
          obtain ⟨rfl, rfl⟩ := Prod.mk.inj (Except.ok.inj h)
          exact ⟨_, _, _, _, _, hresolve, hupsert, rfl, rfl⟩
  | invoice metadata projection state notify =>
      obtain rfl : projection = p := by simpa [WebhookCommand.projection?] using hp
      simp only [applyCommand, bind, Except.bind] at h
      split at h
      · exact absurd h (by simp)
      · rename_i resolved hresolve
        split at h
        · exact absurd h (by simp)
        · rename_i upserted hupsert
          split at h
          · exact absurd h (by simp)
          · rename_i stored hstored
            obtain ⟨rfl, rfl⟩ := Prod.mk.inj (Except.ok.inj h)
            refine ⟨_, _, _, _, stored.1.invoices, hresolve, hupsert, ?_, rfl⟩
            unfold upsertInvoice at hstored
            split at hstored
            · split at hstored <;> rw [← Except.ok.inj hstored]
            · exact absurd hstored (by simp)
  | receipt metadata => simp [WebhookCommand.projection?] at hp
  | checkout metadata session status => simp [WebhookCommand.projection?] at hp
  | customerDeleted metadata customer => simp [WebhookCommand.projection?] at hp

end BillingDb

/-- A delivery fails, is recorded only, or commits what its command does. -/
theorem deliver_outcome (db : BillingDb) (d : Delivery) :
    deliver db d = db ∨ ∃ events, deliver db d = { db with events } ∨
      ∃ result, BillingDb.applyCommand { db with events } d.command d.now = .ok result ∧
        deliver db d = result.1 := by
  cases hinsert : db.events.insert? d.command.metadata with
  | none => exact Or.inl (by simp only [deliver, BillingDb.apply, hinsert])
  | some events =>
      cases hcommand : BillingDb.applyCommand { db with events } d.command d.now with
      | ok result =>
          exact Or.inr ⟨events, Or.inr ⟨result, hcommand, by
            simp only [deliver, BillingDb.apply, hinsert, hcommand]⟩⟩
      | error error =>
          cases error with
          | inactiveAccount =>
              exact Or.inr ⟨events, Or.inl (by
                simp only [deliver, BillingDb.apply, hinsert, hcommand])⟩
          | database error =>
              exact Or.inl (by simp only [deliver, BillingDb.apply, hinsert, hcommand])
          | invalidMapping =>
              exact Or.inl (by simp only [deliver, BillingDb.apply, hinsert, hcommand])

namespace BillingDb

theorem Linked.unique {db : BillingDb} {u v : Uuid} {cus : String} (hu : db.Linked u cus)
    (hv : db.Linked v cus) : u = v := by
  obtain ⟨c, hc, rfl⟩ := hu
  obtain ⟨d, hd, rfl⟩ := hv
  rw [Option.some.inj (hc.symm.trans hd)]

/-- A command of the customer may be projected on the row of the user. -/
def Reaches (db : BillingDb) (u : Uuid) (cus : String) : Prop :=
  db.requireActiveAccount u = .ok () ∧
    (db.Linked u cus ∨ db.customerOf cus = none ∧ db.customers.find? u = none)

theorem Linked.reaches_iff {db : BillingDb} {u v : Uuid} {cus : String} (h : db.Linked v cus) :
    db.Reaches u cus ↔ db.requireActiveAccount u = .ok () ∧ u = v := by
  refine and_congr_right fun _ ↦ ⟨?_, fun hu ↦ Or.inl (hu ▸ h)⟩
  rintro (hu | ⟨hnone, _⟩)
  · exact hu.unique h
  · obtain ⟨c, hc, _⟩ := h
    exact absurd (hc.symm.trans hnone) (by simp)

/-- What resolving a command of the customer says of its user. -/
theorem resolveUser_reaches {db db' : BillingDb} {v : Uuid} {cus : String}
    {p : SubscriptionProjection} {now : ℤ} (hcus : p.stripeCustomerId = cus)
    (h : db.resolveUser p now = .ok (db', v)) :
    db.Reaches v cus ∧ db'.Linked v cus ∧ ∃ customers, db' = { db with customers } := by
  cases hfind : db.customerOf cus with
  | some c =>
      simp only [resolveUser, hcus, hfind, bind, Except.bind] at h
      split at h
      · exact absurd h (by simp)
      rename_i hactive
      split at h
      · exact absurd h (by simp)
      obtain ⟨rfl, rfl⟩ := Prod.mk.inj (Except.ok.inj h)
      have hlinked : db.Linked c.userId cus := ⟨c, hfind, rfl⟩
      exact ⟨⟨hactive, Or.inl hlinked⟩, hlinked, db.customers, rfl⟩
  | none =>
      cases hmeta : p.metadataUserId with
      | none => simp [resolveUser, hcus, hfind, hmeta] at h
      | some w =>
          simp only [resolveUser, hcus, hfind, hmeta, bind, Except.bind] at h
          split at h
          · exact absurd h (by simp)
          rename_i hactive
          cases hunused : db.customers.find? w with
          | some c =>
              -- another customer of the same user, which `cus` then cannot be
              simp only [linkCustomer, hunused] at h
              split at h
              · rename_i hsame
                have hmem := (Table.find?_eq_some_iff.mp hunused).1
                exact absurd hsame (by simpa using List.find?_eq_none.mp hfind c hmem)
              · exact absurd h (by simp)
          | none =>
              obtain ⟨customers, hspec, hlinked⟩ :=
                resolveUser_spec db now hactive hcus (Or.inr ⟨hfind, hunused, hmeta⟩)
              simp only [resolveUser, hcus, hfind, hmeta, hactive, bind, Except.bind] at hspec
              rw [hspec] at h
              obtain ⟨rfl, rfl⟩ := Prod.mk.inj (Except.ok.inj h)
              exact ⟨⟨hactive, Or.inr ⟨hfind, hunused⟩⟩, hlinked, customers, rfl⟩

end BillingDb

section Late

variable {db db' : BillingDb} {u v : Uuid} {cus : String} {t now : ℤ} {p : SubscriptionProjection}

/-- What a command of the customer does to the user's row: nothing, or the
customer is the user's and the row accepts it. -/
theorem deliver_row (db : BillingDb) (u : Uuid) {d : Delivery} (hp : d.command.projection? = some p)
    (hcus : p.stripeCustomerId = cus) :
    ((deliver db d).Reaches u cus → db.Reaches u cus) ∧
      ((deliver db d).subscriptions.find? u = db.subscriptions.find? u ∨
        db.Reaches u cus ∧ ((db.subscriptions.find? u).all fun row ↦ row.accepts p) = true) := by
  rcases deliver_outcome db d with hsame | ⟨events, hsame | ⟨result, hcommand, hsame⟩⟩
  · rw [hsame]
    exact ⟨id, Or.inl rfl⟩
  · rw [hsame]
    exact ⟨id, Or.inl rfl⟩
  obtain ⟨db₁, v, db₂, applied, invoices, hresolve, hupsert, hresult, _⟩ :=
    BillingDb.applyCommand_eq_ok hp hcommand
  obtain ⟨hreaches, hlinked, customers, rfl⟩ := BillingDb.resolveUser_reaches hcus hresolve
  obtain ⟨subscriptions, others, rfl, hstill, hwritten⟩ :=
    BillingDb.upsertSubscription_cases hupsert
  have hlinked' := hstill _ _ hlinked
  rw [hsame, hresult]
  constructor
  · -- the customer is now that of `v`, so that only `v` is reached
    intro h
    obtain rfl := (BillingDb.Linked.reaches_iff hlinked').mp h |>.2
    exact hreaches
  · by_cases hu : u = v
    · subst hu
      rcases hwritten with ⟨haccepts, _⟩ | rfl
      · exact Or.inr ⟨hreaches, haccepts⟩
      · exact Or.inl rfl
    · rcases hwritten with ⟨_, rfl⟩ | rfl
      · exact Or.inl ((BillingDb.find?_writeSubscription _ v u p d.now).trans (if_neg hu))
      · exact Or.inl rfl

/-- Older commands leave the row of a user they do not reach, and a row that
is shut. -/
theorem find?_exec_older {ds : List Delivery} (hds : ∀ d ∈ ds, Older cus t d.command)
    (hshut : ¬ db.Reaches u cus ∨ ∃ row, db.subscriptions.find? u = some row ∧ row.Shut t) :
    (webhooks.exec db ds).subscriptions.find? u = db.subscriptions.find? u := by
  induction ds generalizing db with
  | nil => rfl
  | cons d ds ih =>
      obtain ⟨p, hp, hcus, htime⟩ := (hds d List.mem_cons_self).projection
      obtain ⟨hreaches, hrow⟩ := deliver_row db u hp hcus
      have hsame : (deliver db d).subscriptions.find? u = db.subscriptions.find? u := by
        rcases hrow with hsame | ⟨hreached, haccepts⟩
        · exact hsame
        · rcases hshut with hunreached | ⟨row, hfind, hrefuses⟩
          · exact absurd hreached hunreached
          · rw [hfind, Option.all_some, hrefuses.refuses htime] at haccepts
            exact absurd haccepts (by simp)
      have hstill : ¬ (deliver db d).Reaches u cus ∨
          ∃ row, (deliver db d).subscriptions.find? u = some row ∧ row.Shut t := by
        rw [hsame]
        exact hshut.imp_left fun h h' ↦ h (hreaches h')
      rw [System.exec_cons]
      exact (ih (fun e he ↦ hds e (List.mem_cons_of_mem d he)) hstill).trans hsame

/-- An unpaid subscription of the customer just before `t`. -/
def arrears (u : Uuid) (cus sub : String) (t : ℤ) : SubscriptionProjection :=
  ⟨some u, cus, sub, "price_1", .monthly, .unpaid, false, t - 1, t + days 30, none, none, none,
    t - 1⟩

def reportArrears (u : Uuid) (cus sub id : String) (t now : ℤ) : Delivery :=
  ⟨.subscription ⟨id, "customer.subscription.updated", none, false, none, t - 1⟩
    (arrears u cus sub t), now⟩

theorem older_reportArrears (u : Uuid) (cus sub id : String) (t now : ℤ) :
    ∀ d ∈ [reportArrears u cus sub id t now], Older cus t d.command := by
  intro d hd
  rw [List.mem_singleton.mp hd]
  exact ⟨_, rfl, rfl, Int.sub_one_lt_of_le le_rfl⟩

/-- A row that accepts it, or no row, becomes unpaid. -/
theorem BillingDb.Reaches.accepted (h : db.Reaches u cus) {sub id : String}
    (hsub : ∀ row ∈ db.subscriptions, row.providerSubscriptionId ≠ some sub)
    (hid : db.events.find? id = none)
    (haccepts : ((db.subscriptions.find? u).all fun row ↦ row.accepts (arrears u cus sub t)) =
      true) :
    ∃ row, (deliver db (reportArrears u cus sub id t now)).subscriptions.find? u = some row ∧
      row.status = some .unpaid := by
  obtain ⟨hactive, hmine⟩ := h
  cases hinsert : db.events.insert? (reportArrears u cus sub id t now).command.metadata with
  | none => exact absurd hid (Table.insert?_eq_none_iff.mp hinsert)
  | some events =>
      obtain ⟨customers, hspec, _⟩ := resolveUser_spec { db with events }
        (p := arrears u cus sub t) now hactive rfl
        (hmine.imp (fun h ↦ ⟨h, Or.inl rfl⟩) fun ⟨hnone, hunused⟩ ↦ ⟨hnone, hunused, rfl⟩)
      have huntaken : BillingDb.subscriptionTaken { db with events, customers } u
          (arrears u cus sub t) = false := by
        simp only [subscriptionTaken, decide_eq_false_iff_not, Table.count_pos_iff]
        rintro ⟨row, hrow, hheld⟩
        simp [hsub row hrow, arrears] at hheld
      obtain ⟨subscriptions, others, applied, hupsert, _, happlied, hwritten⟩ :=
        upsertSubscription_total { db with events, customers } now huntaken
          fun row hrow hrefused ↦ by
            rw [show db.subscriptions.find? u = some row from hrow, Option.all_some,
              hrefused] at haccepts
            exact absurd haccepts (by simp)
      rw [happlied.trans haccepts, if_pos rfl] at hwritten
      have hdeliver : deliver db (reportArrears u cus sub id t now) =
          { db with events, subscriptions, customers := others } := by
        unfold deliver BillingDb.apply
        rw [hinsert]
        simp only [reportArrears, applyCommand, hspec, hupsert, bind, Except.bind]
      rw [hdeliver, hwritten, find?_writeSubscription, if_pos rfl]
      refine ⟨_, rfl, ?_⟩
      cases db.subscriptions.find? u <;> rfl

/-- After it, the row is canceled only if it was, and is shut. -/
theorem BillingDb.Reaches.arrears (h : db.Reaches u cus) (t now : ℤ) :
    ∃ sub id, (∀ row, (deliver db (reportArrears u cus sub id t now)).subscriptions.find? u =
        some row → row.status = some .canceled) →
      ∃ row, db.subscriptions.find? u = some row ∧ row.status = some .canceled ∧ row.Shut t := by
  obtain ⟨sub, hsub⟩ := Infinite.exists_notMem_finset
    (db.subscriptions.rows.filterMap UserSubscription.providerSubscriptionId).toFinset
  obtain ⟨id, hid⟩ := Infinite.exists_notMem_finset
    (db.events.rows.map WebhookMetadata.id).toFinset
  have hunheld : ∀ row ∈ db.subscriptions, row.providerSubscriptionId ≠ some sub :=
    fun row hrow hheld ↦ hsub (List.mem_toFinset.mpr (List.mem_filterMap.mpr ⟨row, hrow, hheld⟩))
  have hnew : db.events.find? id = none := by
    rw [Table.find?_eq_none_iff]
    intro event hevent hkey
    exact hid (List.mem_toFinset.mpr (List.mem_map.mpr ⟨event, hevent, hkey⟩))
  refine ⟨sub, id, fun hcanceled ↦ ?_⟩
  by_cases haccepts : ((db.subscriptions.find? u).all fun row ↦
      row.accepts (Billing.arrears u cus sub t)) = true
  · obtain ⟨row, hrow, hunpaid⟩ := h.accepted hunheld hnew haccepts
    have hstatus := hcanceled row hrow
    rw [hunpaid] at hstatus
    exact absurd hstatus (by simp)
  · rcases (deliver_row db u (d := reportArrears u cus sub id t now) rfl rfl).2 with hsame | ⟨_, haccepted⟩
    · cases hfind : db.subscriptions.find? u with
      | none => exact absurd (by rw [hfind]; rfl) haccepts
      | some row =>
          have hstatus := hcanceled row (hsame.trans hfind)
          rw [hfind, Option.all_some, Bool.not_eq_true] at haccepts
          exact ⟨row, rfl, hstatus, UserSubscription.shut_of_refuses hstatus rfl rfl haccepts⟩
    · exact absurd haccepted haccepts

end Late

section Deletion

variable {db db' : BillingDb} {u : Uuid} {cus : String} {metadata : WebhookMetadata} {t now : ℤ}
  {effect : Option WebhookEffect}

/-- The rows that `customer.deleted` cancels. -/
def UserSubscription.cancelable (t : ℤ) (row : UserSubscription) : Bool :=
  row.provider = some .stripe && row.providerSnapshotAt.all fun snapshotAt ↦ snapshotAt ≤ t

theorem UserSubscription.shut_cancel (row : UserSubscription) (t now : ℤ) :
    (row.cancel t now).Shut t := by
  refine Or.inl ⟨greatest row.providerSnapshotAt t, rfl, ?_⟩
  cases row.providerSnapshotAt with
  | none => exact le_rfl
  | some s => exact le_max_right s t

/-- What `customer.deleted` does. -/
theorem find?_customerDeleted
    (hdelete : db.apply (.customerDeleted metadata cus) now = .ok (db', .applied effect)) :
    (db'.Reaches u cus ↔ db.Reaches u cus) ∧
      (db.Linked u cus → db.requireActiveAccount u = .ok () →
        db'.subscriptions.find? u = (db.subscriptions.find? u).map fun row ↦
          if row.cancelable metadata.createdAt then row.cancel metadata.createdAt now else row) ∧
      (¬ (db.Linked u cus ∧ db.requireActiveAccount u = .ok ()) →
        db'.subscriptions.find? u = db.subscriptions.find? u) := by
  simp only [BillingDb.apply, WebhookCommand.metadata] at hdelete
  split at hdelete
  · exact absurd hdelete (by simp)
  rename_i events hinsert
  cases hcustomer : db.customerOf cus with
  | none =>
      have hunknown : BillingDb.customerOf { db with events } cus = none := hcustomer
      simp only [BillingDb.applyCommand, BillingDb.markCustomerDeleted, hunknown,
        Except.ok.injEq, Prod.mk.injEq] at hdelete
      rw [← hdelete.1]
      refine ⟨Iff.rfl, ?_, fun _ ↦ rfl⟩
      rintro ⟨c, hc, _⟩
      exact absurd (hcustomer.symm.trans hc) (by simp)
  | some c =>
      have hlinked : db.Linked c.userId cus := ⟨c, hcustomer, rfl⟩
      have hfound : BillingDb.customerOf { db with events } cus = some c := hcustomer
      have hsame : BillingDb.requireActiveAccount { db with events } c.userId =
        db.requireActiveAccount c.userId := rfl
      simp only [BillingDb.applyCommand, BillingDb.markCustomerDeleted, hfound, hsame, bind,
        Except.bind] at hdelete
      cases hactive : db.requireActiveAccount c.userId with
      | error error =>
          rw [hactive] at hdelete
          cases error with
          | inactiveAccount =>
              obtain ⟨rfl, _⟩ := Prod.mk.inj (Except.ok.inj hdelete)
              refine ⟨Iff.rfl, fun hmine hok ↦ ?_, fun _ ↦ rfl⟩
              obtain rfl := hmine.unique hlinked
              exact absurd (hactive.symm.trans hok) (by simp)
          | database error => exact absurd hdelete (by simp)
          | invalidMapping => exact absurd hdelete (by simp)
      | ok _ =>
          rw [hactive] at hdelete
          obtain ⟨rfl, _⟩ := Prod.mk.inj (Except.ok.inj hdelete)
          have hkey : ∀ row, (UserSubscription.cancel metadata.createdAt now row).userId =
            row.userId := fun _ ↦ rfl
          refine ⟨?_, fun hmine _ ↦ ?_, fun hother ↦ ?_⟩
          · refine Iff.trans (BillingDb.Linked.reaches_iff ?_) hlinked.reaches_iff.symm
            refine BillingDb.Linked.modify ?_ ?_ hlinked
            exact fun _ ↦ rfl
          · obtain rfl := hmine.unique hlinked
            refine (Table.find?_modify hkey).trans (Option.map_congr fun row hfind ↦ ?_)
            have howner := (Table.find?_eq_some_iff.mp hfind).2
            simp [UserSubscription.cancelable, howner]
          · refine (Table.find?_modify hkey).trans ?_
            refine Eq.trans (Option.map_congr fun row hfind ↦ ?_) Option.map_id'
            have howner := (Table.find?_eq_some_iff.mp hfind).2
            have hne : row.userId ≠ c.userId := by
              intro heq
              rw [← howner, heq] at hother
              exact hother ⟨hlinked, hactive⟩
            simp [hne]

/-- `customer.deleted` cancels the row, or finds one that is canceled and
shut; where the customer does not reach the user, canceled is enough. -/
structure BillingDb.StaysCanceled (db : BillingDb) (u : Uuid) (cus : String) (t : ℤ) : Prop where
  reached : db.Reaches u cus → ∃ row, db.subscriptions.find? u = some row ∧
    (db.Linked u cus ∧ row.cancelable t = true ∨ row.status = some .canceled ∧ row.Shut t)
  unreached : ¬ db.Reaches u cus →
    ∀ row, db.subscriptions.find? u = some row → row.status = some .canceled

theorem deleted_customer_stays_canceled
    (hdelete : db.apply (.customerDeleted metadata cus) now = .ok (db', .applied effect)) :
    (∀ after, after ≠ [] → (∀ d ∈ after, Older cus metadata.createdAt d.command) →
      ∀ row, (webhooks.exec db' after).subscriptions.find? u = some row →
        row.status = some .canceled) ↔ db.StaysCanceled u cus metadata.createdAt := by
  obtain ⟨hreaches, hcancels, hleaves⟩ := find?_customerDeleted (u := u) hdelete
  constructor
  · intro hcanceled
    refine ⟨fun hreached ↦ ?_, fun hunreached row hrow ↦ ?_⟩
    · obtain ⟨sub, id, harrears⟩ :=
        (hreaches.mpr hreached).arrears metadata.createdAt now
      obtain ⟨row', hrow', hstatus, hshut⟩ := harrears fun row hrow ↦
        hcanceled _ (by simp) (older_reportArrears u cus sub id metadata.createdAt now) row hrow
      by_cases hlinked : db.Linked u cus
      · rw [hcancels hlinked hreached.1] at hrow'
        obtain ⟨row, hrow, rfl⟩ := Option.map_eq_some_iff.mp hrow'
        refine ⟨row, hrow, ?_⟩
        by_cases hcancelable : row.cancelable metadata.createdAt = true
        · exact Or.inl ⟨hlinked, hcancelable⟩
        · rw [if_neg hcancelable] at hstatus hshut
          exact Or.inr ⟨hstatus, hshut⟩
      · rw [hleaves fun h ↦ hlinked h.1] at hrow'
        exact ⟨row', hrow', Or.inr ⟨hstatus, hshut⟩⟩
    · have holder := older_reportArrears u cus "sub_1" "evt_1" metadata.createdAt now
      refine hcanceled _ (by simp) holder row ?_
      rw [find?_exec_older holder (Or.inl (hreaches.not.mpr hunreached)), hleaves ?_, hrow]
      exact fun h ↦ hunreached ⟨h.2, Or.inl h.1⟩
  · rintro ⟨hreached, hunreached⟩ after _ hafter row hrow
    by_cases hmine : db.Reaches u cus
    · obtain ⟨stored, hstored, hstate⟩ := hreached hmine
      have hafterwards : ∃ row', db'.subscriptions.find? u = some row' ∧
          row'.status = some .canceled ∧ row'.Shut metadata.createdAt := by
        by_cases hlinked : db.Linked u cus
        · rw [hcancels hlinked hmine.1, hstored]
          refine ⟨_, rfl, ?_⟩
          dsimp only
          by_cases hcancelable : stored.cancelable metadata.createdAt = true
          · rw [if_pos hcancelable]
            exact ⟨rfl, stored.shut_cancel _ now⟩
          · rw [if_neg hcancelable]
            exact hstate.resolve_left fun h ↦ hcancelable h.2
        · rw [hleaves fun h ↦ hlinked h.1]
          exact ⟨stored, hstored, hstate.resolve_left fun h ↦ hlinked h.1⟩
      obtain ⟨row', hrow', hstatus, hshut⟩ := hafterwards
      rw [find?_exec_older hafter (Or.inr ⟨row', hrow', hshut⟩), hrow'] at hrow
      rw [← Option.some.inj hrow]
      exact hstatus
    · rw [find?_exec_older hafter (Or.inl (hreaches.not.mpr hmine)), hleaves ?_] at hrow
      · exact hunreached hmine row hrow
      · exact fun h ↦ hmine ⟨h.2, Or.inl h.1⟩

end Deletion

def sampleDeletion : WebhookMetadata :=
  ⟨"evt_deleted", "customer.deleted", some "cus_1", false, none, seconds 20⟩

def earlySubscription : Delivery :=
  ⟨.subscription (sampleMetadata "evt_1" (seconds 10)) (sampleProjection .active (seconds 10)),
    seconds 31⟩

def earlyInvoice : Delivery :=
  ⟨.invoice (sampleMetadata "evt_2" (seconds 15)) (sampleProjection .active (seconds 15))
    (sampleInvoice "paid" (seconds 15)) false, seconds 32⟩

/-- The customer is known from its checkout, and no webhook of it has come. -/
def knownCustomer : BillingDb :=
  { oneAccount with customers := ⟨[⟨1, "cus_1", none, none, 0, none, 0⟩], by decide⟩ }

theorem deleted_customer_reactivated :
    Older "cus_1" sampleDeletion.createdAt earlySubscription.command ∧
      ((webhooks.exec knownCustomer [⟨.customerDeleted sampleDeletion "cus_1", seconds 30⟩,
        earlySubscription]).subscriptions.find? 1).bind UserSubscription.status =
          some .active :=
  ⟨⟨_, rfl, rfl, by decide⟩, by decide +kernel⟩

/-- The subscription is delivered before the deletion, and an invoice after
it. -/
theorem deleted_customer_stays_canceled_lateInvoice :
    ((webhooks.exec knownCustomer
        ([earlySubscription, ⟨.customerDeleted sampleDeletion "cus_1", seconds 30⟩] ++
          [earlyInvoice])).subscriptions.find? 1).isSome = true ∧
    ∀ row, (webhooks.exec knownCustomer
        ([earlySubscription, ⟨.customerDeleted sampleDeletion "cus_1", seconds 30⟩] ++
          [earlyInvoice])).subscriptions.find? 1 = some row →
      row.status = some .canceled := by
  have hafter : ∀ d ∈ [earlyInvoice], Older "cus_1" sampleDeletion.createdAt d.command := by
    intro d hd
    rw [List.mem_singleton.mp hd]
    exact ⟨_, rfl, rfl, by decide⟩
  have hdelete : (webhooks.exec knownCustomer [earlySubscription]).apply
      (.customerDeleted sampleDeletion "cus_1") (seconds 30) =
    .ok (webhooks.exec knownCustomer [earlySubscription,
      ⟨.customerDeleted sampleDeletion "cus_1", seconds 30⟩],
      .applied (some ⟨1, some .canceled⟩)) := rfl
  have hlinked : (webhooks.exec knownCustomer [earlySubscription]).Linked 1 "cus_1" :=
    ⟨_, rfl, rfl⟩
  have hreaches : (webhooks.exec knownCustomer [earlySubscription]).Reaches 1 "cus_1" :=
    ⟨rfl, Or.inl hlinked⟩
  refine ⟨rfl, ?_⟩
  rw [System.exec_append]
  refine (deleted_customer_stays_canceled hdelete).mpr ⟨fun _ ↦ ?_, fun h ↦ absurd hreaches h⟩ _
    (by simp) hafter
  exact ⟨_, rfl, Or.inl ⟨hlinked, rfl⟩⟩

end Histae.Billing
