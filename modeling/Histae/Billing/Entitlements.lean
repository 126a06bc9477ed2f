import Mathlib
import Histae.Billing.StoreRuns
import Histae.Billing.Checkouts
import Histae.Matches.Domain
import Histae.Relational.Distinct

/-!
# Premium access

`effective_subscription_at` gathers the candidates of every source and keeps
one row for each user, by a key of six columns. The other definitions of
access (`effective_plan_on`, `has_active_subscription`, the check before a
purchase and `SubscriptionView::from_row`) are compared with it. Two
candidates may agree in all six columns, and then either of them is a
possible answer.
-/

namespace Histae.Billing

open Relational

/-- The texts of the column `status` of all sources. -/
inductive EffectiveStatus
  | incomplete
  | incompleteExpired
  | trialing
  | active
  | pastDue
  | canceled
  | unpaid
  | paused
  | pending
  | gracePeriod
  | onHold
  | expired
  | revoked
  deriving DecidableEq

def StripeSubscriptionStatus.effective : StripeSubscriptionStatus → EffectiveStatus
  | .incomplete => .incomplete
  | .incompleteExpired => .incompleteExpired
  | .trialing => .trialing
  | .active => .active
  | .pastDue => .pastDue
  | .canceled => .canceled
  | .unpaid => .unpaid
  | .paused => .paused

def StoreStatus.effective : StoreStatus → EffectiveStatus
  | .pending => .pending
  | .active => .active
  | .gracePeriod => .gracePeriod
  | .pastDue => .pastDue
  | .onHold => .onHold
  | .paused => .paused
  | .canceled => .canceled
  | .expired => .expired
  | .revoked => .revoked

def StoreProvider.effective : StoreProvider → SubscriptionProvider
  | .appStore => .appStore
  | .googlePlay => .googlePlay

structure SubscriptionPlan where
  code : String
  weeklyContinuationLimit : Option ℕ
  deriving DecidableEq

/-- A row of `complimentary_premium_grant`. -/
structure ComplimentaryGrant where
  userId : Uuid
  grantedAt : ℤ
  deriving DecidableEq

structure AccessDb where
  members : Table UserAccount.userId
  subscriptions : Table UserSubscription.userId
  purchases : Table StoreSubscription.purchase
  gifts : Table ComplimentaryGrant.userId
  plans : Table SubscriptionPlan.code
  checkouts : Table CheckoutAttempt.id

structure EffectiveSubscription where
  userId : Uuid
  plan : String
  provider : Option SubscriptionProvider
  providerSubscriptionId : Option String
  providerPriceId : Option String
  billingPeriod : Option BillingPeriod
  status : Option EffectiveStatus
  cancelAtPeriodEnd : Bool
  currentPeriodStartsAt : Option ℤ
  currentPeriodEndsAt : Option ℤ
  trialEndsAt : Option ℤ
  canceledAt : Option ℤ
  accessGranted : Bool
  providerEventCreatedAt : Option ℤ
  updatedAt : ℤ
  deriving DecidableEq

/-- The internal grant or the Stripe projection gives access; a comparison
with a null is not true. -/
def UserSubscription.grants (at_ : ℤ) (row : UserSubscription) : Bool :=
  row.plan = "premium" &&
    (row.provider = none && row.currentPeriodEndsAt.all (fun t ↦ at_ < t) ||
      row.provider = some .stripe &&
        row.status.any (fun status ↦ status = .trialing || status = .active || status = .pastDue) &&
        row.currentPeriodEndsAt.any (fun t ↦ at_ < t))

def UserSubscription.candidate (at_ : ℤ) (row : UserSubscription) : EffectiveSubscription where
  userId := row.userId
  plan := row.plan
  provider := row.provider
  providerSubscriptionId := row.providerSubscriptionId
  providerPriceId := row.providerPriceId
  billingPeriod := row.billingPeriod
  status := row.status.map StripeSubscriptionStatus.effective
  cancelAtPeriodEnd := row.cancelAtPeriodEnd
  currentPeriodStartsAt := row.currentPeriodStartsAt
  currentPeriodEndsAt := row.currentPeriodEndsAt
  trialEndsAt := row.trialEndsAt
  canceledAt := row.canceledAt
  accessGranted := row.grants at_
  providerEventCreatedAt := row.providerEventCreatedAt
  updatedAt := row.updatedAt

def StoreSubscription.grants (at_ : ℤ) (row : StoreSubscription) : Bool :=
  row.startsAt ≤ at_ && at_ < row.expiresAt &&
    (row.status = .active || row.status = .gracePeriod ||
      row.provider = .googlePlay && row.status = .canceled)

/-- The candidate of a purchase that has a user and was not replaced. -/
def StoreSubscription.candidate? (at_ : ℤ) (row : StoreSubscription) :
    Option EffectiveSubscription :=
  if row.superseded then none
  else row.userId.map fun userId ↦
    { userId
      plan := "premium"
      provider := some row.provider.effective
      providerSubscriptionId := some row.originalId
      providerPriceId := some row.productId
      billingPeriod := some row.billingPeriod
      status := some row.status.effective
      cancelAtPeriodEnd := !row.autoRenew
      currentPeriodStartsAt := some row.startsAt
      currentPeriodEndsAt := some row.expiresAt
      trialEndsAt := none
      canceledAt := if row.autoRenew then none else some row.verifiedAt
      accessGranted := row.grants at_
      providerEventCreatedAt := some row.verifiedAt
      updatedAt := row.verifiedAt }

/-- The start of review access or of a gift. -/
def UserAccount.complimentarySince (gifts : Table ComplimentaryGrant.userId) (m : UserAccount) :
    Option ℤ :=
  if m.isReviewAccount then some m.createdAt
  else (gifts.find? m.userId).map ComplimentaryGrant.grantedAt

/-- `complimentary_accounts` for one account. -/
def UserAccount.complimentary? (gifts : Table ComplimentaryGrant.userId) (at_ : ℤ)
    (m : UserAccount) : Option ℤ :=
  (m.complimentarySince gifts).filter fun startsAt ↦
    (m.isReviewAccount && m.role = .user || (gifts.find? m.userId).isSome) && !m.isBanned &&
      m.deletedAt.isNone && startsAt ≤ at_

def UserAccount.candidate? (gifts : Table ComplimentaryGrant.userId) (at_ : ℤ) (m : UserAccount) :
    Option EffectiveSubscription :=
  (m.complimentary? gifts at_).map fun startsAt ↦
    { userId := m.userId
      plan := "premium"
      provider := none
      providerSubscriptionId := none
      providerPriceId := none
      billingPeriod := none
      status := none
      cancelAtPeriodEnd := false
      currentPeriodStartsAt := some startsAt
      currentPeriodEndsAt := none
      trialEndsAt := none
      canceledAt := none
      accessGranted := true
      providerEventCreatedAt := none
      updatedAt := startsAt }

namespace EffectiveStatus

/-- The statuses that the order prefers. -/
def isOngoing : EffectiveStatus → Bool
  | pending | incomplete | trialing | active | gracePeriod | pastDue | onHold | paused | unpaid =>
      true
  | _ => false

end EffectiveStatus

namespace EffectiveSubscription

/-- The six columns of `ORDER BY` after the user: false precedes true, nulls
stand where the statement puts them. -/
def rank (c : EffectiveSubscription) :
    Bool ×ₗ ℕ ×ₗ Bool ×ₗ WithBot ℤᵒᵈ ×ₗ ℤᵒᵈ ×ₗ ℕ :=
  toLex (!c.accessGranted, toLex (statusRank, toLex (decide (c.plan ≠ "premium"),
    toLex (c.currentPeriodEndsAt.map OrderDual.toDual,
      toLex (OrderDual.toDual c.updatedAt, providerRank)))))
where
  statusRank : ℕ :=
    match c.status with
    | some status => if status.isOngoing then 0 else 1
    | none => 2
  providerRank : ℕ :=
    match c.provider with
    | none => 0
    | some .appStore => 1
    | some .googlePlay => 2
    | some .stripe => 3

end EffectiveSubscription

namespace AccessDb

variable (db : AccessDb)

/-- `subscription_candidates`, of one user or of all. -/
def candidates (userId : Option Uuid) (at_ : ℤ) : List EffectiveSubscription :=
  ((db.subscriptions.rows.filter fun row ↦ userId.all fun u ↦ row.userId = u).map
    (UserSubscription.candidate at_)) ++
  ((db.purchases.rows.filter fun row ↦ userId.all fun u ↦ row.userId = some u).filterMap
    (StoreSubscription.candidate? at_)) ++
  ((db.members.rows.filter fun m ↦ userId.all fun u ↦ m.userId = u).filterMap
    (UserAccount.candidate? db.gifts at_))

/-- A possible answer of `effective_subscription_at`. -/
def IsEffectiveSubscriptionAt (userId : Option Uuid) (at_ : ℤ)
    (answer : List EffectiveSubscription) : Prop :=
  DistinctOn EffectiveSubscription.userId EffectiveSubscription.rank (db.candidates userId at_) answer

/-- One of them. -/
def effectiveSubscriptionAt (userId : Option Uuid) (at_ : ℤ) : List EffectiveSubscription :=
  distinctOn EffectiveSubscription.userId EffectiveSubscription.rank (db.candidates userId at_)

theorem isEffectiveSubscriptionAt_self (userId : Option Uuid) (at_ : ℤ) :
    db.IsEffectiveSubscriptionAt userId at_ (db.effectiveSubscriptionAt userId at_) :=
  distinctOn_spec _ _ _

instance (userId : Option Uuid) (at_ : ℤ) (answer : List EffectiveSubscription) :
    Decidable (db.IsEffectiveSubscriptionAt userId at_ answer) :=
  inferInstanceAs (Decidable (DistinctOn EffectiveSubscription.userId EffectiveSubscription.rank
    (db.candidates userId at_) answer))

/-- `effective_plan_on`, over the answer it meets. -/
def effectivePlanOn (answer : List EffectiveSubscription) (now : ℤ) :
    Option Matches.EffectivePlan :=
  let code := ((answer.find? fun s ↦ s.accessGranted || s.plan = "free" ||
    s.provider = none && s.currentPeriodEndsAt.all fun t ↦ now < t).map
      EffectiveSubscription.plan).getD "free"
  (db.plans.find? code).map fun plan ↦ ⟨plan.code, plan.weeklyContinuationLimit⟩

def hasActiveSubscription (answer : List EffectiveSubscription) (userId : Uuid) (now : ℤ) : Bool :=
  (db.subscriptions.rows.any fun row ↦ row.userId = userId && row.plan = "premium" &&
    (row.provider = none && row.currentPeriodEndsAt.all (fun t ↦ now < t) ||
      row.provider = some .stripe && row.status.any fun status ↦
        status = .incomplete || status = .trialing || status = .active || status = .pastDue ||
          status = .unpaid || status = .paused)) ||
  answer.any EffectiveSubscription.accessGranted ||
  db.purchases.rows.any fun row ↦ row.userId = some userId && isOngoingPurchase row.status
where
  isOngoingPurchase : StoreStatus → Bool
    | .pending | .active | .gracePeriod | .pastDue | .onHold | .paused => true
    | _ => false

/-- `PURCHASE_BUSY_SQL`, over the answer that the view gives. -/
def purchaseBusy (answer : List EffectiveSubscription) (userId : Uuid) (clock : ℤ) : Bool :=
  (answer.any fun s ↦ s.userId = userId && s.accessGranted) ||
  (db.purchases.rows.any fun row ↦ row.userId = some userId &&
    hasActiveSubscription.isOngoingPurchase row.status) ||
  (db.subscriptions.rows.any fun row ↦ row.userId = userId && row.provider = some .stripe &&
    row.status.any fun status ↦
      status = .incomplete || status = .trialing || status = .active || status = .pastDue ||
        status = .unpaid || status = .paused) ||
  db.checkouts.rows.any fun c ↦ c.userId = userId && clock < c.expiresAt &&
    (c.status = .creating || c.status = .open ||
      c.status = .failed && c.stripeCheckoutRequest.isSome)

end AccessDb

/-- The row that the billing service reads. -/
structure SubscriptionRow where
  plan : String
  provider : Option SubscriptionProvider
  billingPeriod : Option BillingPeriod
  status : Option StripeSubscriptionStatus
  cancelAtPeriodEnd : Bool
  currentPeriodStartsAt : Option ℤ
  currentPeriodEndsAt : Option ℤ
  trialEndsAt : Option ℤ
  canceledAt : Option ℤ
  deriving DecidableEq

structure SubscriptionView where
  plan : String
  provider : Option SubscriptionProvider
  status : Option StripeSubscriptionStatus
  accessGranted : Bool
  billingPeriod : Option BillingPeriod
  cancelAtPeriodEnd : Bool
  currentPeriodStartsAt : Option ℤ
  currentPeriodEndsAt : Option ℤ
  trialEndsAt : Option ℤ
  canceledAt : Option ℤ
  customerPortalAvailable : Bool
  managementUrl : Option String
  deriving DecidableEq

def UserSubscription.row (s : UserSubscription) : SubscriptionRow :=
  ⟨s.plan, s.provider, s.billingPeriod, s.status, s.cancelAtPeriodEnd, s.currentPeriodStartsAt,
    s.currentPeriodEndsAt, s.trialEndsAt, s.canceledAt⟩

def SubscriptionView.fromRow (row : SubscriptionRow) (now : ℤ) (portal : Bool) :
    SubscriptionView :=
  let withinPeriod := match row.provider with
    | none => row.currentPeriodEndsAt.all fun t ↦ now < t
    | some _ => row.currentPeriodEndsAt.any fun t ↦ now < t
  let providerGrants := row.provider.all fun _ ↦
    row.status.any StripeSubscriptionStatus.grantsAccess
  let accessGranted := row.plan = "premium" && withinPeriod && providerGrants
  { plan := if accessGranted then "premium" else "free"
    provider := row.provider
    status := row.status
    accessGranted
    billingPeriod := row.billingPeriod
    cancelAtPeriodEnd := row.cancelAtPeriodEnd
    currentPeriodStartsAt := row.currentPeriodStartsAt
    currentPeriodEndsAt := row.currentPeriodEndsAt
    trialEndsAt := row.trialEndsAt
    canceledAt := row.canceledAt
    customerPortalAvailable := portal
    managementUrl := none }

/-- A source gives the user access: the internal or Stripe row, a purchase
that was not replaced, a review account or a gift. -/
def AccessDb.Grants (db : AccessDb) (userId : Uuid) (at_ : ℤ) : Prop :=
  (∃ row ∈ db.subscriptions, row.userId = userId ∧ row.grants at_ = true) ∨
  (∃ row ∈ db.purchases, row.userId = some userId ∧ row.superseded = false ∧
    row.grants at_ = true) ∨
  ∃ m ∈ db.members, m.userId = userId ∧ m.isBanned = false ∧ m.deletedAt = none ∧
    (m.isReviewAccount = true ∧ m.createdAt ≤ at_ ∨
      m.isReviewAccount = false ∧ ∃ gift ∈ db.gifts, gift.userId = userId ∧ gift.grantedAt ≤ at_)

section Candidates

variable {db : AccessDb} {userId : Uuid} {at_ : ℤ} {c : EffectiveSubscription}

theorem candidate?_eq_some {row : StoreSubscription} (h : row.candidate? at_ = some c) :
    row.superseded = false ∧ row.userId = some c.userId ∧ c.accessGranted = row.grants at_ ∧
      c.plan = "premium" ∧ c.provider = some row.provider.effective := by
  unfold StoreSubscription.candidate? at h
  split at h
  · exact absurd h (by simp)
  · rename_i hsuperseded
    obtain ⟨u, huser, rfl⟩ := Option.map_eq_some_iff.mp h
    exact ⟨by simpa using hsuperseded, huser, rfl, rfl, rfl⟩

theorem complimentary_candidate {m : UserAccount}
    (h : m.candidate? db.gifts at_ = some c) :
    c.userId = m.userId ∧ c.accessGranted = true ∧ c.plan = "premium" := by
  obtain ⟨startsAt, _, rfl⟩ := Option.map_eq_some_iff.mp h
  exact ⟨rfl, rfl, rfl⟩

theorem complimentary_isSome {m : UserAccount} :
    (m.complimentary? db.gifts at_).isSome = true ↔ m.isBanned = false ∧ m.deletedAt = none ∧
      (m.isReviewAccount = true ∧ m.createdAt ≤ at_ ∨ m.isReviewAccount = false ∧
        ∃ gift ∈ db.gifts, gift.userId = m.userId ∧ gift.grantedAt ≤ at_) := by
  unfold UserAccount.complimentary? UserAccount.complimentarySince
  by_cases hreview : m.isReviewAccount = true
  · have hrole := m.review_role_check hreview
    simp [hreview, hrole, Option.filter, and_assoc]
  · cases hgift : db.gifts.find? m.userId with
    | none =>
        have hmissing := Table.find?_eq_none_iff.mp hgift
        simp only [hreview, Bool.false_eq_true, if_false, Option.map_none, Option.filter_none,
          Option.isSome_none, false_and, false_or] at hreview ⊢
        constructor
        · intro h
          exact h.elim
        · rintro ⟨_, _, _, gift, hmem, huser, _⟩
          exact hmissing gift hmem huser
    | some gift =>
        obtain ⟨hmem, huser⟩ := Table.find?_eq_some_iff.mp hgift
        have hunique : (∃ other ∈ db.gifts, other.userId = m.userId ∧ other.grantedAt ≤ at_) ↔
            gift.grantedAt ≤ at_ := by
          constructor
          · rintro ⟨other, hother, hsame, hstart⟩
            rwa [Table.eq_of_key_eq hother hmem (hsame.trans huser.symm)] at hstart
          · intro hstart
            exact ⟨gift, hmem, huser, hstart⟩
        rw [hunique]
        simp [hreview, Option.filter, and_assoc]

/-- Selecting before or after the conversion of the rows is the same when
the two conditions agree. -/
theorem filterMap_filter_eq {α β : Type} {f : α → Option β} {p : α → Bool} {q : β → Bool}
    (rows : List α) (h : ∀ a b, f a = some b → p a = q b) :
    (rows.filter p).filterMap f = (rows.filterMap f).filter q := by
  rw [List.filterMap_filter, List.filter_filterMap]
  refine List.filterMap_congr fun a _ ↦ ?_
  cases hf : f a with
  | none => simp
  | some b =>
      rw [h a b hf]
      cases hq : q b <;> simp [Option.filter, hq]

theorem candidates_some (db : AccessDb) (userId : Uuid) (at_ : ℤ) :
    db.candidates (some userId) at_ =
      (db.candidates none at_).filter fun c ↦ c.userId = userId := by
  simp only [AccessDb.candidates, List.filter_append, Option.all_some, Option.all_none,
    List.filter_true]
  congr 1
  · congr 1
    · rw [List.filter_map]
      rfl
    · refine filterMap_filter_eq _ fun row c hc ↦ ?_
      rw [(candidate?_eq_some hc).2.1]
      simp
  · refine filterMap_filter_eq _ fun m c hc ↦ ?_
    rw [(complimentary_candidate hc).1]

theorem mem_candidates : c ∈ db.candidates (some userId) at_ ↔
    (∃ row ∈ db.subscriptions, row.userId = userId ∧ row.candidate at_ = c) ∨
    (∃ row ∈ db.purchases, row.userId = some userId ∧ row.candidate? at_ = some c) ∨
    ∃ m ∈ db.members, m.userId = userId ∧ m.candidate? db.gifts at_ = some c := by
  simp only [AccessDb.candidates, List.mem_append, List.mem_map, List.mem_filterMap,
    List.mem_filter, Option.all_some, decide_eq_true_eq, Table.mem_rows, and_assoc, or_assoc]

theorem userId_of_mem_candidates (h : c ∈ db.candidates (some userId) at_) : c.userId = userId := by
  rw [candidates_some, List.mem_filter] at h
  simpa using h.2

/-- Access is granted to a candidate exactly when some source grants it. -/
theorem exists_granted_candidate :
    (∃ c ∈ db.candidates (some userId) at_, c.accessGranted = true) ↔ db.Grants userId at_ := by
  constructor
  · rintro ⟨c, hc, hgranted⟩
    rcases mem_candidates.mp hc with ⟨row, hrow, huser, rfl⟩ | ⟨row, hrow, huser, hcandidate⟩ |
      ⟨m, hm, huser, hcandidate⟩
    · exact Or.inl ⟨row, hrow, huser, hgranted⟩
    · obtain ⟨hsuperseded, _, haccess, _⟩ := candidate?_eq_some hcandidate
      exact Or.inr (Or.inl ⟨row, hrow, huser, hsuperseded, haccess.symm.trans hgranted⟩)
    · obtain ⟨startsAt, hstarts, _⟩ := Option.map_eq_some_iff.mp hcandidate
      have hsome := complimentary_isSome.mp (Option.isSome_iff_exists.mpr ⟨startsAt, hstarts⟩)
      subst huser
      exact Or.inr (Or.inr ⟨m, hm, rfl, hsome⟩)
  · rintro (⟨row, hrow, huser, hgrants⟩ | ⟨row, hrow, huser, hsuperseded, hgrants⟩ |
      ⟨m, hm, rfl, hcomplimentary⟩)
    · exact ⟨_, mem_candidates.mpr (Or.inl ⟨row, hrow, huser, rfl⟩), hgrants⟩
    · obtain ⟨c, hcandidate⟩ : ∃ c, row.candidate? at_ = some c := by
        simp [StoreSubscription.candidate?, hsuperseded, huser]
      refine ⟨c, mem_candidates.mpr (Or.inr (Or.inl ⟨row, hrow, huser, hcandidate⟩)), ?_⟩
      rw [(candidate?_eq_some hcandidate).2.2.1, hgrants]
    · obtain ⟨startsAt, hstarts⟩ :=
        Option.isSome_iff_exists.mp (complimentary_isSome.mpr hcomplimentary)
      obtain ⟨c, hcandidate⟩ : ∃ c, m.candidate? db.gifts at_ = some c := by
        simp [UserAccount.candidate?, hstarts]
      exact ⟨c, mem_candidates.mpr (Or.inr (Or.inr ⟨m, hm, rfl, hcandidate⟩)),
        (complimentary_candidate hcandidate).2.1⟩

/-- Only the plan `premium` is granted. -/
theorem plan_of_accessGranted (h : c ∈ db.candidates (some userId) at_)
    (hgranted : c.accessGranted = true) : c.plan = "premium" := by
  rcases mem_candidates.mp h with ⟨row, _, _, rfl⟩ | ⟨row, _, _, hcandidate⟩ | ⟨m, _, _, hcandidate⟩
  · simp only [UserSubscription.candidate, UserSubscription.grants, Bool.and_eq_true,
      decide_eq_true_eq] at hgranted
    exact hgranted.1
  · exact (candidate?_eq_some hcandidate).2.2.2.1
  · exact (complimentary_candidate hcandidate).2.2

/-- An unexpired row of an internal plan that is not granted is of another
plan. -/
theorem plan_of_internal (h : c ∈ db.candidates (some userId) at_)
    (hgranted : c.accessGranted = false) (hprovider : c.provider = none)
    (hends : c.currentPeriodEndsAt.all (fun t ↦ at_ < t) = true) :
    c.plan ≠ "premium" ∧ ∃ row ∈ db.subscriptions, row.plan = c.plan := by
  rcases mem_candidates.mp h with ⟨row, hrow, _, rfl⟩ | ⟨row, _, _, hcandidate⟩ |
    ⟨m, _, _, hcandidate⟩
  · refine ⟨fun hplan ↦ ?_, row, hrow, rfl⟩
    have hgrants : row.grants at_ = true := by
      simp only [UserSubscription.candidate] at hplan hprovider hends
      simp [UserSubscription.grants, hplan, hprovider, hends]
    exact absurd (hgrants.symm.trans hgranted) (by simp)
  · rw [(candidate?_eq_some hcandidate).2.2.2.2] at hprovider
    exact absurd hprovider (by simp)
  · rw [(complimentary_candidate hcandidate).2.1] at hgranted
    exact absurd hgranted (by simp)

theorem accessGranted_of_rank_le {c d : EffectiveSubscription} (h : c.rank ≤ d.rank)
    (hd : d.accessGranted = true) : c.accessGranted = true := by
  have hfirst : (!c.accessGranted) ≤ !d.accessGranted := (Prod.Lex.le_iff'.mp h).1
  rw [hd] at hfirst
  cases hc : c.accessGranted with
  | true => rfl
  | false =>
      rw [hc] at hfirst
      exact absurd hfirst (by decide)

/-- Rows of equal rank agree in every column of the order. -/
theorem columns_of_rank_eq {c d : EffectiveSubscription} (h : c.rank = d.rank) :
    c.accessGranted = d.accessGranted ∧
      c.status.map EffectiveStatus.isOngoing = d.status.map EffectiveStatus.isOngoing ∧
      (c.plan = "premium" ↔ d.plan = "premium") ∧
      c.currentPeriodEndsAt = d.currentPeriodEndsAt ∧ c.updatedAt = d.updatedAt ∧
      c.provider = d.provider := by
  simp only [EffectiveSubscription.rank, EmbeddingLike.apply_eq_iff_eq, Prod.mk.injEq] at h
  obtain ⟨haccess, hstatus, hplan, hrest⟩ := h
  obtain ⟨hends, hlast⟩ := Prod.mk.inj hrest
  obtain ⟨hupdated, hprovider⟩ := Prod.mk.inj (toLex.injective hlast)
  refine ⟨by simpa using haccess, ?_, by simpa using hplan, ?_, hupdated, ?_⟩
  · unfold EffectiveSubscription.rank.statusRank at hstatus
    cases hc : c.status with
    | none =>
        cases hd : d.status with
        | none => rfl
        | some status => cases hongoing : status.isOngoing <;> simp [hc, hd, hongoing] at hstatus
    | some status =>
        cases hd : d.status with
        | none => cases hongoing : status.isOngoing <;> simp [hc, hd, hongoing] at hstatus
        | some status' =>
            cases hongoing : status.isOngoing <;> cases hongoing' : status'.isOngoing <;>
              simp [hc, hd, hongoing, hongoing'] at hstatus ⊢
  · exact Option.map_injective OrderDual.toDual.injective hends
  · unfold EffectiveSubscription.rank.providerRank at hprovider
    split at hprovider <;> split at hprovider <;> simp_all

end Candidates

section Agreement

variable {db : AccessDb} {userId : Uuid} {at_ : ℤ} {answer all : List EffectiveSubscription}

/-- The catalogue has an unlimited plan `premium` and a limited plan `free`,
no other unlimited plan, and every plan that a subscription names. -/
structure AccessDb.Catalogue (db : AccessDb) : Prop where
  premium : db.plans.find? "premium" = some ⟨"premium", none⟩
  free : ∃ limit, db.plans.find? "free" = some ⟨"free", some limit⟩
  limited : ∀ plan ∈ db.plans, plan.weeklyContinuationLimit = none → plan.code = "premium"
  foreignKey : ∀ row ∈ db.subscriptions, ∃ plan ∈ db.plans, plan.code = row.plan

/-- A row of the answer is granted exactly when a source grants access. -/
theorem exists_granted_row (h : db.IsEffectiveSubscriptionAt (some userId) at_ answer) :
    (∃ s ∈ answer, s.accessGranted = true) ↔ db.Grants userId at_ := by
  rw [← exists_granted_candidate]
  have hiff := h.exists_iff (P := fun c ↦ c.accessGranted = true) userId
    fun c d ↦ accessGranted_of_rank_le
  constructor
  · rintro ⟨s, hs, hgranted⟩
    exact ⟨s, (h.first s hs).1, hgranted⟩
  · rintro ⟨c, hc, hgranted⟩
    obtain ⟨s, hs, _, haccess⟩ := hiff.mpr ⟨c, hc, userId_of_mem_candidates hc, hgranted⟩
    exact ⟨s, hs, haccess⟩

/-- The part of the unrestricted answer that belongs to the user is an answer
of the restricted call. -/
theorem isEffectiveSubscriptionAt_filter (h : db.IsEffectiveSubscriptionAt none at_ all)
    (userId : Uuid) :
    db.IsEffectiveSubscriptionAt (some userId) at_ (all.filter fun s ↦ s.userId = userId) := by
  rw [AccessDb.IsEffectiveSubscriptionAt, candidates_some]
  exact h.filter userId

theorem length_effectiveSubscriptionAt (h : db.IsEffectiveSubscriptionAt (some userId) at_ answer) :
    answer.length ≤ 1 :=
  h.length_le_one fun _ hc ↦ userId_of_mem_candidates hc

/-- The plan is unlimited exactly when access is granted. -/
theorem effectivePlanOn_unlimited (hplans : db.Catalogue)
    (h : db.IsEffectiveSubscriptionAt (some userId) at_ answer) :
    ∃ plan, db.effectivePlanOn answer at_ = some plan ∧
      (plan.weeklyCredits = none ↔ db.Grants userId at_) := by
  rw [← exists_granted_row h]
  obtain ⟨limit, hfree⟩ := hplans.free
  cases hfind : answer.find? fun s ↦ s.accessGranted || s.plan = "free" ||
      s.provider = none && s.currentPeriodEndsAt.all fun t ↦ at_ < t with
  | none =>
      have hrejected := List.find?_eq_none.mp hfind
      refine ⟨⟨"free", some limit⟩, by simp [AccessDb.effectivePlanOn, hfind, hfree], ?_⟩
      constructor
      · intro hunlimited
        exact absurd hunlimited (by simp)
      · rintro ⟨s, hs, hgranted⟩
        exact absurd (hrejected s hs) (by simp [hgranted])
  | some s =>
      have hs := List.mem_of_find?_eq_some hfind
      have hmem := (h.first s hs).1
      have hsingle : (∃ r ∈ answer, r.accessGranted = true) ↔ s.accessGranted = true := by
        constructor
        · rintro ⟨r, hr, hgranted⟩
          have hsame : r = s := h.eq_of_group_eq hr hs
            ((userId_of_mem_candidates (h.first r hr).1).trans
              (userId_of_mem_candidates hmem).symm)
          rwa [hsame] at hgranted
        · intro hgranted
          exact ⟨s, hs, hgranted⟩
      rw [hsingle]
      have hcode : db.effectivePlanOn answer at_ = (db.plans.find? s.plan).map fun plan ↦
          ⟨plan.code, plan.weeklyContinuationLimit⟩ := by
        simp [AccessDb.effectivePlanOn, hfind]
      rw [hcode]
      cases hgranted : s.accessGranted with
      | true =>
          rw [plan_of_accessGranted hmem hgranted, hplans.premium]
          exact ⟨_, rfl, by simp⟩
      | false =>
          have hselected := List.find?_some hfind
          simp only [hgranted, Bool.false_or, Bool.or_eq_true, Bool.and_eq_true,
            decide_eq_true_eq] at hselected
          rcases hselected with hplan | ⟨hprovider, hends⟩
          · rw [hplan, hfree]
            exact ⟨_, rfl, by simp⟩
          · obtain ⟨hother, row, hrow, hplan⟩ := plan_of_internal hmem hgranted hprovider hends
            obtain ⟨plan, hplanMem, hplanCode⟩ := hplans.foreignKey row hrow
            have hstored : db.plans.find? s.plan = some plan := by
              rw [← hplan, ← hplanCode]
              exact Table.find?_key hplanMem
            refine ⟨⟨plan.code, plan.weeklyContinuationLimit⟩, by rw [hstored]; rfl, ?_⟩
            constructor
            · intro hunlimited
              have hpremium := hplans.limited plan hplanMem hunlimited
              exact absurd (hplan.symm.trans (hplanCode.symm.trans hpremium)) hother
            · intro hfalse
              exact absurd hfalse (by simp)

theorem fromRow_grants (row : UserSubscription) (now : ℤ) (portal : Bool) :
    (SubscriptionView.fromRow row.row now portal).accessGranted =
      (row.candidate now).accessGranted := by
  have hstatus : ∀ status : StripeSubscriptionStatus,
      (status = .trialing || status = .active || status = .pastDue : Bool) =
        status.grantsAccess := by
    intro status
    cases status <;> rfl
  simp only [SubscriptionView.fromRow, UserSubscription.row, UserSubscription.candidate,
    UserSubscription.grants, hstatus]
  by_cases hplan : row.plan = "premium"
  · rcases row.provider_check with hprovider | hprovider
    · simp [hplan, hprovider]
    · simp only [hplan, hprovider, Option.all_some, decide_true, Bool.true_and, reduceCtorEq,
        decide_false, Bool.false_and, Bool.false_or]
      exact Bool.and_comm _ _
  · simp [hplan]

/-- All definitions of access agree, up to rows of equal rank. -/
theorem access_definitions_agree (hplans : db.Catalogue)
    (h : db.IsEffectiveSubscriptionAt (some userId) at_ answer)
    (hall : db.IsEffectiveSubscriptionAt none at_ all) :
    answer.length ≤ 1 ∧ (∀ s ∈ answer, s.userId = userId) ∧
    ((∃ s ∈ answer, s.accessGranted = true) ↔ db.Grants userId at_) ∧
    (all.filter fun s ↦ s.userId = userId).length = answer.length ∧
    (∀ s ∈ answer, ∀ r ∈ all, r.userId = userId → s.accessGranted = r.accessGranted ∧
      s.status.map EffectiveStatus.isOngoing = r.status.map EffectiveStatus.isOngoing ∧
      (s.plan = "premium" ↔ r.plan = "premium") ∧
      s.currentPeriodEndsAt = r.currentPeriodEndsAt ∧ s.updatedAt = r.updatedAt ∧
      s.provider = r.provider) ∧
    ((∀ c ∈ db.candidates (some userId) at_, ∀ d ∈ db.candidates (some userId) at_,
      c.rank = d.rank → c = d) → (all.filter fun s ↦ s.userId = userId) = answer) ∧
    (∃ plan, db.effectivePlanOn answer at_ = some plan ∧
      (plan.weeklyCredits = none ↔ db.Grants userId at_)) ∧
    (db.Grants userId at_ → db.hasActiveSubscription answer userId at_ = true ∧
      ∀ clock, db.purchaseBusy all userId clock = true) ∧
    ∀ row ∈ db.subscriptions, ∀ portal,
      (SubscriptionView.fromRow row.row at_ portal).accessGranted =
        (row.candidate at_).accessGranted := by
  have hfiltered := isEffectiveSubscriptionAt_filter hall userId
  have hgranted := exists_granted_row h
  have huser : ∀ s ∈ answer, s.userId = userId :=
    fun s hs ↦ userId_of_mem_candidates (h.first s hs).1
  have hmem : ∀ r, r ∈ all → r.userId = userId →
      r ∈ all.filter fun s ↦ s.userId = userId := by
    intro r hr hruser
    simpa using ⟨hr, hruser⟩
  refine ⟨length_effectiveSubscriptionAt h, huser, hgranted, ?_, fun s hs r hr hruser ↦ ?_,
    fun hdistinct ↦ ?_, effectivePlanOn_unlimited hplans h, fun hgrants ↦ ⟨?_, fun clock ↦ ?_⟩,
    fun row _ portal ↦ fromRow_grants row at_ portal⟩
  · exact h.length_eq hfiltered fun _ hc ↦ userId_of_mem_candidates hc
  · have hrank := h.rank_eq hfiltered hs (hmem r hr hruser) ((huser s hs).trans hruser.symm)
    exact columns_of_rank_eq hrank
  · refine h.eq_of_injective hfiltered (fun _ hc ↦ userId_of_mem_candidates hc) hdistinct
  · obtain ⟨s, hs, haccess⟩ := hgranted.mpr hgrants
    have hany : answer.any EffectiveSubscription.accessGranted = true :=
      List.any_eq_true.mpr ⟨s, hs, haccess⟩
    simp [AccessDb.hasActiveSubscription, hany]
  · obtain ⟨s, hs, haccess⟩ := (exists_granted_row hfiltered).mpr hgrants
    have hany : (all.any fun s ↦ s.userId = userId && s.accessGranted) = true := by
      obtain ⟨hall, hsuser⟩ := List.mem_filter.mp hs
      exact List.any_eq_true.mpr ⟨s, hall, by simpa [haccess] using hsuser⟩
    simp [AccessDb.purchaseBusy, hany]

end Agreement

/-- An internal subscription without an end. -/
def internalSubscription (userId : Uuid) (plan : String) : UserSubscription :=
  ⟨userId, plan, none, none, none, none, none, false, none, none, none, none, none, 0, none, 0,
    Or.inl rfl⟩

theorem role_of_review (isReviewAccount : Bool) : isReviewAccount = true → Role.user = .user :=
  fun _ ↦ rfl

/-- User 1 is a review account with an internal subscription, user 2 has an
internal subscription of a third plan. -/
def tiedAccess (limit : Option ℕ) : AccessDb where
  members := ⟨[⟨1, .user, true, false, 0, none, role_of_review true⟩,
    ⟨2, .user, false, false, 0, none, role_of_review false⟩], by decide⟩
  subscriptions := ⟨[internalSubscription 1 "premium", internalSubscription 2 "gold"], by decide⟩
  purchases := ∅
  gifts := ∅
  plans := ⟨[⟨"free", some 2⟩, ⟨"premium", none⟩, ⟨"gold", limit⟩], by simp⟩
  checkouts := ∅

def reviewAccess : EffectiveSubscription :=
  ⟨1, "premium", none, none, none, none, none, false, some 0, none, none, none, true, none, 0⟩

theorem access_definitions_disagree :
    ((tiedAccess none).IsEffectiveSubscriptionAt (some 1) 0
        [(internalSubscription 1 "premium").candidate 0] ∧
      (tiedAccess none).IsEffectiveSubscriptionAt none 0
        [reviewAccess, (internalSubscription 2 "gold").candidate 0] ∧
      reviewAccess ≠ (internalSubscription 1 "premium").candidate 0) ∧
    (tiedAccess none).IsEffectiveSubscriptionAt (some 2) 0
        [(internalSubscription 2 "gold").candidate 0] ∧
      ((internalSubscription 2 "gold").candidate 0).accessGranted = false ∧
      (tiedAccess none).effectivePlanOn [(internalSubscription 2 "gold").candidate 0] 0 =
        some ⟨"gold", none⟩ := by
  decide +kernel

theorem access_definitions_agree_tied :
    (∃ s ∈ [(internalSubscription 1 "premium").candidate 0], s.accessGranted = true) ∧
      (tiedAccess (some 5)).Grants 1 0 := by
  have hplans : (tiedAccess (some 5)).Catalogue := ⟨rfl, ⟨2, rfl⟩, by decide, by
    simp only [← Table.mem_rows]
    decide⟩
  have hcomputed : (tiedAccess (some 5)).effectiveSubscriptionAt (some 1) 0 =
      [(internalSubscription 1 "premium").candidate 0] := by decide +kernel
  have hanswer : (tiedAccess (some 5)).IsEffectiveSubscriptionAt (some 1) 0
      [(internalSubscription 1 "premium").candidate 0] := by
    rw [← hcomputed]
    exact AccessDb.isEffectiveSubscriptionAt_self _ (some 1) 0
  have hall : (tiedAccess (some 5)).IsEffectiveSubscriptionAt none 0
      [reviewAccess, (internalSubscription 2 "gold").candidate 0] := by decide +kernel
  have hgranted : ∃ s ∈ [(internalSubscription 1 "premium").candidate 0],
      s.accessGranted = true := by decide
  exact ⟨hgranted, (access_definitions_agree hplans hanswer hall).2.2.1.mp hgranted⟩

end Histae.Billing
