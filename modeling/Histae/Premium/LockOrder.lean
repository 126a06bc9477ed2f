import Mathlib
import Histae.Shared.Time
import Histae.Systems.Locks

/-!
# Locks of Premium changes and continuation debits

Each transaction is the list of the locks it takes: rows of matches, accounts,
customers, subscriptions and purchases, and the advisory lock of a wallet. An
`INSERT ... ON CONFLICT DO UPDATE` runs the trigger that locks the wallet
before it locks the stored row, an `UPDATE` or a `DELETE` after. The record of
a continuation takes the rows before the wallets. A live customer that is
updated locks its account, and an anonymized account deletes its customer.

The rows a statement meets are parameters of the transaction. A purchase
belongs to one user for ever, given by `owner`.
-/

namespace Histae.Premium

open Systems

inductive Lock
  | matchRow (id : Uuid)
  | account (userId : Uuid)
  | customer (userId : Uuid)
  | subscription (userId : Uuid)
  | wallet (userId : Uuid)
  | purchase (id : Uuid)
  deriving DecidableEq

inductive Transaction
  /-- `record`, with the subscriptions and purchases of the two participants. -/
  | record (id user1 user2 : Uuid) (subscription1 subscription2 : Bool) (purchases : List Uuid)
  /-- A Stripe event that projects a subscription, over a stored row or not. -/
  | projectSubscription (userId : Uuid) (stored : Bool)
  /-- The deletion of a Stripe customer, with a subscription to cancel or not. -/
  | deleteCustomer (userId : Uuid) (stored : Bool)
  /-- The reconciliation of a subscription. Unless it is stale, the customer is
  updated, which may be live, and the subscription may be written. -/
  | reconcile (userId : Uuid) (stored writes live : Bool)
  /-- `StoreRepository::apply`, over a stored purchase or not, with the stored
  purchase that it replaces. -/
  | applyPurchase (userId : Uuid) (stored replaced : Option Uuid)
  | createReward (userId : Uuid)
  | cancelReward (userId : Uuid)
  | completeReward (userId : Uuid)
  /-- `advance(Completed)`, with what the account still has. -/
  | anonymize (userId : Uuid) (matches_ : List Uuid) (subscription gift : Bool)
      (purchases : List Uuid) (customer : Bool)
  deriving DecidableEq

def shared (lock : Lock) : Request Lock := ⟨lock, false⟩

def exclusive (lock : Lock) : Request Lock := ⟨lock, true⟩

/-- The requests that a statement makes when its row is stored. -/
def whenStored (stored : Bool) (requests : List (Request Lock)) : List (Request Lock) :=
  if stored then requests else []

namespace Transaction

def locks : Transaction → List (Request Lock)
  | .record id user1 user2 subscription1 subscription2 purchases =>
      exclusive (.matchRow id) :: shared (.account user1) :: shared (.account user2) ::
        (whenStored subscription1 [shared (.subscription user1)] ++
          whenStored subscription2 [shared (.subscription user2)] ++
          purchases.map (fun p ↦ shared (.purchase p)) ++
          [exclusive (.wallet user1), exclusive (.wallet user2)])
  | .projectSubscription userId stored =>
      shared (.account userId) :: exclusive (.customer userId) :: exclusive (.wallet userId) ::
        whenStored stored [exclusive (.subscription userId)]
  | .deleteCustomer userId stored =>
      shared (.account userId) :: exclusive (.customer userId) ::
        whenStored stored [exclusive (.subscription userId), exclusive (.wallet userId)]
  | .reconcile userId stored writes live =>
      exclusive (.customer userId) :: (whenStored stored [exclusive (.subscription userId)] ++
        whenStored writes [exclusive (.wallet userId)] ++
        whenStored (writes || live) [shared (.account userId)])
  | .applyPurchase userId stored replaced =>
      shared (.account userId) :: exclusive (.wallet userId) ::
        (stored.toList.map (fun p ↦ exclusive (.purchase p)) ++
          replaced.toList.map (fun p ↦ exclusive (.purchase p)))
  | .createReward userId | .completeReward userId =>
      [shared (.account userId), exclusive (.wallet userId)]
  | .cancelReward userId => [exclusive (.wallet userId), shared (.account userId)]
  | .anonymize userId matches_ subscription gift purchases customer =>
      matches_.map (fun id ↦ exclusive (.matchRow id)) ++ exclusive (.account userId) ::
        (whenStored subscription [exclusive (.subscription userId)] ++
          whenStored (subscription || gift) [exclusive (.wallet userId)] ++
          purchases.map (fun p ↦ exclusive (.purchase p)) ++
          whenStored customer [exclusive (.customer userId)])

/-- The statements sort the participants and the matches, and select the
purchases by their owner; a snapshot replaces a purchase only together with a
row that the same user owns. -/
def WellFormed (owner : Uuid → Uuid) : Transaction → Prop
  | .record _ user1 user2 _ _ purchases =>
      user1 < user2 ∧ ∀ p ∈ purchases, owner p = user1 ∨ owner p = user2
  | .applyPurchase userId stored replaced =>
      ∀ q ∈ replaced, owner q = userId ∧ ∀ p ∈ stored, owner p = userId ∧ p ≠ q
  | .anonymize userId matches_ _ _ purchases _ =>
      matches_.Pairwise (· < ·) ∧ ∀ p ∈ purchases, owner p = userId
  | _ => True

/-- The two transactions may take their locks in opposite orders. -/
def Clash (owner : Uuid → Uuid) : Transaction → Transaction → Prop
  | .record _ user1 user2 _ _ _, .projectSubscription userId true =>
      userId = user1 ∨ userId = user2
  | .record _ user1 user2 _ _ _, .applyPurchase _ stored replaced =>
      ∃ p, (stored = some p ∨ replaced = some p) ∧ (owner p = user1 ∨ owner p = user2)
  | .anonymize userId _ _ _ _ _, .reconcile userId' stored writes live =>
      userId = userId' ∧ (stored || writes || live) = true
  | .anonymize userId _ _ _ _ _, .cancelReward userId' => userId = userId'
  | _, _ => False

/-- The order of the locks, and of the purchases within a transaction. An
anonymization takes the customer at the end. -/
def rank (t : Transaction) : Lock → ℕ ×ₗ ℕ
  | .matchRow id => toLex (0, id.toNat)
  | .account userId => toLex (1, userId.toNat)
  | .customer userId =>
      match t with
      | .anonymize _ _ _ _ _ _ => toLex (8, 0)
      | _ => toLex (2, userId.toNat)
  | .subscription userId => toLex (3, userId.toNat)
  | .wallet userId => toLex (4, userId.toNat)
  | .purchase p =>
      match t with
      | .applyPurchase _ _ replaced => if replaced = some p then toLex (6, 0) else toLex (5, 0)
      | .anonymize _ _ _ _ _ _ => toLex (7, 0)
      | _ => toLex (5, 0)

/-- The locks that a transaction takes against the order. -/
def Late : Transaction → Lock → Lock → Prop
  | .record _ _ _ _ _ _, .purchase _, _ => True
  | .projectSubscription userId true, _, .subscription userId' => userId' = userId
  | .reconcile userId _ _ _, _, .account userId' => userId' = userId
  | .cancelReward userId, _, .account userId' => userId' = userId
  | .anonymize _ _ _ _ _ _, .purchase _, .purchase _ => True
  | _, _, _ => False

variable {owner : Uuid → Uuid} {t : Transaction}

theorem rank_lt_of_fst_lt {m n i j : ℕ} (h : m < n) : toLex (m, i) < toLex (n, j) :=
  Prod.Lex.toLex_lt_toLex.mpr (Or.inl h)

theorem rank_lt_of_snd_lt {m : ℕ} {u v : Uuid} (h : u < v) :
    toLex (m, u.toNat) < toLex (m, v.toNat) :=
  Prod.Lex.toLex_lt_toLex.mpr (Or.inr ⟨rfl, h⟩)

/-- The transaction takes the first lock before the second, or late. -/
def Follows (t : Transaction) (r r' : Request Lock) : Prop :=
  t.rank r.lock < t.rank r'.lock ∨ t.Late r.lock r'.lock

theorem mem_whenStored {stored : Bool} {requests : List (Request Lock)} {r : Request Lock} :
    r ∈ whenStored stored requests ↔ stored = true ∧ r ∈ requests := by
  cases stored <;> simp [whenStored]

theorem pairwise_whenStored {R : Request Lock → Request Lock → Prop} {stored : Bool}
    {requests : List (Request Lock)} (h : requests.Pairwise R) :
    (whenStored stored requests).Pairwise R := by
  cases stored
  · exact List.Pairwise.nil
  · exact h

section Record

variable {id user1 user2 : Uuid} {subscription1 subscription2 : Bool} {purchases : List Uuid}

theorem pairwise_locks_record (huser : user1 < user2) :
    (locks (.record id user1 user2 subscription1 subscription2 purchases)).Pairwise
      (Follows (.record id user1 user2 subscription1 subscription2 purchases)) := by
  have hpurchases : (purchases.map fun p ↦ shared (.purchase p)).Pairwise
      (Follows (.record id user1 user2 subscription1 subscription2 purchases)) :=
    List.pairwise_map.mpr (List.pairwise_of_forall fun p q ↦ Or.inr trivial)
  have hwallets : [exclusive (.wallet user1), exclusive (.wallet user2)].Pairwise
      (Follows (.record id user1 user2 subscription1 subscription2 purchases)) :=
    List.pairwise_pair.mpr (Or.inl (rank_lt_of_snd_lt huser))
  have hsubscriptions : (whenStored subscription1 [shared (.subscription user1)] ++
      whenStored subscription2 [shared (.subscription user2)]).Pairwise
      (Follows (.record id user1 user2 subscription1 subscription2 purchases)) := by
    refine List.pairwise_append.mpr ⟨pairwise_whenStored (List.pairwise_singleton _ _),
      pairwise_whenStored (List.pairwise_singleton _ _), ?_⟩
    intro r hr r' hr'
    simp only [mem_whenStored, List.mem_singleton] at hr hr'
    obtain ⟨_, rfl⟩ := hr
    obtain ⟨_, rfl⟩ := hr'
    exact Or.inl (rank_lt_of_snd_lt huser)
  refine List.pairwise_cons.mpr ⟨?_, List.pairwise_cons.mpr ⟨?_, List.pairwise_cons.mpr ⟨?_, ?_⟩⟩⟩
  · intro r hr
    simp only [List.mem_cons, List.mem_append, mem_whenStored, List.mem_map, List.not_mem_nil,
      or_false] at hr
    rcases hr with rfl | rfl | ((⟨_, rfl⟩ | ⟨_, rfl⟩) | ⟨p, _, rfl⟩) | rfl | rfl
    all_goals exact Or.inl (rank_lt_of_fst_lt (by decide))
  · intro r hr
    simp only [List.mem_cons, List.mem_append, mem_whenStored, List.mem_map, List.not_mem_nil,
      or_false] at hr
    rcases hr with rfl | ((⟨_, rfl⟩ | ⟨_, rfl⟩) | ⟨p, _, rfl⟩) | rfl | rfl
    · exact Or.inl (rank_lt_of_snd_lt huser)
    all_goals exact Or.inl (rank_lt_of_fst_lt (by decide))
  · intro r hr
    simp only [List.mem_cons, List.mem_append, mem_whenStored, List.mem_map, List.not_mem_nil,
      or_false] at hr
    rcases hr with ((⟨_, rfl⟩ | ⟨_, rfl⟩) | ⟨p, _, rfl⟩) | rfl | rfl
    all_goals exact Or.inl (rank_lt_of_fst_lt (by decide))
  · refine List.pairwise_append.mpr ⟨List.pairwise_append.mpr ⟨hsubscriptions, hpurchases, ?_⟩,
      hwallets, ?_⟩
    · intro r hr r' hr'
      simp only [List.mem_append, mem_whenStored, List.mem_singleton, List.mem_map] at hr hr'
      obtain ⟨p, _, rfl⟩ := hr'
      rcases hr with ⟨_, rfl⟩ | ⟨_, rfl⟩
      all_goals exact Or.inl (rank_lt_of_fst_lt (by decide))
    · intro r hr r' hr'
      simp only [List.mem_append, mem_whenStored, List.mem_cons, List.mem_map, List.not_mem_nil,
        or_false] at hr hr'
      rcases hr with (⟨_, rfl⟩ | ⟨_, rfl⟩) | ⟨p, _, rfl⟩ <;> rcases hr' with rfl | rfl
      all_goals first
        | exact Or.inl (rank_lt_of_fst_lt (by decide))
        | exact Or.inr trivial

end Record

section Anonymize

variable {userId : Uuid} {matches_ : List Uuid} {subscription gift customer : Bool}
  {purchases : List Uuid}

theorem pairwise_locks_anonymize (hmatches : matches_.Pairwise (· < ·)) :
    (locks (.anonymize userId matches_ subscription gift purchases customer)).Pairwise
      (Follows (.anonymize userId matches_ subscription gift purchases customer)) := by
  have hrows : (matches_.map fun id ↦ exclusive (.matchRow id)).Pairwise
      (Follows (.anonymize userId matches_ subscription gift purchases customer)) :=
    List.pairwise_map.mpr (hmatches.imp fun hlt ↦ Or.inl (rank_lt_of_snd_lt hlt))
  have hpurchases : (purchases.map fun p ↦ exclusive (.purchase p)).Pairwise
      (Follows (.anonymize userId matches_ subscription gift purchases customer)) :=
    List.pairwise_map.mpr (List.pairwise_of_forall fun p q ↦ Or.inr trivial)
  have hsubscription : (whenStored subscription [exclusive (.subscription userId)] ++
      whenStored (subscription || gift) [exclusive (.wallet userId)]).Pairwise
      (Follows (.anonymize userId matches_ subscription gift purchases customer)) := by
    refine List.pairwise_append.mpr ⟨pairwise_whenStored (List.pairwise_singleton _ _),
      pairwise_whenStored (List.pairwise_singleton _ _), ?_⟩
    intro r hr r' hr'
    simp only [mem_whenStored, List.mem_singleton] at hr hr'
    obtain ⟨_, rfl⟩ := hr
    obtain ⟨_, rfl⟩ := hr'
    exact Or.inl (rank_lt_of_fst_lt (by decide))
  refine List.pairwise_append.mpr ⟨hrows, List.pairwise_cons.mpr ⟨?_, List.pairwise_append.mpr
    ⟨List.pairwise_append.mpr ⟨hsubscription, hpurchases, ?_⟩,
      pairwise_whenStored (List.pairwise_singleton _ _), ?_⟩⟩, ?_⟩
  · intro r hr
    simp only [List.mem_append, mem_whenStored, List.mem_singleton, List.mem_map] at hr
    rcases hr with ((⟨_, rfl⟩ | ⟨_, rfl⟩) | ⟨p, _, rfl⟩) | ⟨_, rfl⟩
    all_goals exact Or.inl (rank_lt_of_fst_lt (by decide))
  · intro r hr r' hr'
    simp only [List.mem_append, mem_whenStored, List.mem_singleton, List.mem_map] at hr hr'
    obtain ⟨p, _, rfl⟩ := hr'
    rcases hr with ⟨_, rfl⟩ | ⟨_, rfl⟩
    all_goals exact Or.inl (rank_lt_of_fst_lt (by decide))
  · intro r hr r' hr'
    simp only [List.mem_append, mem_whenStored, List.mem_singleton, List.mem_map] at hr hr'
    obtain ⟨_, rfl⟩ := hr'
    rcases hr with (⟨_, rfl⟩ | ⟨_, rfl⟩) | ⟨p, _, rfl⟩
    all_goals exact Or.inl (rank_lt_of_fst_lt (by decide))
  · intro r hr r' hr'
    simp only [List.mem_cons, List.mem_append, mem_whenStored, List.mem_map, List.not_mem_nil,
      or_false] at hr hr'
    obtain ⟨id, _, rfl⟩ := hr
    rcases hr' with rfl | ((⟨_, rfl⟩ | ⟨_, rfl⟩) | ⟨p, _, rfl⟩) | ⟨_, rfl⟩
    all_goals exact Or.inl (rank_lt_of_fst_lt (by decide))

end Anonymize

theorem pairwise_locks_applyPurchase {userId : Uuid} {stored replaced : Option Uuid}
    (h : ∀ q ∈ replaced, ∀ p ∈ stored, p ≠ q) :
    (locks (.applyPurchase userId stored replaced)).Pairwise
      (Follows (.applyPurchase userId stored replaced)) := by
  have hpurchase : ∀ p, toLex (4, userId.toNat) <
      rank (.applyPurchase userId stored replaced) (.purchase p) := by
    intro p
    simp only [rank]
    split
    all_goals exact rank_lt_of_fst_lt (by decide)
  have hrows : (stored.toList.map (fun p ↦ exclusive (.purchase p)) ++
      replaced.toList.map (fun p ↦ exclusive (.purchase p))).Pairwise
      (Follows (.applyPurchase userId stored replaced)) := by
    refine List.pairwise_append.mpr ⟨?_, ?_, ?_⟩
    · cases stored <;> simp
    · cases replaced <;> simp
    · intro r hr r' hr'
      simp only [List.mem_map, Option.mem_toList] at hr hr'
      obtain ⟨p, hp, rfl⟩ := hr
      obtain ⟨q, hq, rfl⟩ := hr'
      have hne : replaced ≠ some p := fun heq ↦ h q hq p hp (Option.some.inj (heq.symm.trans hq))
      refine Or.inl ?_
      simp only [exclusive, rank, if_neg hne, if_pos (show replaced = some q from hq)]
      exact rank_lt_of_fst_lt (by decide)
  refine List.pairwise_cons.mpr ⟨?_, List.pairwise_cons.mpr ⟨?_, hrows⟩⟩
  · intro r hr
    simp only [List.mem_cons, List.mem_append, List.mem_map, Option.mem_toList] at hr
    rcases hr with rfl | ⟨p, _, rfl⟩ | ⟨p, _, rfl⟩
    · exact Or.inl (rank_lt_of_fst_lt (by decide))
    all_goals exact Or.inl ((rank_lt_of_fst_lt (by decide)).trans (hpurchase p))
  · intro r hr
    simp only [List.mem_append, List.mem_map, Option.mem_toList] at hr
    rcases hr with ⟨p, _, rfl⟩ | ⟨p, _, rfl⟩
    all_goals exact Or.inl (hpurchase p)

/-- Every transaction takes its locks in the order, but for the late ones. -/
theorem pairwise_locks (h : t.WellFormed owner) : t.locks.Pairwise t.Follows := by
  cases t with
  | record id user1 user2 subscription1 subscription2 purchases => exact pairwise_locks_record h.1
  | projectSubscription userId stored =>
      cases stored <;>
        simp [locks, whenStored, shared, exclusive, Follows, rank, Late, Prod.Lex.toLex_lt_toLex]
  | deleteCustomer userId stored =>
      cases stored <;>
        simp [locks, whenStored, shared, exclusive, Follows, rank, Late, Prod.Lex.toLex_lt_toLex]
  | reconcile userId stored writes live =>
      cases stored <;> cases writes <;> cases live <;>
        simp [locks, whenStored, shared, exclusive, Follows, rank, Late, Prod.Lex.toLex_lt_toLex]
  | applyPurchase userId stored replaced =>
      exact pairwise_locks_applyPurchase fun q hq p hp ↦ ((h q hq).2 p hp).2
  | createReward userId => simp [locks, shared, exclusive, Follows, rank, Prod.Lex.toLex_lt_toLex]
  | cancelReward userId => simp [locks, shared, exclusive, Follows, Late]
  | completeReward userId => simp [locks, shared, exclusive, Follows, rank, Prod.Lex.toLex_lt_toLex]
  | anonymize userId matches_ subscription gift purchases customer =>
      exact pairwise_locks_anonymize h.1

/-- The locks that come before the rows of subscriptions and purchases. -/
def guards : Transaction → List (Request Lock)
  | .record id user1 user2 _ _ _ =>
      [exclusive (.matchRow id), shared (.account user1), shared (.account user2)]
  | .projectSubscription userId _ =>
      [shared (.account userId), exclusive (.customer userId), exclusive (.wallet userId)]
  | .deleteCustomer userId _ => [shared (.account userId), exclusive (.customer userId)]
  | .reconcile userId _ _ _ => [exclusive (.customer userId)]
  | .applyPurchase userId _ _ | .createReward userId | .completeReward userId =>
      [shared (.account userId), exclusive (.wallet userId)]
  | .cancelReward userId => [exclusive (.wallet userId), shared (.account userId)]
  | .anonymize userId matches_ _ _ _ _ =>
      matches_.map (fun id ↦ exclusive (.matchRow id)) ++ [exclusive (.account userId)]

theorem guards_append (t : Transaction) : ∃ rest, t.locks = t.guards ++ rest := by
  cases t with
  | anonymize userId matches_ subscription gift purchases customer =>
      exact ⟨_, (List.append_assoc _ [exclusive (.account userId)] _).symm⟩
  | createReward userId | cancelReward userId | completeReward userId =>
      exact ⟨[], (List.append_nil _).symm⟩
  | record | projectSubscription | deleteCustomer | reconcile | applyPurchase => exact ⟨_, rfl⟩

theorem not_mem_guards {r : Request Lock}
    (h : (∃ userId, r.lock = .subscription userId) ∨ ∃ p, r.lock = .purchase p) :
    r ∉ t.guards := by
  intro hr
  have hlock : ∀ lock, r.lock = lock → (∃ userId, lock = .subscription userId) ∨
      ∃ p, lock = Lock.purchase p := fun lock heq ↦ heq ▸ h
  cases t <;> simp [guards, shared, exclusive] at hr
  all_goals grind

theorem of_mem_purchase {p : Uuid} {r : Request Lock} (h : t.WellFormed owner) (hr : r ∈ t.locks)
    (hlock : r.lock = .purchase p) :
    (∃ id user1 user2 s1 s2 purchases, t = .record id user1 user2 s1 s2 purchases ∧
      r.exclusive = false ∧ (owner p = user1 ∨ owner p = user2)) ∨
    (∃ userId stored replaced, t = .applyPurchase userId stored replaced ∧
      (stored = some p ∨ replaced = some p)) ∨
    ∃ matches_ s g purchases customer, t = .anonymize (owner p) matches_ s g purchases customer := by
  cases t <;> simp [locks, mem_whenStored, shared, exclusive] at hr
  all_goals grind [WellFormed]

theorem of_mem_subscription {userId : Uuid} {r : Request Lock} (hr : r ∈ t.locks)
    (hlock : r.lock = .subscription userId) :
    (∃ id user1 user2 s1 s2 purchases, t = .record id user1 user2 s1 s2 purchases ∧
      (userId = user1 ∨ userId = user2)) ∨
    exclusive (.customer userId) ∈ t.guards ∨ exclusive (.account userId) ∈ t.guards := by
  cases t <;> simp [locks, mem_whenStored, shared, exclusive] at hr
  all_goals grind [guards, exclusive]

theorem of_mem_account {userId : Uuid} {r : Request Lock} (hr : r ∈ t.locks)
    (hlock : r.lock = .account userId) (hexclusive : r.exclusive = true) :
    ∃ matches_ s g purchases customer, t = .anonymize userId matches_ s g purchases customer := by
  have hanonymize : ∃ userId' matches_ s g purchases customer,
      t = .anonymize userId' matches_ s g purchases customer ∧ userId' = userId := by
    cases t <;> simp [locks, mem_whenStored, shared, exclusive] at hr
    all_goals grind
  obtain ⟨userId', matches_, s, g, purchases, customer, rfl, rfl⟩ := hanonymize
  exact ⟨matches_, s, g, purchases, customer, rfl⟩

/-- A customer is taken under its account, by a reconciliation, or at the end of
an anonymization. -/
theorem of_mem_customer {userId : Uuid} {r : Request Lock} (hr : r ∈ t.locks)
    (hlock : r.lock = .customer userId) :
    (t.rank (.customer userId) = toLex (2, userId.toNat) ∧
      ((∃ rest, t.locks = [shared (.account userId)] ++ rest) ∨
        ∃ stored writes live, t = .reconcile userId stored writes live)) ∨
    ∃ matches_ s g purchases customer, t = .anonymize userId matches_ s g purchases customer := by
  cases t <;> simp [locks, mem_whenStored, shared, exclusive, rank] at hr ⊢
  all_goals grind

theorem customer_not_mem_guards {userId : Uuid} {matches_ : List Uuid} {s g customer : Bool}
    {purchases : List Uuid} {r : Request Lock}
    (h : t = .anonymize userId matches_ s g purchases customer) (hlock : r.lock = .customer userId) :
    r ∉ t.guards := by
  intro hr
  rw [h] at hr
  simp only [guards, List.mem_append, List.mem_map, List.mem_singleton] at hr
  rcases hr with ⟨id, _, rfl⟩ | rfl
  all_goals cases hlock

/-- A reconciliation that does not clash with an anonymization only takes the
customer. -/
theorem eq_customer_of_not_clash {userId : Uuid} {matches_ : List Uuid}
    {s g customer stored writes live : Bool} {purchases : List Uuid} {r : Request Lock}
    (h : ¬ Clash owner (.anonymize userId matches_ s g purchases customer)
      (.reconcile userId stored writes live))
    (hr : r ∈ locks (.reconcile userId stored writes live)) : r.lock = .customer userId := by
  have hnone : ¬ (stored || writes || live) = true := fun hmore ↦ h ⟨rfl, hmore⟩
  simp only [Bool.or_eq_true, not_or, Bool.not_eq_true] at hnone
  obtain ⟨⟨rfl, rfl⟩, rfl⟩ := hnone
  obtain rfl := List.mem_singleton.mp hr
  rfl

/-- A reconciliation that takes the account takes more than the customer. -/
theorem takes_account {userId : Uuid} {stored writes live : Bool} {r : Request Lock}
    (hr : r ∈ locks (.reconcile userId stored writes live)) (hlock : r.lock = .account userId) :
    (stored || writes || live) = true := by
  simp [locks, mem_whenStored, shared, exclusive] at hr
  grind

theorem five_le_rank (t : Transaction) (p : Uuid) : toLex (5, 0) ≤ t.rank (.purchase p) := by
  cases t with
  | applyPurchase userId stored replaced =>
      simp only [rank]
      split <;> decide
  | anonymize => exact (rank_lt_of_fst_lt (by decide)).le
  | record | projectSubscription | deleteCustomer | reconcile | createReward | cancelReward
  | completeReward => exact le_refl _

theorem rank_lt_five {lock : Lock} (h : ∀ p, lock ≠ .purchase p)
    (hcustomer : ∀ userId, t.rank (.customer userId) = toLex (2, userId.toNat)) :
    t.rank lock < toLex (5, 0) := by
  cases lock with
  | purchase p => exact absurd rfl (h p)
  | customer userId =>
      rw [hcustomer]
      exact rank_lt_of_fst_lt (by decide)
  | matchRow | account | subscription | wallet => exact rank_lt_of_fst_lt (by decide)

/-- Nothing follows the customer of an anonymization. -/
theorem rank_anonymize_le {userId : Uuid} {matches_ : List Uuid} {s g customer : Bool}
    {purchases : List Uuid} (lock : Lock) :
    rank (.anonymize userId matches_ s g purchases customer) lock ≤ toLex (8, 0) := by
  cases lock with
  | customer userId' => exact le_refl _
  | matchRow | account | subscription | wallet | purchase =>
      exact (rank_lt_of_fst_lt (by decide)).le

theorem late_cases {g r : Lock} (h : t.Late g r) (hg : ∀ p, g ≠ .purchase p) :
    (∃ userId, t = .projectSubscription userId true ∧ r = .subscription userId) ∨
    ∃ userId, r = .account userId ∧
      ((∃ stored writes live, t = .reconcile userId stored writes live) ∨
        t = .cancelReward userId) := by
  unfold Late at h
  split at h
  · exact absurd rfl (hg _)
  · rename_i userId userId'
    exact Or.inl ⟨userId, rfl, by rw [h]⟩
  · rename_i userId stored writes live userId'
    exact Or.inr ⟨userId, by rw [h], Or.inl ⟨stored, writes, live, rfl⟩⟩
  · rename_i userId userId'
    exact Or.inr ⟨userId, by rw [h], Or.inr rfl⟩
  · exact absurd rfl (hg _)
  · exact h.elim

end Transaction

/-- The transactions over purchases of the given owners. -/
abbrev Program (owner : Uuid → Uuid) := { t : Transaction // t.WellFormed owner }

namespace Program

variable {owner : Uuid → Uuid}

def locks (p : Program owner) : List (Request Lock) := p.1.locks

def Clash (p q : Program owner) : Prop := p.1.Clash owner q.1

section Waiting

variable {ι : Type} [DecidableEq ι] {σ : Sessions ι (locks : Program owner → _)} {i j k : ι}
  {s t : Session (locks : Program owner → _)} {g r : Request Lock}

theorem guards_subset (h : s.Reached r)
    (hr : (∃ userId, r.lock = .subscription userId) ∨ ∃ p, r.lock = .purchase p) :
    s.program.1.guards ⊆ s.held := by
  obtain ⟨rest, hrest⟩ := s.program.1.guards_append
  exact Session.subset_held h hrest (Transaction.not_mem_guards hr)

theorem follows_of_held (hg : g ∈ s.held) (hr : s.todo.head? = some r) :
    s.program.1.Follows g r := by
  have hpairwise : (locks s.program).Pairwise s.program.1.Follows :=
    Transaction.pairwise_locks s.program.2
  exact Session.rel_of_held hpairwise hg hr

/-- The rank of the lock that a transaction waits for. -/
def awaited (σ : Sessions ι (locks : Program owner → _)) (i : ι) : ℕ ×ₗ ℕ :=
  match σ i with
  | some s => (s.todo.head?.map fun r ↦ s.program.1.rank r.lock).getD (toLex (0, 0))
  | none => toLex (0, 0)

theorem awaited_eq (hs : σ i = some s) (hr : s.todo.head? = some r) :
    awaited σ i = s.program.1.rank r.lock := by
  simp only [awaited, hs, hr, Option.map_some, Option.getD_some]

/-- Two transactions past their guards do not guard against each other. -/
theorem not_conflicts_of_guards (hcompatible : Compatible σ) (hij : i ≠ j) (hs : σ i = some s)
    (ht : σ j = some t) {a b : Request Lock} (ha : a ∈ s.program.1.guards)
    (hb : b ∈ t.program.1.guards) (hsheld : s.program.1.guards ⊆ s.held)
    (htheld : t.program.1.guards ⊆ t.held) : ¬ a.Conflicts b :=
  hcompatible i j hij s t hs ht a (hsheld ha) b (htheld hb)

/-- A transaction that waits for a purchase waits below the transaction that
holds it, if that one waits too. -/
theorem rank_lt_of_purchase (hcompatible : Compatible σ) (hapart : Apart Clash σ) (hij : i ≠ j)
    (hs : σ i = some s) (ht : σ j = some t) (hr : s.todo.head? = some r) (hg : g ∈ t.held)
    (hconflict : g.Conflicts r) {p : Uuid} (hlock : g.lock = .purchase p) {r' : Request Lock}
    (hr' : t.todo.head? = some r') :
    s.program.1.rank r.lock < t.program.1.rank r'.lock := by
  have hrlock : r.lock = .purchase p := hconflict.1.symm.trans hlock
  have hsheld := guards_subset (Or.inr hr) (Or.inr ⟨p, hrlock⟩)
  have htheld := guards_subset (Or.inl hg) (Or.inr ⟨p, hlock⟩)
  have hguards := fun a b ha hb ↦
    not_conflicts_of_guards (a := a) (b := b) hcompatible hij hs ht ha hb hsheld htheld
  have hfollows := follows_of_held hg hr'
  have hclash := hapart j i hij.symm t s ht hs
  have hsprogram := Transaction.of_mem_purchase s.program.2
    (Session.mem_of_reached (Or.inr hr)) hrlock
  have htprogram := Transaction.of_mem_purchase t.program.2
    (Session.mem_of_reached (Or.inl hg)) hlock
  have hswell := s.program.2
  have htwell := t.program.2
  simp only [Clash] at hclash
  rw [hrlock]
  rw [Transaction.Follows, hlock] at hfollows
  generalize s.program.1 = sprogram at *
  generalize t.program.1 = tprogram at *
  rcases htprogram with ⟨id, user1, user2, s1, s2, purchases, rfl, hshared, howner⟩ |
    ⟨userId, stored, replaced, rfl, hp⟩ | ⟨matches_, sub, gift, purchases, customer, rfl⟩
  · exfalso
    rcases hsprogram with ⟨id', user1', user2', s1', s2', purchases', rfl, hshared', howner'⟩ |
      ⟨userId, stored, replaced, rfl, hp⟩ | ⟨matches_, sub, gift, purchases', customer, rfl⟩
    · rcases hconflict.2 with htrue | htrue
      · exact absurd (hshared.symm.trans htrue) (by decide)
      · exact absurd (hshared'.symm.trans htrue) (by decide)
    · exact hclash ⟨p, hp, howner⟩
    · refine hguards (exclusive (.account (owner p))) (shared (.account (owner p))) ?_ ?_
        ⟨rfl, Or.inl rfl⟩
      · simp [Transaction.guards]
      · rcases howner with howner | howner <;> simp [Transaction.guards, howner]
  · have hlater : Transaction.rank (.applyPurchase userId stored replaced) (.purchase p) <
        Transaction.rank (.applyPurchase userId stored replaced) r'.lock :=
      hfollows.resolve_right id
    obtain ⟨q, hq⟩ : ∃ q, r'.lock = .purchase q := by
      by_contra! hnone
      exact absurd (hlater.trans (Transaction.rank_lt_five hnone fun _ ↦ rfl))
        (Transaction.five_le_rank _ p).not_gt
    rw [hq] at hlater ⊢
    have hreplaced : replaced = some q := by
      by_contra hnot
      have hfive : Transaction.rank (.applyPurchase userId stored replaced) (.purchase q) =
          toLex (5, 0) := if_neg hnot
      exact absurd (hfive ▸ hlater) (Transaction.five_le_rank _ p).not_gt
    have hrank : Transaction.rank (.applyPurchase userId stored replaced) (.purchase q) =
        toLex (6, 0) := if_pos hreplaced
    have hstored : stored = some p := by
      refine hp.resolve_right fun hsame ↦ ?_
      obtain rfl := Option.some.inj (hsame.symm.trans hreplaced)
      exact lt_irrefl _ hlater
    obtain ⟨-, hown⟩ := htwell q hreplaced
    obtain rfl : owner p = userId := (hown p hstored).1
    rw [hrank]
    rcases hsprogram with ⟨id', user1', user2', s1', s2', purchases', rfl, hshared', howner'⟩ |
      ⟨userId', stored', replaced', rfl, hp'⟩ | ⟨matches_, sub, gift, purchases', customer, rfl⟩
    · exact Transaction.rank_lt_of_fst_lt (by decide)
    · by_cases hreplaced' : replaced' = some p
      · obtain rfl := (hswell p hreplaced').1
        exact absurd ⟨rfl, Or.inl rfl⟩ (hguards (exclusive (.wallet (owner p)))
          (exclusive (.wallet (owner p))) (by simp [Transaction.guards])
          (by simp [Transaction.guards]))
      · have hfive : Transaction.rank (.applyPurchase userId' stored' replaced') (.purchase p) =
            toLex (5, 0) := if_neg hreplaced'
        rw [hfive]
        decide
    · exact absurd ⟨rfl, Or.inl rfl⟩ (hguards (exclusive (.account (owner p)))
        (shared (.account (owner p))) (by simp [Transaction.guards]) (by simp [Transaction.guards]))
  · have hlast : toLex (7, 0) ≤
        Transaction.rank (.anonymize (owner p) matches_ sub gift purchases customer) r'.lock := by
      have hbelow : ∀ lock : Lock, (∀ q, lock ≠ .purchase q) → (∀ userId, lock ≠ .customer userId) →
          Transaction.rank (.anonymize (owner p) matches_ sub gift purchases customer) lock <
            toLex (5, 0) := by
        intro lock hlock hlock'
        cases lock with
        | purchase q => exact absurd rfl (hlock q)
        | customer userId => exact absurd rfl (hlock' userId)
        | matchRow | account | subscription | wallet =>
            exact Transaction.rank_lt_of_fst_lt (by decide)
      cases hlock' : r'.lock with
      | purchase q => exact le_refl _
      | customer userId => exact (Transaction.rank_lt_of_fst_lt (by decide)).le
      | matchRow | account | subscription | wallet =>
          exfalso
          rw [hlock'] at hfollows
          refine absurd ((hfollows.resolve_right id).trans (hbelow _ ?_ ?_))
            (Transaction.five_le_rank _ p).not_gt
          all_goals exact fun _ h ↦ nomatch h
    refine lt_of_lt_of_le ?_ hlast
    rcases hsprogram with ⟨id', user1', user2', s1', s2', purchases', rfl, hshared', howner'⟩ |
      ⟨userId', stored', replaced', rfl, hp'⟩ | ⟨matches_', sub', gift', purchases', customer', rfl⟩
    · exact Transaction.rank_lt_of_fst_lt (by decide)
    · simp only [Transaction.rank]
      split <;> decide
    · exact absurd ⟨rfl, Or.inl rfl⟩ (hguards (exclusive (.account (owner p)))
        (exclusive (.account (owner p))) (by simp [Transaction.guards])
        (by simp [Transaction.guards]))

/-- A transaction does not wait for a late lock other than a purchase. -/
theorem not_late (hcompatible : Compatible σ) (hapart : Apart Clash σ) (hjk : j ≠ k)
    (hs : σ j = some s) (ht : σ k = some t) (hr : s.todo.head? = some r) {g' : Request Lock}
    (hg' : g' ∈ t.held) (hconflict : g'.Conflicts r) (hlock : ∀ p, g.lock ≠ .purchase p) :
    ¬ s.program.1.Late g.lock r.lock := by
  intro hlate
  have hclash := hapart k j hjk.symm t s ht hs
  have hheld : g' ∈ t.program.1.locks := Session.mem_of_reached (s := t) (Or.inl hg')
  have hawaited : r ∈ s.program.1.locks := Session.mem_of_reached (s := s) (Or.inr hr)
  simp only [Clash] at hclash
  rcases Transaction.late_cases hlate hlock with
    ⟨userId, hprogram, hrlock⟩ | ⟨userId, hrlock, hprogram⟩
  · have hsheld := guards_subset (Or.inr hr) (Or.inl ⟨userId, hrlock⟩)
    have htheld := guards_subset (Or.inl hg') (Or.inl ⟨userId, hconflict.1.trans hrlock⟩)
    have hguards := fun a b ha hb ↦
      not_conflicts_of_guards (a := a) (b := b) hcompatible hjk hs ht ha hb hsheld htheld
    rw [hprogram] at hguards hclash
    rcases Transaction.of_mem_subscription hheld (hconflict.1.trans hrlock) with
      ⟨id, user1, user2, s1, s2, purchases, hrecord, hparticipant⟩ | hcustomer | haccount
    · rw [hrecord] at hclash
      exact hclash hparticipant
    · exact hguards _ _ (by simp [Transaction.guards]) hcustomer ⟨rfl, Or.inl rfl⟩
    · exact hguards (shared (.account userId)) _ (by simp [Transaction.guards]) haccount
        ⟨rfl, Or.inr rfl⟩
  · have hshared : r.exclusive ≠ true := by
      intro hexclusive
      obtain ⟨matches_, sub, gift, purchases, customer, hanonymize⟩ :=
        Transaction.of_mem_account hawaited hrlock hexclusive
      rcases hprogram with ⟨stored, writes, live, hreconcile⟩ | hcancel
      · exact absurd (hreconcile.symm.trans hanonymize) (by simp)
      · exact absurd (hcancel.symm.trans hanonymize) (by simp)
    obtain ⟨matches_, sub, gift, purchases, customer, hanonymize⟩ := Transaction.of_mem_account hheld
      (hconflict.1.trans hrlock) (hconflict.2.resolve_right hshared)
    rw [hanonymize] at hclash
    rcases hprogram with ⟨stored, writes, live, hreconcile⟩ | hcancel
    · rw [hreconcile] at hclash hawaited
      exact hclash ⟨rfl, Transaction.takes_account hawaited hrlock⟩
    · rw [hcancel] at hclash
      exact hclash rfl

/-- Both sides of a wait rank the awaited lock alike, if it is no purchase and
the side that holds it waits too: no anonymization waits for its customer. -/
theorem rank_eq_of_waits (hcompatible : Compatible σ) (hapart : Apart Clash σ) (hij : i ≠ j)
    (hs : σ i = some s) (ht : σ j = some t) (hr : s.todo.head? = some r) (hg : g ∈ t.held)
    (hconflict : g.Conflicts r) (hlock : ∀ p, g.lock ≠ .purchase p) {r' : Request Lock}
    (hr' : t.todo.head? = some r') :
    s.program.1.rank g.lock = t.program.1.rank g.lock := by
  have hheld : g ∈ t.program.1.locks := Session.mem_of_reached (s := t) (Or.inl hg)
  have hawaited : r ∈ s.program.1.locks := Session.mem_of_reached (s := s) (Or.inr hr)
  have hfollows := follows_of_held hg hr'
  cases hcase : g.lock with
  | purchase p => exact absurd hcase (hlock p)
  | matchRow | account | subscription | wallet => rfl
  | customer userId =>
      have hrlock : r.lock = .customer userId := hconflict.1.symm.trans hcase
      rw [Transaction.Follows, hcase] at hfollows
      rcases Transaction.of_mem_customer hheld hcase with
        ⟨hrank, howner⟩ | ⟨matches_, sub, gift, purchases, customer, hanonymize⟩
      · rcases Transaction.of_mem_customer hawaited hrlock with
          ⟨hrank', _⟩ | ⟨matches_, sub, gift, purchases, customer, hanonymize⟩
        · rw [hrank, hrank']
        · exfalso
          have hpast : r ∉ s.program.1.guards := Transaction.customer_not_mem_guards hanonymize hrlock
          obtain ⟨rest', hrest'⟩ := s.program.1.guards_append
          have haccount : exclusive (.account userId) ∈ s.held := by
            refine Session.subset_held (Or.inr hr) hrest' hpast ?_
            simp [hanonymize, Transaction.guards]
          rcases howner with ⟨rest, hrest⟩ | ⟨stored, writes, live, hreconcile⟩
          · have hother : g ∉ [shared (.account userId)] := by
              intro hmem
              rw [List.mem_singleton.mp hmem] at hcase
              cases hcase
            have hshared := Session.subset_held (Or.inl hg) hrest hother List.mem_cons_self
            exact hcompatible i j hij s t hs ht _ haccount _ hshared ⟨rfl, Or.inl rfl⟩
          · have hclash := hapart i j hij s t hs ht
            have hmore : r' ∈ t.program.1.locks := Session.mem_of_reached (s := t) (Or.inr hr')
            simp only [Clash, hanonymize, hreconcile] at hclash
            rw [hreconcile] at hfollows hmore
            rw [Transaction.eq_customer_of_not_clash hclash hmore] at hfollows
            exact hfollows.elim (lt_irrefl _) id
      · exfalso
        rw [hanonymize] at hfollows
        rcases hfollows with hlater | hlate
        · exact absurd hlater (Transaction.rank_anonymize_le r'.lock).not_gt
        · exact hlate

theorem awaited_lt (hcompatible : Compatible σ) (hapart : Apart Clash σ) (hij : σ.Waits i j)
    (hjk : σ.Waits j k) : awaited σ i < awaited σ j := by
  obtain ⟨hne, s, t, hs, ht, r, hr, g, hg, hconflict⟩ := hij
  obtain ⟨hne', t', u, ht', hu, r', hr', g', hg', hconflict'⟩ := hjk
  obtain rfl := Option.some.inj (ht.symm.trans ht')
  rw [awaited_eq hs hr, awaited_eq ht hr']
  by_cases hpurchase : ∃ p, g.lock = .purchase p
  · obtain ⟨p, hp⟩ := hpurchase
    exact rank_lt_of_purchase hcompatible hapart hne hs ht hr hg hconflict hp hr'
  · rw [not_exists] at hpurchase
    rw [← hconflict.1,
      rank_eq_of_waits hcompatible hapart hne hs ht hr hg hconflict hpurchase hr']
    refine (follows_of_held hg hr').resolve_right ?_
    exact not_late hcompatible hapart hne' ht hu hr' hg' hconflict' hpurchase

end Waiting

/-- Premium changes and continuation debits do not deadlock in a run that opens
no two transactions which take their locks in opposite orders. -/
theorem not_deadlocked {ι : Type} [DecidableEq ι]
    {steps : List (LockStep ι (Program owner))}
    (h : (lockManager ι locks).Valid (fun _ ↦ none) steps)
    (hapart : (lockManager ι locks).Along (BeginsApart Clash) (fun _ ↦ none) steps) :
    ¬ Sessions.Deadlocked ((lockManager ι locks).exec (fun _ ↦ none) steps) := by
  have hinvariant := h.invariant_along
    (I := fun σ : Sessions ι (locks : Program owner → _) ↦ Compatible σ ∧ Apart Clash σ) hapart
    ⟨fun _ _ _ _ _ hs ↦ absurd hs (by simp), fun _ _ _ _ _ hs ↦ absurd hs (by simp)⟩
    fun σ a hσ henabled hbegins ↦ ⟨hσ.1.next henabled, hσ.2.next hbegins⟩
  generalize (lockManager ι locks).exec (fun _ ↦ none) steps = σ at hinvariant ⊢
  exact not_deadlocked_of_rank (awaited σ) fun i j k ↦ awaited_lt hinvariant.1 hinvariant.2

section Samples

def sampleRecord : Program fun _ ↦ 1 :=
  ⟨.record 9 1 2 true false [], by decide, by simp⟩

def sampleProjection (userId : Uuid) : Program fun _ ↦ 1 :=
  ⟨.projectSubscription userId true, trivial⟩

/-- A continuation has read the subscription of a participant when a Stripe
event takes the wallet of its own user. -/
def sampleRun (userId : Uuid) : List (LockStep Bool (Program fun _ ↦ 1)) :=
  [.begin true sampleRecord, .begin false (sampleProjection userId),
    .acquire true, .acquire true, .acquire true, .acquire true,
    .acquire false, .acquire false, .acquire false]

theorem deadlocked_record_projection :
    (lockManager Bool locks).Valid (fun _ ↦ none) (sampleRun 1) ∧
    Sessions.Deadlocked ((lockManager Bool locks).exec (fun _ ↦ none) (sampleRun 1)) :=
  ⟨by decide +kernel, Sessions.deadlocked_of_waits (i := true) (j := false)
    (by decide +kernel) (by decide +kernel)⟩

/-- The same run, with an event about a user outside the match. -/
theorem not_deadlocked_record_projection :
    (lockManager Bool locks).Valid (fun _ ↦ none) (sampleRun 3) ∧
    ¬ Sessions.Deadlocked ((lockManager Bool locks).exec (fun _ ↦ none) (sampleRun 3)) := by
  have hvalid : (lockManager Bool locks).Valid (fun _ ↦ none) (sampleRun 3) := by
    decide +kernel
  refine ⟨hvalid, not_deadlocked hvalid ?_⟩
  refine ⟨fun j t ht ↦ absurd ht (by simp), ?_, trivial, trivial, trivial, trivial, trivial,
    trivial, trivial, trivial⟩
  intro j t ht
  cases j with
  | false => exact absurd ht (by simp [lockManager, Sessions.next, Function.update])
  | true =>
      obtain rfl := Option.some.inj ht
      exact ⟨id, by simp [Clash, Transaction.Clash, sampleProjection, sampleRecord, Session.start]⟩

end Samples

end Program

end Histae.Premium
