import Mathlib
import Histae.Billing.Entitlements

/-!
# Replaced Google Play purchases

A snapshot may name the purchase that it replaces. The replaced purchase is
excluded when the snapshot is applied, provided it is stored by then and was
not verified later; a replaced purchase that arrives after its successor is
stored like any other. In runs where every replaced purchase arrives first,
the excluded purchases are exactly those that an applied snapshot names.
-/

namespace Histae.Billing

open Relational Systems

/-- The snapshot names this purchase as the one it replaces. -/
def StoreSnapshot.Replaces (s : StoreSnapshot) (p : Purchase) : Prop :=
  p.provider = .googlePlay ∧ p.environment = s.environment ∧
    s.linkedReferenceHash = some p.originalId ∧ p.originalId ≠ s.originalId

/-- A snapshot that replaces a purchase finds it stored and not verified
later. -/
def FindsReplaced (w : Shop) : ShopStep → Prop
  | .apply s _ _ observedAt _ _ _ => ∀ linked ∈ s.linkedReferenceHash, linked ≠ s.originalId →
      ∃ row ∈ w.db.purchases.rows, row.purchase = ⟨.googlePlay, s.environment, linked⟩ ∧
        row.verifiedAt ≤ observedAt
  | _ => True

instance (w : Shop) : ∀ a, Decidable (FindsReplaced w a)
  | .apply s _ _ observedAt _ _ _ => inferInstanceAs (Decidable (∀ linked ∈ s.linkedReferenceHash,
      linked ≠ s.originalId → ∃ row ∈ w.db.purchases.rows,
        row.purchase = ⟨.googlePlay, s.environment, linked⟩ ∧ row.verifiedAt ≤ observedAt))
  | .account _ _ _ | .acknowledged _ | .schedule _ _ _ | .register _ | .restrict _ _ _
  | .anonymize _ _ => .isTrue trivial

/-- A purchase and its store account have the same user. -/
def Tied (db : StoreDb) : Prop :=
  ∀ row ∈ db.purchases, ∃ a ∈ db.accounts, a.id = row.accountId ∧ a.userId = row.userId

section Tied

variable {googleId : Uuid → String} {w : Shop} {a : ShopStep} {db db' : StoreDb}

theorem accountOf_spec {userId account : Uuid} (h : db.accountOf userId = some account) :
    ∃ a ∈ db.accounts, a.id = account ∧ a.userId = some userId := by
  obtain ⟨a, hfind, rfl⟩ := Option.map_eq_some_iff.mp h
  exact ⟨a, List.mem_of_find?_eq_some hfind, rfl, by simpa using List.find?_some hfind⟩

theorem Tied.applied {s : StoreSnapshot} {encrypted : String} {observedAt : ℤ}
    {newId owner account : Uuid} (h : Tied db)
    (happlied : Applied db db' s encrypted observedAt newId owner account) : Tied db' := by
  intro row' hrow'
  rw [happlied.accounts]
  rcases (happlied.rows row').mp hrow' with ⟨row, hrow, rfl⟩ | ⟨_, rfl⟩
  · obtain ⟨a, ha, hid, huser⟩ := h row hrow
    have hkept : (row.absorb owner account encrypted observedAt s).accountId = row.accountId ∧
        (row.absorb owner account encrypted observedAt s).userId = row.userId := by
      unfold StoreSubscription.absorb
      split
      · exact ⟨rfl, rfl⟩
      split <;> exact ⟨rfl, rfl⟩
    rw [hkept.1, hkept.2]
    exact ⟨a, ha, hid, huser⟩
  · exact accountOf_spec happlied.held

theorem Tied.account {userId newId : Uuid} {clock : ℤ} {account : StoreAccount} (h : Tied db)
    (haccount : db.account googleId userId newId clock = .ok (db', account)) : Tied db' := by
  unfold StoreDb.account at haccount
  split at haccount
  · split at haccount
    · rw [← (Prod.mk.inj (Except.ok.inj haccount)).1]
      exact h
    · split at haccount
      · exact absurd haccount (by simp)
      split at haccount
      · rename_i accounts hinsert
        rw [← (Prod.mk.inj (Except.ok.inj haccount)).1]
        intro row hrow
        obtain ⟨a, ha, hid, huser⟩ := h row hrow
        exact ⟨a, (Table.mem_insert hinsert).mpr (Or.inr ha), hid, huser⟩
      · exact absurd haccount (by simp)
  · exact absurd haccount (by simp)

theorem Tied.anonymize (h : Tied db) (userId : Uuid) (now : ℤ) : Tied (db.anonymize userId now) := by
  have hdetach : ∀ row : StoreSubscription, row.detach.purchase = row.purchase := fun _ ↦ rfl
  have hkey : ∀ a : StoreAccount, { a with userId := none : StoreAccount }.id = a.id := fun _ ↦ rfl
  intro row' hrow'
  obtain ⟨row, hrow, rfl⟩ := (Table.mem_modify hdetach).mp hrow'
  obtain ⟨a, ha, hid, huser⟩ := h row hrow
  refine ⟨_, (Table.mem_modify hkey).mpr ⟨a, ha, rfl⟩, ?_⟩
  by_cases hsame : row.userId = some userId
  · simp [hsame, huser, hid, StoreSubscription.detach]
  · simp [hsame, huser, hid]

theorem Tied.modify {f : StoreSubscription → StoreSubscription} {p : StoreSubscription → Bool}
    (h : Tied db) (hf : ∀ row, (f row).purchase = row.purchase)
    (hkept : ∀ row, (f row).accountId = row.accountId ∧ (f row).userId = row.userId) :
    Tied { db with purchases := db.purchases.modify p f hf } := by
  intro row' hrow'
  obtain ⟨row, hrow, rfl⟩ := (Table.mem_modify hf).mp hrow'
  obtain ⟨a, ha, hid, huser⟩ := h row hrow
  refine ⟨a, ha, ?_⟩
  split
  · rw [(hkept row).1, (hkept row).2]
    exact ⟨hid, huser⟩
  · exact ⟨hid, huser⟩

theorem Tied.next (h : Tied w.db) (googleId : Uuid → String) (a : ShopStep) :
    Tied (Shop.next googleId w a).db := by
  cases a with
  | apply s encrypted expectedUser observedAt newId eventId clock =>
      simp only [Shop.next]
      split
      · rename_i db' owner happly
        rcases apply_eq_ok happly with ⟨hnone, _⟩ | ⟨owner, account, _, happlied⟩
        · exact absurd hnone (by simp)
        · exact h.applied happlied
      · rename_i db' happly
        rcases apply_eq_ok happly with ⟨_, rfl, _⟩ | ⟨owner, account, hsome, _⟩
        · exact h
        · exact absurd hsome (by simp)
      · exact h
  | account userId newId clock =>
      simp only [Shop.next]
      split
      · rename_i db' account haccount
        exact h.account haccount
      · exact h
  | acknowledged id =>
      exact h.modify _ fun _ ↦ ⟨rfl, rfl⟩
  | schedule now locked eventIds =>
      have henqueued := tables_enqueued w.db (w.db.dueSubscriptions now locked) eventIds now
      refine Tied.modify ?_ _ fun _ ↦ ⟨rfl, rfl⟩
      rw [Tied, henqueued.1, henqueued.2]
      exact h
  | register member => exact h
  | restrict userId isBanned deletedAt => exact h
  | anonymize userId now => exact h.anonymize userId now

end Tied

/-- The purchase is stored and replaced. -/
def IsSuperseded (db : StoreDb) (p : Purchase) : Prop :=
  ∃ row ∈ db.purchases, row.purchase = p ∧ row.superseded = true

/-- The replaced purchases are those that an applied snapshot names. -/
def Superseded (w : Shop) : Prop :=
  ∀ p, IsSuperseded w.db p ↔ ∃ x ∈ w.applied, x.snapshot.Replaces p

section Superseded

variable {googleId : Uuid → String} {w : Shop} {a : ShopStep} {as : List ShopStep}
  {row : StoreSubscription}

theorem replaces_of_isReplaced {owner account : Uuid} {observedAt : ℤ} {s : StoreSnapshot}
    (h : row.isReplaced owner account observedAt s = true) : s.Replaces row.purchase := by
  simp only [StoreSubscription.isReplaced, Bool.and_eq_true, decide_eq_true_eq] at h
  obtain ⟨⟨⟨⟨⟨⟨hprovider, hlinked⟩, henvironment⟩, hother⟩, _⟩, _⟩, _⟩ := h
  exact ⟨hprovider, henvironment, hlinked, hother⟩

/-- A stored purchase that the applied snapshot names becomes a replaced one. -/
theorem isReplaced_of_replaces {db' : StoreDb} {s : StoreSnapshot} {encrypted : String}
    {observedAt : ℤ} {newId owner account : Uuid} (htied : Tied w.db)
    (happlied : Applied w.db db' s encrypted observedAt newId owner account)
    (hreplaces : s.Replaces row.purchase) (hrow : row ∈ w.db.purchases)
    (hverified : row.verifiedAt ≤ observedAt) :
    row.isReplaced owner account observedAt s = true := by
  obtain ⟨hprovider, henvironment, hlinked, hother⟩ := hreplaces
  have haccount : row.accountId = account := by
    have hnone := happlied.unlinked _ hlinked
    by_contra hne
    have hconflict : 0 < w.db.purchases.count fun r ↦ r.provider = .googlePlay &&
        r.environment = s.environment && r.originalId = row.purchase.originalId &&
        r.accountId ≠ account := by
      refine Table.count_pos_iff.mpr ⟨row, hrow, ?_⟩
      simp only [StoreSubscription.purchase] at hprovider henvironment ⊢
      simp [hprovider, henvironment, hne]
    rw [StoreDb.linkedOwnerConflict, decide_eq_false_iff_not] at hnone
    exact hnone hconflict
  obtain ⟨a, ha, hid, huser⟩ := htied row hrow
  obtain ⟨b, hb, hbid, hbuser⟩ := accountOf_spec happlied.held
  obtain rfl : a = b := Table.eq_of_key_eq ha hb (hid.trans (haccount.trans hbid.symm))
  have howner : row.userId = some owner := huser.symm.trans hbuser
  simp only [StoreSubscription.isReplaced, Bool.and_eq_true, decide_eq_true_eq]
  exact ⟨⟨⟨⟨⟨⟨hprovider, hlinked⟩, henvironment⟩, hother⟩, hverified⟩, howner⟩, haccount⟩

theorem Superseded.applied {db' : StoreDb} {s : StoreSnapshot} {encrypted : String}
    {observedAt : ℤ} {newId owner account : Uuid} (h : Superseded w) (htied : Tied w.db)
    (happlied : Applied w.db db' s encrypted observedAt newId owner account)
    (hfinds : ∀ linked ∈ s.linkedReferenceHash, linked ≠ s.originalId →
      ∃ row ∈ w.db.purchases.rows, row.purchase = ⟨.googlePlay, s.environment, linked⟩ ∧
        row.verifiedAt ≤ observedAt) :
    Superseded ⟨db', ⟨s, observedAt⟩ :: w.applied⟩ := by
  intro p
  constructor
  · rintro ⟨row', hrow', rfl, hsuperseded⟩
    rcases (happlied.rows row').mp hrow' with ⟨row, hrow, rfl⟩ | ⟨_, rfl⟩
    · rw [StoreSubscription.purchase_absorb]
      by_cases hbefore : row.superseded = true
      · obtain ⟨x, hx, hreplaces⟩ := (h row.purchase).mp ⟨row, hrow, rfl, hbefore⟩
        exact ⟨x, List.mem_cons_of_mem _ hx, hreplaces⟩
      · refine ⟨⟨s, observedAt⟩, List.mem_cons_self, ?_⟩
        unfold StoreSubscription.absorb at hsuperseded
        split at hsuperseded
        · exact absurd hsuperseded hbefore
        split at hsuperseded
        · rename_i hreplaced
          exact replaces_of_isReplaced hreplaced
        · exact absurd hsuperseded hbefore
    · exact absurd hsuperseded (by simp [StoreSubscription.new])
  · rintro ⟨x, hx, hreplaces⟩
    rcases List.mem_cons.mp hx with rfl | hold
    · obtain ⟨hprovider, henvironment, hlinked, hother⟩ := hreplaces
      obtain ⟨row, hrow, hpurchase, hverified⟩ := hfinds p.originalId hlinked hother
      have hsame : row.purchase = p := by
        rw [hpurchase]
        simp only at hprovider henvironment
        rw [← hprovider, ← henvironment]
      subst hsame
      have hreplaced := isReplaced_of_replaces htied happlied
        ⟨hprovider, henvironment, hlinked, hother⟩ hrow hverified
      have hne : row.purchase ≠ s.purchase := by
        intro heq
        exact hother (congrArg Purchase.originalId heq)
      refine ⟨_, (happlied.rows _).mpr (Or.inl ⟨row, hrow, rfl⟩),
        StoreSubscription.purchase_absorb, ?_⟩
      rw [StoreSubscription.absorb, if_neg hne, if_pos hreplaced]
      rfl
    · obtain ⟨row, hrow, hpurchase, hsuperseded⟩ := (h p).mpr ⟨x, hold, hreplaces⟩
      have hkeeps := Keeps.absorb owner account encrypted observedAt s row
      exact ⟨_, (happlied.rows _).mpr (Or.inl ⟨row, hrow, rfl⟩), hkeeps.purchase.trans hpurchase,
        hkeeps.superseded hsuperseded⟩

theorem Bystands.superseded {row' : StoreSubscription} (h : Bystands a row row') :
    row'.superseded = row.superseded := by
  cases h <;> rfl

theorem Superseded.next (h : Superseded w) (htied : Tied w.db) (googleId : Uuid → String)
    (hfinds : FindsReplaced w a) : Superseded (Shop.next googleId w a) := by
  rcases next_cases googleId w a with ⟨s, encrypted, expectedUser, observedAt, newId, eventId, clock,
    owner, account, rfl, hlog, happlied⟩ | ⟨hlog, hforth, hback⟩
  · have hafter := h.applied htied happlied hfinds
    rwa [← hlog] at hafter
  · intro p
    rw [hlog, ← h p]
    constructor
    · rintro ⟨row', hrow', hpurchase, hsuperseded⟩
      obtain ⟨row, hrow, hstep⟩ := hback row' hrow'
      exact ⟨row, hrow, hstep.keeps.purchase.symm.trans hpurchase,
        hstep.superseded.symm.trans hsuperseded⟩
    · rintro ⟨row, hrow, hpurchase, hsuperseded⟩
      obtain ⟨row', hrow', hstep⟩ := hforth row hrow
      exact ⟨row', hrow', hstep.keeps.purchase.trans hpurchase,
        hstep.superseded.trans hsuperseded⟩

theorem superseded_exec (h : Superseded w) (htied : Tied w.db) (googleId : Uuid → String)
    (hfinds : (shop googleId).Along FindsReplaced w as) :
    Superseded ((shop googleId).exec w as) := by
  induction as generalizing w with
  | nil => exact h
  | cons a as ih => exact ih (h.next htied googleId hfinds.1) (htied.next googleId a) hfinds.2

/-- A snapshot of a replaced purchase leaves every table alone. -/
theorem apply_superseded {s : StoreSnapshot} (hrow : row ∈ w.db.purchases)
    (hsuperseded : row.superseded = true) (hpurchase : s.purchase = row.purchase)
    (googleId : Uuid → String) (encrypted : String) (expectedUser : Option Uuid) (observedAt : ℤ)
    (newId eventId : Uuid) (clock : ℤ) :
    (Shop.next googleId w
      (.apply s encrypted expectedUser observedAt newId eventId clock)).db = w.db := by
  simp only [Shop.next]
  split
  · rename_i db' owner happly
    rcases apply_eq_ok happly with ⟨hnone, _⟩ | ⟨owner, account, _, happlied⟩
    · exact absurd hnone (by simp)
    · have haccepts := happlied.accepts row hrow hpurchase.symm
      simp [StoreSubscription.accepts, hsuperseded] at haccepts
  · rename_i db' happly
    rcases apply_eq_ok happly with ⟨_, hsame, _⟩ | ⟨owner, account, hsome, _⟩
    · exact hsame
    · exact absurd hsome (by simp)
  · rfl

theorem superseded_opening (members : Table UserAccount.userId) (accounts : Table StoreAccount.id)
    (outbox : Outbox.OutboxTable) : Superseded (Shop.opening members accounts outbox) := by
  intro p
  simp [IsSuperseded, Shop.opening]

theorem replaced_purchase_excluded {googleId : Uuid → String} {members : Table UserAccount.userId}
    {accounts : Table StoreAccount.id} {outbox : Outbox.OutboxTable} {as : List ShopStep}
    (hfinds : (shop googleId).Along FindsReplaced (.opening members accounts outbox) as) :
    (∀ x ∈ ((shop googleId).exec (.opening members accounts outbox) as).applied, ∀ p,
      x.snapshot.Replaces p →
      ∃ row ∈ ((shop googleId).exec (.opening members accounts outbox) as).db.purchases,
        row.purchase = p ∧ row.superseded = true ∧ (∀ at_, row.candidate? at_ = none) ∧
        ∀ s encrypted expectedUser observedAt newId eventId clock, s.purchase = p →
          row ∈ ((shop googleId).exec (.opening members accounts outbox)
            (as ++ [.apply s encrypted expectedUser observedAt newId eventId clock])).db.purchases) ∧
    ∀ bs, (shop googleId).Along FindsReplaced (.opening members accounts outbox) bs →
      ((shop googleId).exec (.opening members accounts outbox) as).applied.Perm
        ((shop googleId).exec (.opening members accounts outbox) bs).applied →
      ∀ p, IsSuperseded ((shop googleId).exec (.opening members accounts outbox) as).db p ↔
        IsSuperseded ((shop googleId).exec (.opening members accounts outbox) bs).db p := by
  have htied : Tied (Shop.opening members accounts outbox).db := by
    simp [Tied, Shop.opening]
  have hexact : ∀ bs, (shop googleId).Along FindsReplaced (.opening members accounts outbox) bs →
      Superseded ((shop googleId).exec (.opening members accounts outbox) bs) :=
    fun bs hbs ↦ superseded_exec (superseded_opening members accounts outbox) htied googleId hbs
  refine ⟨fun x hx p hreplaces ↦ ?_, fun bs hbs hperm p ↦ ?_⟩
  · obtain ⟨row, hrow, rfl, hsuperseded⟩ := (hexact as hfinds p).mpr ⟨x, hx, hreplaces⟩
    refine ⟨row, hrow, rfl, hsuperseded, fun at_ ↦ ?_, ?_⟩
    · simp [StoreSubscription.candidate?, hsuperseded]
    · intro s encrypted expectedUser observedAt newId eventId clock hpurchase
      rw [System.exec_concat]
      have hsame := apply_superseded hrow hsuperseded hpurchase googleId encrypted expectedUser
        observedAt newId eventId clock
      change row ∈ (Shop.next googleId _ _).db.purchases
      rw [hsame]
      exact hrow
  · rw [hexact as hfinds p, hexact bs hbs p]
    constructor
    · rintro ⟨x, hx, hreplaces⟩
      exact ⟨x, hperm.mem_iff.mp hx, hreplaces⟩
    · rintro ⟨x, hx, hreplaces⟩
      exact ⟨x, hperm.mem_iff.mpr hx, hreplaces⟩

end Superseded

/-- The successor arrives first. -/
def lateToken : List ShopStep :=
  [sampleApply (samplePurchaseOf "second" (uuidText 5) (some "first") (days 30)) (seconds 20) 7,
    sampleApply (samplePurchaseOf "first" (uuidText 5) none (days 30)) (seconds 10) 6]

theorem replaced_purchase_granted :
    ((shop uuidText).exec (.opening ∅ ∅ ∅) (sampleShop ++ lateToken)).applied.map
        (fun x ↦ x.snapshot.originalId) = ["first", "second"] ∧
      (((shop uuidText).exec (.opening ∅ ∅ ∅) (sampleShop ++ lateToken)).db.purchases.find?
        ⟨.googlePlay, .production, "first"⟩).map (fun row ↦
          (row.superseded, (row.candidate? (seconds 30)).map
            EffectiveSubscription.accessGranted)) = some (false, some true) ∧
      (((shop uuidText).exec (.opening ∅ ∅ ∅) (sampleShop ++ replacedToken)).db.purchases.find?
        ⟨.googlePlay, .production, "first"⟩).map StoreSubscription.superseded = some true := by
  decide +kernel

theorem replaced_purchase_excluded_inOrder :
    ∃ row ∈ ((shop uuidText).exec (.opening ∅ ∅ ∅) (sampleShop ++ replacedToken)).db.purchases,
      row.purchase = ⟨.googlePlay, .production, "first"⟩ ∧ row.superseded = true ∧
        ∀ at_, row.candidate? at_ = none := by
  have hfinds : (shop uuidText).Along FindsReplaced (.opening ∅ ∅ ∅)
      (sampleShop ++ replacedToken) := by decide +kernel
  have happlied : (⟨samplePurchaseOf "second" (uuidText 5) (some "first") (days 30), seconds 20⟩ :
      Observation) ∈ ((shop uuidText).exec (.opening ∅ ∅ ∅)
        (sampleShop ++ replacedToken)).applied := by decide +kernel
  obtain ⟨row, hrow, hpurchase, hsuperseded, hcandidate, _⟩ :=
    (replaced_purchase_excluded hfinds).1 _ happlied ⟨.googlePlay, .production, "first"⟩
      ⟨rfl, rfl, rfl, by decide⟩
  exact ⟨row, hrow, hpurchase, hsuperseded, hcandidate⟩

end Histae.Billing
