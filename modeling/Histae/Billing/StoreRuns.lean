import Mathlib
import Histae.Billing.Stores
import Histae.Systems.Run

/-!
# Runs of the stores

Verifications, notifications and reconciliations apply snapshots with
arbitrary bindings and observation times, between the creation, the
restriction and the anonymization of accounts. A purchase stays with the
store account it was first bound to, loses its user when the user is
anonymized and never gets one again, and shows the snapshot with the greatest
observation time, unless a linked purchase replaced it.
-/

namespace Histae.Billing

open Relational Systems

structure Observation where
  snapshot : StoreSnapshot
  observedAt : ℤ
  deriving DecidableEq

/-- The store tables, with the snapshots that were applied. -/
structure Shop where
  db : StoreDb
  applied : List Observation

inductive ShopStep
  | apply (s : StoreSnapshot) (encrypted : String) (expectedUser : Option Uuid) (observedAt : ℤ)
      (newId eventId : Uuid) (clock : ℤ)
  | account (userId newId : Uuid) (clock : ℤ)
  | acknowledged (id : Uuid)
  | schedule (now : ℤ) (locked : List Uuid) (eventIds : Uuid → Uuid)
  | register (member : UserAccount)
  | restrict (userId : Uuid) (isBanned : Bool) (deletedAt : Option ℤ)
  | anonymize (userId : Uuid) (now : ℤ)

namespace Shop

variable (googleId : Uuid → String)

def next (w : Shop) : ShopStep → Shop
  | .apply s encrypted expectedUser observedAt newId eventId clock =>
      match w.db.apply s encrypted expectedUser observedAt newId eventId clock with
      | .ok (db, some _) => ⟨db, ⟨s, observedAt⟩ :: w.applied⟩
      | .ok (db, none) => { w with db }
      | .error _ => w
  | .account userId newId clock =>
      match w.db.account googleId userId newId clock with
      | .ok (db, _) => { w with db }
      | .error _ => w
  | .acknowledged id => { w with db := w.db.acknowledged id }
  | .schedule now locked eventIds => { w with db := w.db.schedule now locked eventIds }
  | .register member =>
      { w with db := { w.db with members := (w.db.members.insert? member).getD w.db.members } }
  | .restrict userId isBanned deletedAt =>
      { w with
        db := { w.db with
          members := w.db.members.modify (fun m ↦ m.userId = userId)
            (fun m ↦ { m with isBanned := isBanned, deletedAt := deletedAt }) fun _ ↦ rfl } }
  | .anonymize userId now => { w with db := w.db.anonymize userId now }

end Shop

/-- The stores; every step is possible at any time. -/
def shop (googleId : Uuid → String) : System Shop ShopStep where
  Enabled _ _ := True
  next := Shop.next googleId

namespace StoreSubscription

/-- What an applied snapshot makes of a stored row. -/
def absorb (owner account : Uuid) (encrypted : String) (observedAt : ℤ) (s : StoreSnapshot)
    (row : StoreSubscription) : StoreSubscription :=
  if row.purchase = s.purchase then row.refresh encrypted observedAt s
  else if row.isReplaced owner account observedAt s then row.supersede observedAt
  else row

variable {owner account : Uuid} {encrypted : String} {observedAt : ℤ} {s : StoreSnapshot}
  {row : StoreSubscription}

theorem purchase_absorb : (row.absorb owner account encrypted observedAt s).purchase =
    row.purchase := by
  unfold absorb
  split
  · rfl
  split <;> rfl

theorem isReplaced_eq_false (h : row.purchase = s.purchase) :
    row.isReplaced owner account observedAt s = false := by
  have hid : row.originalId = s.originalId := congrArg Purchase.originalId h
  simp [isReplaced, hid]

/-- The two updates of an applied snapshot never meet in one row. -/
theorem absorb_eq (refreshed : StoreSubscription)
    (h : refreshed = if row.purchase = s.purchase then row.refresh encrypted observedAt s else row) :
    (if refreshed.isReplaced owner account observedAt s then refreshed.supersede observedAt
      else refreshed) = row.absorb owner account encrypted observedAt s := by
  unfold absorb
  by_cases hsame : row.purchase = s.purchase
  · rw [if_pos hsame] at h ⊢
    have hpurchase : refreshed.purchase = s.purchase := by
      rw [h]
      exact hsame
    rw [isReplaced_eq_false hpurchase, if_neg Bool.false_ne_true, h]
  · rw [if_neg hsame] at h ⊢
    rw [h]

end StoreSubscription

section Apply

variable {db db' : StoreDb} {s : StoreSnapshot} {encrypted : String} {expectedUser : Option Uuid}
  {observedAt : ℤ} {newId eventId : Uuid} {clock : ℤ} {result : Option Uuid}

/-- What an accepted snapshot did. -/
structure Applied (db db' : StoreDb) (s : StoreSnapshot) (encrypted : String) (observedAt : ℤ)
    (newId owner account : Uuid) : Prop where
  bound : db.owner s.provider s.accountBinding = some owner
  held : db.accountOf owner = some account
  unlinked : ∀ linked ∈ s.linkedReferenceHash,
    db.linkedOwnerConflict s.environment linked account = false
  members : db'.members = db.members
  accounts : db'.accounts = db.accounts
  accepts : ∀ row ∈ db.purchases, row.purchase = s.purchase →
    row.accepts owner account observedAt = true
  rows : ∀ row', row' ∈ db'.purchases ↔
    (∃ row ∈ db.purchases, row' = row.absorb owner account encrypted observedAt s) ∨
      db.purchases.find? s.purchase = none ∧
        row' = .new newId owner account encrypted observedAt s

theorem mem_supersedeLinked {owner account : Uuid} {row' : StoreSubscription} :
    row' ∈ (db.supersedeLinked owner account observedAt s).purchases ↔
      ∃ row ∈ db.purchases, row' = if row.isReplaced owner account observedAt s then
        row.supersede observedAt else row := by
  have hkey : ∀ row : StoreSubscription, (row.supersede observedAt).purchase = row.purchase :=
    fun _ ↦ rfl
  exact Table.mem_modify hkey

theorem applied_of_applySubscription {owner account id : Uuid} {applied : StoreDb}
    (howner : db.owner s.provider s.accountBinding = some owner)
    (haccount : db.accountOf owner = some account)
    (hunlinked : ∀ linked ∈ s.linkedReferenceHash,
      db.linkedOwnerConflict s.environment linked account = false)
    (h : db.applySubscription owner account newId encrypted observedAt s =
      .ok (some (applied, id))) :
    Applied db (applied.supersedeLinked owner account observedAt s) s encrypted observedAt newId
      owner account := by
  unfold StoreDb.applySubscription at h
  have hkey : ∀ row : StoreSubscription, (row.refresh encrypted observedAt s).purchase =
    row.purchase := fun _ ↦ rfl
  split at h
  · rename_i row hrow
    split at h
    · rename_i haccepts
      obtain ⟨rfl, rfl⟩ := Prod.mk.inj (Option.some.inj (Except.ok.inj h))
      obtain ⟨hmem, hpurchase⟩ := Table.find?_eq_some_iff.mp hrow
      refine ⟨howner, haccount, hunlinked, rfl, rfl, fun row' hrow' hsame ↦ ?_, fun row' ↦ ?_⟩
      · obtain rfl : row' = row := Table.eq_of_key_eq hrow' hmem (hsame.trans hpurchase.symm)
        exact haccepts
      · rw [mem_supersedeLinked, hrow]
        constructor
        · rintro ⟨middle, hmiddle, rfl⟩
          obtain ⟨before, hbefore, hrefreshed⟩ := (Table.mem_modify hkey).mp hmiddle
          exact Or.inl ⟨before, hbefore, StoreSubscription.absorb_eq middle (by simpa using hrefreshed)⟩
        · rintro (⟨before, hbefore, rfl⟩ | ⟨hnone, _⟩)
          · exact ⟨_, (Table.mem_modify hkey).mpr ⟨before, hbefore, rfl⟩,
              (StoreSubscription.absorb_eq _ (by simp)).symm⟩
          · exact absurd hnone (by simp)
    · exact absurd h (by simp)
  · rename_i hnone
    split at h
    · exact absurd h (by simp)
    split at h
    · rename_i purchases hinsert
      obtain ⟨rfl, rfl⟩ := Prod.mk.inj (Option.some.inj (Except.ok.inj h))
      have hfresh := Table.find?_eq_none_iff.mp hnone
      have hother : ∀ row ∈ db.purchases,
          (if row.isReplaced owner account observedAt s then row.supersede observedAt else row) =
            row.absorb owner account encrypted observedAt s := by
        intro row hrow
        exact StoreSubscription.absorb_eq row (by rw [if_neg (hfresh row hrow)])
      have hnew : (StoreSubscription.new newId owner account encrypted observedAt s).isReplaced
          owner account observedAt s = false := StoreSubscription.isReplaced_eq_false rfl
      refine ⟨howner, haccount, hunlinked, rfl, rfl,
        fun row hrow hsame ↦ absurd hsame (hfresh row hrow), fun row' ↦ ?_⟩
      rw [mem_supersedeLinked]
      constructor
      · rintro ⟨middle, hmiddle, rfl⟩
        rcases (Table.mem_insert hinsert).mp hmiddle with rfl | hbefore
        · exact Or.inr ⟨hnone, by rw [hnew, if_neg Bool.false_ne_true]⟩
        · exact Or.inl ⟨middle, hbefore, hother middle hbefore⟩
      · rintro (⟨before, hbefore, rfl⟩ | ⟨_, rfl⟩)
        · exact ⟨before, (Table.mem_insert hinsert).mpr (Or.inr hbefore), (hother before hbefore).symm⟩
        · exact ⟨_, (Table.mem_insert hinsert).mpr (Or.inl rfl),
            by rw [hnew, if_neg Bool.false_ne_true]⟩
    · exact absurd h (by simp)

/-- A snapshot that is not applied changes nothing. -/
theorem apply_eq_ok
    (h : db.apply s encrypted expectedUser observedAt newId eventId clock = .ok (db', result)) :
    result = none ∧ db' = db ∧
        (∃ owner, (db.purchases.find? s.purchase).bind StoreSubscription.userId = some owner) ∨
      ∃ owner account, result = some owner ∧
      Applied db db' s encrypted observedAt newId owner account := by
  unfold StoreDb.apply at h
  split at h
  · exact absurd h (by simp)
  rename_i owner howner
  split at h
  · exact absurd h (by simp)
  split at h
  · exact absurd h (by simp)
  split at h
  · exact absurd h (by simp)
  rename_i account haccount
  split at h
  · exact absurd h (by simp)
  rename_i hconflict
  have hunlinked : ∀ linked ∈ s.linkedReferenceHash,
      db.linkedOwnerConflict s.environment linked account = false := by
    intro linked hlinked
    rw [Option.mem_def.mp hlinked] at hconflict
    simpa using hconflict
  split at h
  · exact absurd h (by simp)
  · split at h
    · rename_i hprevious
      obtain ⟨rfl, rfl⟩ := Prod.mk.inj (Except.ok.inj h)
      exact Or.inl ⟨rfl, rfl, owner, hprevious⟩
    · exact absurd h (by simp)
  · rename_i applied id hsubscription
    have happlied := applied_of_applySubscription howner haccount hunlinked hsubscription
    simp only at h
    split at h
    · obtain ⟨rfl, rfl⟩ := Prod.mk.inj (Except.ok.inj h)
      exact Or.inr ⟨owner, account, rfl, { happlied with }⟩
    · obtain ⟨rfl, rfl⟩ := Prod.mk.inj (Except.ok.inj h)
      exact Or.inr ⟨owner, account, rfl, happlied⟩

end Apply

/-- What every step keeps of a row. -/
structure Keeps (row row' : StoreSubscription) : Prop where
  purchase : row'.purchase = row.purchase
  accountId : row'.accountId = row.accountId
  userId : row'.userId = row.userId ∨ row'.userId = none
  acknowledged : row.acknowledged = true → row'.acknowledged = true
  superseded : row.superseded = true → row'.superseded = true

namespace Keeps

variable {row row' row'' : StoreSubscription}

theorem refl (row : StoreSubscription) : Keeps row row := ⟨rfl, rfl, Or.inl rfl, id, id⟩

theorem trans (h : Keeps row row') (h' : Keeps row' row'') : Keeps row row'' where
  purchase := h'.purchase.trans h.purchase
  accountId := h'.accountId.trans h.accountId
  userId := by
    rcases h'.userId with hsame | hnone
    · rw [hsame]
      exact h.userId
    · exact Or.inr hnone
  acknowledged := h'.acknowledged ∘ h.acknowledged
  superseded := h'.superseded ∘ h.superseded

theorem absorb (owner account : Uuid) (encrypted : String) (observedAt : ℤ) (s : StoreSnapshot)
    (row : StoreSubscription) : Keeps row (row.absorb owner account encrypted observedAt s) := by
  unfold StoreSubscription.absorb
  split
  · exact ⟨rfl, rfl, Or.inl rfl, fun h ↦ by simp [StoreSubscription.refresh, h], id⟩
  split
  · exact ⟨rfl, rfl, Or.inl rfl, id, fun _ ↦ rfl⟩
  · exact refl row

end Keeps

/-- What a step other than an applied snapshot does to the rows. -/
inductive Bystands : ShopStep → StoreSubscription → StoreSubscription → Prop
  | same {a row} : Bystands a row row
  | acknowledge {id row} : Bystands (.acknowledged id) row { row with acknowledged := true }
  | reschedule {now locked eventIds row} :
      Bystands (.schedule now locked eventIds) row { row with nextCheckAt := now + hours 6 }
  | detach {userId now row} (huser : row.userId = some userId) :
      Bystands (.anonymize userId now) row row.detach

section Steps

variable {googleId : Uuid → String} {w : Shop} {a : ShopStep} {as : List ShopStep}
  {row row' : StoreSubscription}

/-- Events leave the store tables alone. -/
theorem tables_enqueued (db : StoreDb) (ids : List Uuid) (eventIds : Uuid → Uuid) (now : ℤ) :
    (ids.foldl (fun db id ↦ db.enqueue .storeReconcile id (eventIds id) now) db).purchases =
        db.purchases ∧
      (ids.foldl (fun db id ↦ db.enqueue .storeReconcile id (eventIds id) now) db).accounts =
        db.accounts := by
  induction ids generalizing db with
  | nil => exact ⟨rfl, rfl⟩
  | cons id ids ih => exact ih _

theorem purchases_account {db db' : StoreDb} {userId newId : Uuid} {clock : ℤ}
    {account : StoreAccount} (h : db.account googleId userId newId clock = .ok (db', account)) :
    db'.purchases = db.purchases := by
  unfold StoreDb.account at h
  split at h
  · split at h
    · rw [← (Prod.mk.inj (Except.ok.inj h)).1]
    · split at h
      · exact absurd h (by simp)
      split at h
      · rw [← (Prod.mk.inj (Except.ok.inj h)).1]
      · exact absurd h (by simp)
  · exact absurd h (by simp)

/-- A step applies a snapshot, or leaves the log and the set of purchases as
they are. -/
theorem next_cases (googleId : Uuid → String) (w : Shop) (a : ShopStep) :
    (∃ s encrypted expectedUser observedAt newId eventId clock owner account,
      a = .apply s encrypted expectedUser observedAt newId eventId clock ∧
      (Shop.next googleId w a).applied = ⟨s, observedAt⟩ :: w.applied ∧
      Applied w.db (Shop.next googleId w a).db s encrypted observedAt newId owner account) ∨
    (Shop.next googleId w a).applied = w.applied ∧
      (∀ row ∈ w.db.purchases, ∃ row' ∈ (Shop.next googleId w a).db.purchases,
        Bystands a row row') ∧
      ∀ row' ∈ (Shop.next googleId w a).db.purchases, ∃ row ∈ w.db.purchases,
        Bystands a row row' := by
  have hmodify : ∀ (p : StoreSubscription → Bool) (f : StoreSubscription → StoreSubscription)
      (hf : ∀ row, (f row).purchase = row.purchase),
      (∀ row, p row = true → Bystands a row (f row)) →
      (∀ row ∈ w.db.purchases, ∃ row' ∈ w.db.purchases.modify p f hf, Bystands a row row') ∧
        ∀ row' ∈ w.db.purchases.modify p f hf, ∃ row ∈ w.db.purchases, Bystands a row row' := by
    intro p f hf hstep
    have hrow : ∀ row, Bystands a row (if p row then f row else row) := by
      intro row
      by_cases hp : p row = true
      · rw [if_pos hp]
        exact hstep row hp
      · rw [if_neg hp]
        exact .same
    constructor
    · intro row hmem
      exact ⟨_, (Table.mem_modify hf).mpr ⟨row, hmem, rfl⟩, hrow row⟩
    · intro row' hmem
      obtain ⟨row, hbefore, rfl⟩ := (Table.mem_modify hf).mp hmem
      exact ⟨row, hbefore, hrow row⟩
  have hsame : (∀ row ∈ w.db.purchases, ∃ row' ∈ w.db.purchases, Bystands a row row') ∧
      ∀ row' ∈ w.db.purchases, ∃ row ∈ w.db.purchases, Bystands a row row' :=
    ⟨fun row hrow ↦ ⟨row, hrow, .same⟩, fun row hrow ↦ ⟨row, hrow, .same⟩⟩
  cases a with
  | apply s encrypted expectedUser observedAt newId eventId clock =>
      cases happly : w.db.apply s encrypted expectedUser observedAt newId eventId clock with
      | error error =>
          simp only [Shop.next, happly]
          exact Or.inr ⟨trivial, hsame⟩
      | ok answer =>
          obtain ⟨db', result⟩ := answer
          rcases apply_eq_ok happly with ⟨rfl, rfl, _⟩ | ⟨owner, account, rfl, happlied⟩
          · simp only [Shop.next, happly]
            exact Or.inr ⟨trivial, hsame⟩
          · simp only [Shop.next, happly]
            exact Or.inl ⟨s, encrypted, expectedUser, observedAt, newId, eventId, clock, owner,
              account, rfl, rfl, happlied⟩
  | account userId newId clock =>
      refine Or.inr ?_
      simp only [Shop.next]
      split
      · rename_i db' account haccount
        simp only [purchases_account haccount]
        exact ⟨trivial, hsame⟩
      · exact ⟨rfl, hsame⟩
  | acknowledged id =>
      refine Or.inr ⟨rfl, hmodify _ _ ?_ fun row _ ↦ .acknowledge⟩
      exact fun _ ↦ rfl
  | schedule now locked eventIds =>
      refine Or.inr ⟨rfl, ?_⟩
      simp only [Shop.next, StoreDb.schedule, (tables_enqueued w.db _ eventIds now).1]
      exact hmodify _ _ _ fun row _ ↦ .reschedule
  | register member => exact Or.inr ⟨rfl, hsame⟩
  | restrict userId isBanned deletedAt => exact Or.inr ⟨rfl, hsame⟩
  | anonymize userId now =>
      refine Or.inr ⟨rfl, hmodify _ _ ?_ fun row huser ↦ .detach (by simpa using huser)⟩
      exact fun _ ↦ rfl

theorem Bystands.keeps (h : Bystands a row row') : Keeps row row' := by
  cases h with
  | same => exact .refl row
  | acknowledge => exact ⟨rfl, rfl, Or.inl rfl, fun _ ↦ rfl, id⟩
  | reschedule => exact ⟨rfl, rfl, Or.inl rfl, id, id⟩
  | detach _ => exact ⟨rfl, rfl, Or.inr rfl, id, id⟩

theorem keeps_next (googleId : Uuid → String) (a : ShopStep) (h : row ∈ w.db.purchases) :
    ∃ row' ∈ (Shop.next googleId w a).db.purchases, Keeps row row' := by
  rcases next_cases googleId w a with ⟨s, encrypted, _, observedAt, newId, _, _, owner, account, _,
    _, happlied⟩ | ⟨_, hforth, _⟩
  · exact ⟨_, (happlied.rows _).mpr (Or.inl ⟨row, h, rfl⟩), .absorb ..⟩
  · obtain ⟨row', hrow', hstep⟩ := hforth row h
    exact ⟨row', hrow', hstep.keeps⟩

theorem keeps_exec (googleId : Uuid → String) (as : List ShopStep) (h : row ∈ w.db.purchases) :
    ∃ row' ∈ ((shop googleId).exec w as).db.purchases, Keeps row row' := by
  induction as generalizing w row with
  | nil => exact ⟨row, h, .refl row⟩
  | cons a as ih =>
      obtain ⟨row', hrow', hstep⟩ := keeps_next googleId a h
      obtain ⟨row'', hrow'', hrest⟩ := ih hrow'
      exact ⟨row'', hrow'', hstep.trans hrest⟩

/-- The row shows the snapshot, but for the status of a replaced row. -/
structure Shows (row : StoreSubscription) (x : Observation) : Prop where
  purchase : x.snapshot.purchase = row.purchase
  productId : row.productId = x.snapshot.productId
  basePlanId : row.basePlanId = x.snapshot.basePlanId
  transactionId : row.transactionId = x.snapshot.transactionId
  billingPeriod : row.billingPeriod = x.snapshot.billingPeriod
  startsAt : row.startsAt = x.snapshot.startsAt
  expiresAt : row.expiresAt = x.snapshot.expiresAt
  status : row.status = if row.superseded then .expired else x.snapshot.status
  observed : x.observedAt ≤ row.verifiedAt

/-- The row shows an applied snapshot of its purchase, and none was observed
later. -/
def Stems (applied : List Observation) (row : StoreSubscription) : Prop :=
  ∃ x ∈ applied, Shows row x ∧
    ∀ y ∈ applied, y.snapshot.purchase = row.purchase → y.observedAt ≤ x.observedAt

/-- Every applied snapshot has a row, and every row shows one. -/
structure Recorded (w : Shop) : Prop where
  stored : ∀ y ∈ w.applied, ∃ row ∈ w.db.purchases, row.purchase = y.snapshot.purchase
  stems : ∀ row ∈ w.db.purchases, Stems w.applied row

theorem Bystands.shows {x : Observation} (h : Bystands a row row') (hx : Shows row x) :
    Shows row' x := by
  cases h with
  | same => exact hx
  | acknowledge => exact { hx with }
  | reschedule => exact { hx with }
  | detach _ => exact { hx with }

theorem shows_refresh {encrypted : String} {observedAt : ℤ} {s : StoreSnapshot}
    (hpurchase : row.purchase = s.purchase) (hsuperseded : row.superseded = false) :
    Shows (row.refresh encrypted observedAt s) ⟨s, observedAt⟩ where
  purchase := hpurchase.symm
  productId := rfl
  basePlanId := rfl
  transactionId := rfl
  billingPeriod := rfl
  startsAt := rfl
  expiresAt := rfl
  status := by simp [StoreSubscription.refresh, hsuperseded]
  observed := le_rfl

theorem Recorded.next (h : Recorded w) (googleId : Uuid → String) (a : ShopStep) :
    Recorded (Shop.next googleId w a) := by
  rcases next_cases googleId w a with ⟨s, encrypted, expectedUser, observedAt, newId, eventId, clock,
    owner, account, _, hlog, happlied⟩ | ⟨hlog, hforth, hback⟩
  · have hcovers : ∀ y ∈ w.applied, ∃ row ∈ w.db.purchases, row.purchase = y.snapshot.purchase ∧
        y.observedAt ≤ row.verifiedAt := by
      intro y hy
      obtain ⟨row, hrow, hpurchase⟩ := h.stored y hy
      obtain ⟨x, _, hshows, hlast⟩ := h.stems row hrow
      exact ⟨row, hrow, hpurchase, (hlast y hy hpurchase.symm).trans hshows.observed⟩
    constructor
    · intro y hy
      rw [hlog] at hy
      rcases List.mem_cons.mp hy with rfl | hold
      · cases hfind : w.db.purchases.find? s.purchase with
        | none => exact ⟨_, (happlied.rows _).mpr (Or.inr ⟨hfind, rfl⟩), rfl⟩
        | some row =>
            obtain ⟨hrow, hpurchase⟩ := Table.find?_eq_some_iff.mp hfind
            exact ⟨_, (happlied.rows _).mpr (Or.inl ⟨row, hrow, rfl⟩),
              StoreSubscription.purchase_absorb.trans hpurchase⟩
      · obtain ⟨row, hrow, hpurchase⟩ := h.stored y hold
        exact ⟨_, (happlied.rows _).mpr (Or.inl ⟨row, hrow, rfl⟩),
          StoreSubscription.purchase_absorb.trans hpurchase⟩
    · intro row' hrow'
      rw [hlog]
      rcases (happlied.rows _).mp hrow' with ⟨row, hrow, rfl⟩ | ⟨hnone, rfl⟩
      · by_cases hsame : row.purchase = s.purchase
        · have haccepts := happlied.accepts row hrow hsame
          simp only [StoreSubscription.accepts, Bool.and_eq_true, decide_eq_true_eq,
            Bool.not_eq_true'] at haccepts
          rw [StoreSubscription.absorb, if_pos hsame]
          refine ⟨_, List.mem_cons_self, shows_refresh hsame haccepts.2, ?_⟩
          refine List.forall_mem_cons.mpr ⟨fun _ ↦ le_rfl, fun y hy hpurchase ↦ ?_⟩
          obtain ⟨before, hbefore, hbeforeKey, hobserved⟩ := hcovers y hy
          obtain rfl : before = row :=
            Table.eq_of_key_eq hbefore hrow (hbeforeKey.trans hpurchase)
          exact hobserved.trans haccepts.1.2
        · obtain ⟨x, hx, hshows, hlast⟩ := h.stems row hrow
          rw [StoreSubscription.absorb, if_neg hsame]
          have hlast' : ∀ y ∈ (⟨s, observedAt⟩ :: w.applied : List Observation),
              y.snapshot.purchase = row.purchase → y.observedAt ≤ x.observedAt :=
            List.forall_mem_cons.mpr ⟨fun heq ↦ absurd heq.symm hsame, hlast⟩
          split
          · rename_i hreplaced
            simp only [StoreSubscription.isReplaced, Bool.and_eq_true, decide_eq_true_eq]
              at hreplaced
            refine ⟨x, List.mem_cons_of_mem _ hx, { hshows with status := rfl, observed := ?_ },
              hlast'⟩
            exact hshows.observed.trans hreplaced.1.1.2
          · exact ⟨x, List.mem_cons_of_mem _ hx, hshows, hlast'⟩
      · refine ⟨_, List.mem_cons_self, ⟨rfl, rfl, rfl, rfl, rfl, rfl, rfl, rfl, le_rfl⟩, ?_⟩
        refine List.forall_mem_cons.mpr ⟨fun _ ↦ le_rfl, fun y hy hpurchase ↦ ?_⟩
        obtain ⟨before, hbefore, hkey⟩ := h.stored y hy
        exact absurd (hkey.trans hpurchase) (Table.find?_eq_none_iff.mp hnone before hbefore)
  · constructor
    · intro y hy
      rw [hlog] at hy
      obtain ⟨row, hrow, hpurchase⟩ := h.stored y hy
      obtain ⟨row', hrow', hstep⟩ := hforth row hrow
      exact ⟨row', hrow', hstep.keeps.purchase.trans hpurchase⟩
    · intro row' hrow'
      rw [hlog]
      obtain ⟨row, hrow, hstep⟩ := hback row' hrow'
      obtain ⟨x, hx, hshows, hlast⟩ := h.stems row hrow
      refine ⟨x, hx, hstep.shows hshows, ?_⟩
      rw [hstep.keeps.purchase]
      exact hlast

/-- Nothing is applied to a purchase without a user. -/
theorem apply_detached {s : StoreSnapshot} (hrow : row ∈ w.db.purchases) (hnone : row.userId = none)
    (hpurchase : s.purchase = row.purchase) (encrypted : String) (expectedUser : Option Uuid)
    (observedAt : ℤ) (newId eventId : Uuid) (clock : ℤ) :
    ∃ error, w.db.apply s encrypted expectedUser observedAt newId eventId clock = .error error := by
  cases happly : w.db.apply s encrypted expectedUser observedAt newId eventId clock with
  | error error => exact ⟨error, rfl⟩
  | ok answer =>
      obtain ⟨db', result⟩ := answer
      rcases apply_eq_ok happly with ⟨_, _, owner, hprevious⟩ | ⟨owner, account, _, happlied⟩
      · rw [hpurchase, Table.find?_key hrow, Option.bind_some, hnone] at hprevious
        exact absurd hprevious (by simp)
      · have haccepts := happlied.accepts row hrow hpurchase.symm
        simp [StoreSubscription.accepts, hnone] at haccepts

/-- The store tables before the first purchase. -/
def Shop.opening (members : Table UserAccount.userId) (accounts : Table StoreAccount.id)
    (outbox : Outbox.OutboxTable) : Shop := ⟨⟨members, accounts, ∅, outbox⟩, []⟩

theorem recorded_exec (googleId : Uuid → String) (as : List ShopStep) (h : Recorded w) :
    Recorded ((shop googleId).exec w as) := by
  induction as generalizing w with
  | nil => exact h
  | cons a as ih => exact ih (h.next googleId a)

theorem recorded_opening (members : Table UserAccount.userId) (accounts : Table StoreAccount.id)
    (outbox : Outbox.OutboxTable) : Recorded (Shop.opening members accounts outbox) :=
  ⟨by simp [Shop.opening], by simp [Shop.opening]⟩

theorem detached_anonymize (googleId : Uuid → String) {userId : Uuid} (now : ℤ)
    (hrow : row ∈ w.db.purchases) (huser : row.userId = some userId) :
    row.detach ∈ (Shop.next googleId w (.anonymize userId now)).db.purchases := by
  have hkey : ∀ row : StoreSubscription, row.detach.purchase = row.purchase := fun _ ↦ rfl
  exact (Table.mem_modify hkey).mpr ⟨row, hrow, by simp [huser]⟩

theorem purchase_belongs_to_one_account (googleId : Uuid → String)
    (members : Table UserAccount.userId) (accounts : Table StoreAccount.id)
    (outbox : Outbox.OutboxTable) (pre post : List ShopStep) :
    (∀ row ∈ ((shop googleId).exec (.opening members accounts outbox) pre).db.purchases,
      ∃ row' ∈ ((shop googleId).exec (.opening members accounts outbox) (pre ++ post)).db.purchases,
        row'.purchase = row.purchase ∧ row'.accountId = row.accountId ∧
        (row'.userId = row.userId ∨ row'.userId = none) ∧
        (row.acknowledged = true → row'.acknowledged = true)) ∧
    (∀ userId now,
      ∀ row ∈ ((shop googleId).exec (.opening members accounts outbox) pre).db.purchases,
        row.userId = some userId →
        ∃ row' ∈ ((shop googleId).exec (.opening members accounts outbox)
            (pre ++ .anonymize userId now :: post)).db.purchases,
          row'.purchase = row.purchase ∧ row'.userId = none ∧
          ∀ s encrypted expectedUser observedAt newId eventId clock, s.purchase = row.purchase →
            ∃ error, ((shop googleId).exec (.opening members accounts outbox)
              (pre ++ .anonymize userId now :: post)).db.apply s encrypted expectedUser observedAt
                newId eventId clock = .error error) ∧
    (∀ row ∈ ((shop googleId).exec (.opening members accounts outbox) pre).db.purchases,
      Stems ((shop googleId).exec (.opening members accounts outbox) pre).applied row) ∧
    (∀ s encrypted expectedUser observedAt newId eventId clock error,
      ((shop googleId).exec (.opening members accounts outbox) pre).db.apply s encrypted
        expectedUser observedAt newId eventId clock = .error error →
      ((shop googleId).exec (.opening members accounts outbox)
        (pre ++ [.apply s encrypted expectedUser observedAt newId eventId clock])).db =
          ((shop googleId).exec (.opening members accounts outbox) pre).db) := by
  refine ⟨fun row hrow ↦ ?_, fun userId now row hrow huser ↦ ?_, ?_, ?_⟩
  · obtain ⟨row', hrow', hkeeps⟩ := keeps_exec googleId post hrow
    rw [System.exec_append]
    exact ⟨row', hrow', hkeeps.purchase, hkeeps.accountId, hkeeps.userId, hkeeps.acknowledged⟩
  · rw [System.exec_append, System.exec_cons]
    obtain ⟨row', hrow', hkeeps⟩ := keeps_exec googleId post
      (detached_anonymize googleId now hrow huser)
    have hnone : row'.userId = none := by simpa [StoreSubscription.detach] using hkeeps.userId
    refine ⟨row', hrow', hkeeps.purchase, hnone, ?_⟩
    intro s encrypted expectedUser observedAt newId eventId clock hpurchase
    exact apply_detached hrow' hnone (hpurchase.trans hkeeps.purchase.symm) encrypted expectedUser
      observedAt newId eventId clock
  · exact (recorded_exec googleId pre (recorded_opening members accounts outbox)).stems
  · intro s encrypted expectedUser observedAt newId eventId clock error herror
    rw [System.exec_concat]
    simp only [shop, Shop.next] at herror ⊢
    rw [herror]

end Steps

/-- A purchase of the account with this binding, until the last instant. -/
def samplePurchaseOf (originalId accountBinding : String) (linked : Option String)
    (expiresAt : ℤ) : StoreSnapshot :=
  ⟨.googlePlay, originalId, "GPA", "premium", some "monthly", accountBinding, .production, .monthly,
    .active, 0, expiresAt, true, false, linked⟩

def sampleApply (s : StoreSnapshot) (observedAt : ℤ) (newId : Uuid) : ShopStep :=
  .apply s "" none observedAt newId newId observedAt

/-- User 1 with store account 5. -/
def sampleShop : List ShopStep :=
  [.register ⟨1, .user, false, false, 0, none, by decide⟩, .account 1 5 0]

/-- A purchase and the one that replaces it. -/
def replacedToken : List ShopStep :=
  [sampleApply (samplePurchaseOf "first" (uuidText 5) none (days 30)) (seconds 10) 6,
    sampleApply (samplePurchaseOf "second" (uuidText 5) (some "first") (days 30)) (seconds 20) 7]

theorem replaced_purchase_expired :
    (((shop uuidText).exec (.opening ∅ ∅ ∅) (sampleShop ++ replacedToken)).db.purchases.find?
        ⟨.googlePlay, .production, "first"⟩).map StoreSubscription.status = some .expired ∧
      (((shop uuidText).exec (.opening ∅ ∅ ∅) (sampleShop ++ replacedToken)).applied.filter
        fun x ↦ x.snapshot.originalId = "first").map (fun x ↦ x.snapshot.status) = [.active] := by
  decide +kernel

end Histae.Billing
