import Histae.Identity.AdminAccess

/-!
# What administrator transactions write

A row is open while it gives access: a credential or session until it is
revoked, a bootstrap or challenge until it is consumed. Every write has one
target row and opens it, ends it, or leaves it open as it was. The rows that a
transaction changes are locked by it, and what it opens for a user it opens on
behalf of a row of that user that it has found open and locked.
-/

namespace Histae.Identity

open Relational Systems

namespace AdminDb

/-- The owner of a row while the row is open. -/
def openRow (db : AdminDb) : AdminRow → Option (Option Uuid)
  | .account _ => none
  | .credential id =>
      ((db.credentials.find? id).filter fun k ↦ k.revokedAt.isNone).map fun k ↦ some k.userId
  | .session id =>
      ((db.sessions.find? id).filter fun s ↦ s.revokedAt.isNone).map fun s ↦ some s.userId
  | .bootstrap id =>
      ((db.bootstraps.find? id).filter fun b ↦ b.consumedAt.isNone).map fun b ↦ some b.userId
  | .challenge id =>
      ((db.challenges.find? id).filter fun c ↦ c.consumedAt.isNone).map fun c ↦ c.userId

def roleOf (db : AdminDb) (userId : Uuid) : Option AdminUserRole :=
  (db.accounts.find? userId).map UserAccount.role

def SameRow (db db' : AdminDb) : AdminRow → Prop
  | .account userId => db'.accounts.find? userId = db.accounts.find? userId
  | .credential id => db'.credentials.find? id = db.credentials.find? id
  | .session id => db'.sessions.find? id = db.sessions.find? id
  | .bootstrap id => db'.bootstraps.find? id = db.bootstraps.find? id
  | .challenge id => db'.challenges.find? id = db.challenges.find? id

/-- The row is stored. -/
def Has (db : AdminDb) : AdminRow → Prop
  | .account userId => (db.accounts.find? userId).isSome = true
  | .credential id => (db.credentials.find? id).isSome = true
  | .session id => (db.sessions.find? id).isSome = true
  | .bootstrap id => (db.bootstraps.find? id).isSome = true
  | .challenge id => (db.challenges.find? id).isSome = true

end AdminDb

def AdminRow.isChallenge : AdminRow → Bool
  | .challenge _ => true
  | _ => false

namespace AdminWrite

def target : AdminWrite → AdminRow
  | .insertCredential k => .credential k.id
  | .insertSession s => .session s.id
  | .insertBootstrap b => .bootstrap b.id
  | .insertChallenge c => .challenge c.id
  | .useCredential id _ _ _ _ | .renameCredential id _ | .revokeCredential id _ => .credential id
  | .touchSession id _ | .revokeSession id _ | .deleteSession id => .session id
  | .consumeBootstrap id _ | .deleteBootstrap id => .bootstrap id
  | .consumeChallenge id _ | .deleteChallenge id => .challenge id
  | .setRole userId _ | .setBan userId _ => .account userId

/-- The owner of the row that the write inserts. -/
def opens : AdminWrite → Option (Option Uuid)
  | .insertCredential k => some (some k.userId)
  | .insertSession s => some (some s.userId)
  | .insertBootstrap b => some (some b.userId)
  | .insertChallenge c => some c.userId
  | _ => none

def ends : AdminWrite → Bool
  | .revokeCredential _ _ | .revokeSession _ _ | .deleteSession _ | .consumeBootstrap _ _
  | .deleteBootstrap _ | .consumeChallenge _ _ | .deleteChallenge _ => true
  | _ => false

/-- Inserted rows are open. -/
def insertsOpen : AdminWrite → Bool
  | .insertCredential k => k.revokedAt.isNone
  | .insertSession s => s.revokedAt.isNone
  | .insertBootstrap b => b.consumedAt.isNone
  | .insertChallenge c => c.consumedAt.isNone
  | _ => true

end AdminWrite

section Keys

variable {κ ρ δ : Type} [DecidableEq κ] {key : ρ → κ} {t : Table key} {f : ρ → ρ}
  {k id : κ}

theorem find?_modify_at (e : ∀ r, key (f r) = key r) :
    (t.modify (fun r ↦ key r = id) f e).find? k = if k = id then (t.find? k).map f else t.find? k := by
  rw [Table.find?_modify]
  cases hfind : t.find? k with
  | none => simp
  | some r =>
      obtain ⟨_, rfl⟩ := Table.find?_eq_some_iff.mp hfind
      by_cases hid : key r = id <;> simp [hid]

theorem find?_delete_at :
    (t.delete fun r ↦ key r = id).find? k = if k = id then none else t.find? k := by
  rw [Table.find?_delete]
  cases hfind : t.find? k with
  | none => simp
  | some r =>
      obtain ⟨_, rfl⟩ := Table.find?_eq_some_iff.mp hfind
      by_cases hid : key r = id <;> simp [hid]

theorem find?_modify_of_ne {e : ∀ r, key (f r) = key r} (h : k ≠ id) :
    (t.modify (fun r ↦ key r = id) f e).find? k = t.find? k := (find?_modify_at e).trans (if_neg h)

theorem find?_delete_of_ne (h : k ≠ id) : (t.delete fun r ↦ key r = id).find? k = t.find? k :=
  find?_delete_at.trans (if_neg h)

theorem isSome_of_modify {e : ∀ r, key (f r) = key r}
    (h : ((t.modify (fun r ↦ key r = id) f e).find? id).isSome = true) :
    (t.find? id).isSome = true := by
  rw [find?_modify_at e, if_pos rfl, Option.isSome_map] at h
  exact h

theorem isSome_of_delete (h : ((t.delete fun r ↦ key r = id).find? id).isSome = true) :
    (t.find? id).isSome = true := by
  rw [find?_delete_at, if_pos rfl] at h
  cases h

theorem openRow_insert {r : ρ} {p : ρ → Bool} {owner : ρ → δ} (h : t.find? id = some r)
    (hp : p r = true) : ((t.find? id).filter p).map owner = some (owner r) := by
  rw [h, Option.filter_some, if_pos hp]
  rfl

theorem openRow_modify {e : ∀ r, key (f r) = key r} {p : ρ → Bool} {owner : ρ → δ}
    (h : ∀ r, p (f r) = p r ∧ owner (f r) = owner r) :
    (((t.modify (fun r ↦ key r = id) f e).find? id).filter p).map owner =
      ((t.find? id).filter p).map owner := by
  rw [find?_modify_at e, if_pos rfl]
  cases t.find? id with
  | none => rfl
  | some r =>
      rw [Option.map_some, Option.filter_some, Option.filter_some, (h r).1]
      by_cases hp : p r = true
      · rw [if_pos hp, if_pos hp, Option.map_some, Option.map_some, (h r).2]
      · rw [if_neg hp, if_neg hp]

theorem openRow_modify_end {e : ∀ r, key (f r) = key r} {p : ρ → Bool} {owner : ρ → δ}
    (h : ∀ r, p (f r) = false) :
    (((t.modify (fun r ↦ key r = id) f e).find? id).filter p).map owner = none := by
  rw [find?_modify_at e, if_pos rfl]
  cases t.find? id with
  | none => rfl
  | some r =>
      rw [Option.map_some, Option.filter_some, h r]
      rfl

theorem openRow_delete {p : ρ → Bool} {owner : ρ → δ} :
    (((t.delete fun r ↦ key r = id).find? id).filter p).map owner = none := by
  rw [find?_delete_at, if_pos rfl]
  rfl

/-- What an insertion does to its table, once its constraints hold. -/
theorem exists_insert {r : ρ} {c : Bool} {g : Table key → δ} {d : δ}
    (h : (if c then (t.insert? r).map g else none) = some d) :
    c = true ∧ ∃ t', t.insert? r = some t' ∧ g t' = d := by
  split at h
  · rename_i hc
    exact ⟨hc, Option.map_eq_some_iff.mp h⟩
  · cases h

theorem exists_change {c : Bool} {x d : δ} (h : (if c then some x else none) = some d) :
    c = true ∧ x = d := by
  split at h
  · rename_i hc
    exact ⟨hc, Option.some.inj h⟩
  · cases h

end Keys

section Writes

variable {idleTtl : ℤ} {db db' : AdminDb} {w : AdminWrite} {row : AdminRow} {ws : List AdminWrite}

theorem AdminDb.SameRow.refl (db : AdminDb) (row : AdminRow) : db.SameRow db row := by
  cases row <;> rfl

theorem AdminDb.SameRow.openRow_eq (h : db.SameRow db' row) : db'.openRow row = db.openRow row := by
  cases row with
  | account userId => rfl
  | credential id =>
      change db'.credentials.find? id = _ at h
      simp only [openRow, h]
  | session id =>
      change db'.sessions.find? id = _ at h
      simp only [openRow, h]
  | bootstrap id =>
      change db'.bootstraps.find? id = _ at h
      simp only [openRow, h]
  | challenge id =>
      change db'.challenges.find? id = _ at h
      simp only [openRow, h]

theorem AdminDb.SameRow.roleOf_eq {userId : Uuid} (h : db.SameRow db' (.account userId)) :
    db'.roleOf userId = db.roleOf userId := congrArg (Option.map UserAccount.role) h

theorem AdminDb.SameRow.trans {db₁ db₂ db₃ : AdminDb} (h₁ : db₁.SameRow db₂ row)
    (h₂ : db₂.SameRow db₃ row) : db₁.SameRow db₃ row := by
  cases row <;> exact Eq.trans h₂ h₁

theorem AdminDb.SameRow.has_iff (h : db.SameRow db' row) : db'.Has row ↔ db.Has row := by
  cases row <;> exact Eq.to_iff (congrArg (fun r ↦ Option.isSome r = true) h)

/-- A write leaves every row but its target as it was. -/
theorem sameRow_write (h : db.write idleTtl w = some db') (hne : w.target ≠ row) :
    db.SameRow db' row := by
  cases w with
  | insertCredential k =>
      obtain ⟨_, credentials, hinsert, rfl⟩ := exists_insert h
      cases row with
      | credential id =>
          exact (Table.find?_insert hinsert).trans (if_neg fun hid ↦ hne (congrArg _ hid))
      | _ => rfl
  | insertSession s =>
      obtain ⟨_, sessions, hinsert, rfl⟩ := exists_insert h
      cases row with
      | session id =>
          exact (Table.find?_insert hinsert).trans (if_neg fun hid ↦ hne (congrArg _ hid))
      | _ => rfl
  | insertBootstrap b =>
      obtain ⟨_, bootstraps, hinsert, rfl⟩ := exists_insert h
      cases row with
      | bootstrap id =>
          exact (Table.find?_insert hinsert).trans (if_neg fun hid ↦ hne (congrArg _ hid))
      | _ => rfl
  | insertChallenge c =>
      obtain ⟨_, challenges, hinsert, rfl⟩ := exists_insert h
      cases row with
      | challenge id =>
          exact (Table.find?_insert hinsert).trans (if_neg fun hid ↦ hne (congrArg _ hid))
      | _ => rfl
  | useCredential id counter deviceType backedUp at_ =>
      obtain rfl := Option.some.inj h
      cases row with
      | credential other =>
          apply find?_modify_of_ne
          · exact fun _ ↦ rfl
          · exact fun hid ↦ hne (congrArg AdminRow.credential hid.symm)
      | _ => rfl
  | renameCredential id name =>
      obtain rfl := Option.some.inj h
      cases row with
      | credential other =>
          apply find?_modify_of_ne
          · exact fun _ ↦ rfl
          · exact fun hid ↦ hne (congrArg AdminRow.credential hid.symm)
      | _ => rfl
  | revokeCredential id at_ =>
      obtain rfl := Option.some.inj h
      cases row with
      | credential other =>
          apply find?_modify_of_ne
          · exact fun _ ↦ rfl
          · exact fun hid ↦ hne (congrArg AdminRow.credential hid.symm)
      | _ => rfl
  | touchSession id at_ =>
      obtain ⟨_, rfl⟩ := exists_change h
      cases row with
      | session other =>
          apply find?_modify_of_ne
          · exact fun _ ↦ rfl
          · exact fun hid ↦ hne (congrArg AdminRow.session hid.symm)
      | _ => rfl
  | revokeSession id at_ =>
      obtain rfl := Option.some.inj h
      cases row with
      | session other =>
          apply find?_modify_of_ne
          · exact fun _ ↦ rfl
          · exact fun hid ↦ hne (congrArg AdminRow.session hid.symm)
      | _ => rfl
  | deleteSession id =>
      obtain rfl := Option.some.inj h
      cases row with
      | session other =>
          apply find?_delete_of_ne
          exact fun hid ↦ hne (congrArg AdminRow.session hid.symm)
      | _ => rfl
  | consumeBootstrap id at_ =>
      obtain rfl := Option.some.inj h
      cases row with
      | bootstrap other =>
          apply find?_modify_of_ne
          · exact fun _ ↦ rfl
          · exact fun hid ↦ hne (congrArg AdminRow.bootstrap hid.symm)
      | _ => rfl
  | deleteBootstrap id =>
      obtain rfl := Option.some.inj h
      cases row with
      | bootstrap other =>
          apply find?_delete_of_ne
          exact fun hid ↦ hne (congrArg AdminRow.bootstrap hid.symm)
      | _ => rfl
  | consumeChallenge id at_ =>
      obtain rfl := Option.some.inj h
      cases row with
      | challenge other =>
          apply find?_modify_of_ne
          · exact fun _ ↦ rfl
          · exact fun hid ↦ hne (congrArg AdminRow.challenge hid.symm)
      | _ => rfl
  | deleteChallenge id =>
      obtain rfl := Option.some.inj h
      cases row with
      | challenge other =>
          apply find?_delete_of_ne
          exact fun hid ↦ hne (congrArg AdminRow.challenge hid.symm)
      | _ => rfl
  | setRole userId role =>
      obtain rfl := Option.some.inj h
      cases row with
      | account other =>
          apply find?_modify_of_ne
          · exact fun _ ↦ rfl
          · exact fun hid ↦ hne (congrArg AdminRow.account hid.symm)
      | _ => rfl
  | setBan userId isBanned =>
      obtain rfl := Option.some.inj h
      cases row with
      | account other =>
          apply find?_modify_of_ne
          · exact fun _ ↦ rfl
          · exact fun hid ↦ hne (congrArg AdminRow.account hid.symm)
      | _ => rfl

/-- What becomes of the target of a write. -/
theorem openRow_target (h : db.write idleTtl w = some db') (hopen : w.insertsOpen = true) :
    db'.openRow w.target = if w.ends then none else w.opens.or (db.openRow w.target) := by
  cases w with
  | insertCredential k =>
      obtain ⟨_, credentials, hinsert, rfl⟩ := exists_insert h
      have hrow : credentials.find? k.id = some k := (Table.find?_insert hinsert).trans (if_pos rfl)
      exact openRow_insert hrow hopen
  | insertSession s =>
      obtain ⟨_, sessions, hinsert, rfl⟩ := exists_insert h
      have hrow : sessions.find? s.id = some s := (Table.find?_insert hinsert).trans (if_pos rfl)
      exact openRow_insert hrow hopen
  | insertBootstrap b =>
      obtain ⟨_, bootstraps, hinsert, rfl⟩ := exists_insert h
      have hrow : bootstraps.find? b.id = some b := (Table.find?_insert hinsert).trans (if_pos rfl)
      exact openRow_insert hrow hopen
  | insertChallenge c =>
      obtain ⟨_, challenges, hinsert, rfl⟩ := exists_insert h
      have hrow : challenges.find? c.id = some c := (Table.find?_insert hinsert).trans (if_pos rfl)
      exact openRow_insert hrow hopen
  | useCredential id counter deviceType backedUp at_ =>
      obtain rfl := Option.some.inj h
      apply openRow_modify
      · exact fun _ ↦ rfl
      · exact fun _ ↦ ⟨rfl, rfl⟩
  | renameCredential id name =>
      obtain rfl := Option.some.inj h
      apply openRow_modify
      · exact fun _ ↦ rfl
      · exact fun _ ↦ ⟨rfl, rfl⟩
  | revokeCredential id at_ =>
      obtain rfl := Option.some.inj h
      apply openRow_modify_end
      · exact fun _ ↦ rfl
      · exact fun _ ↦ rfl
  | touchSession id at_ =>
      obtain ⟨_, rfl⟩ := exists_change h
      apply openRow_modify
      · exact fun _ ↦ rfl
      · exact fun _ ↦ ⟨rfl, rfl⟩
  | revokeSession id at_ =>
      obtain rfl := Option.some.inj h
      apply openRow_modify_end
      · exact fun _ ↦ rfl
      · exact fun _ ↦ rfl
  | consumeBootstrap id at_ =>
      obtain rfl := Option.some.inj h
      apply openRow_modify_end
      · exact fun _ ↦ rfl
      · exact fun _ ↦ rfl
  | consumeChallenge id at_ =>
      obtain rfl := Option.some.inj h
      apply openRow_modify_end
      · exact fun _ ↦ rfl
      · exact fun _ ↦ rfl
  | deleteSession id =>
      obtain rfl := Option.some.inj h
      exact openRow_delete
  | deleteBootstrap id =>
      obtain rfl := Option.some.inj h
      exact openRow_delete
  | deleteChallenge id =>
      obtain rfl := Option.some.inj h
      exact openRow_delete
  | setRole userId role => rfl
  | setBan userId isBanned => rfl

theorem roleOf_modify {userId : Uuid} {f : UserAccount → UserAccount}
    {e : ∀ a, (f a).userId = a.userId} :
    AdminDb.roleOf { db with accounts := db.accounts.modify (fun a ↦ a.userId = userId) f e } userId =
      (db.accounts.find? userId).map fun a ↦ (f a).role := by
  unfold AdminDb.roleOf
  rw [find?_modify_at e, if_pos rfl, Option.map_map]
  rfl

theorem roleOf_write {userId : Uuid} {role : AdminUserRole} (h : db.write idleTtl w = some db')
    (hrole : db'.roleOf userId = some role) :
    db.roleOf userId = some role ∨ w = .setRole userId role := by
  by_cases htarget : w.target = .account userId
  · cases w with
    | setRole user newRole =>
        obtain rfl : user = userId := AdminRow.account.inj htarget
        obtain rfl := Option.some.inj h
        have hset := (roleOf_modify (f := UserAccount.withRole newRole) (e := fun _ ↦ rfl)).symm.trans
          hrole
        obtain ⟨a, _, hnew⟩ := Option.map_eq_some_iff.mp hset
        exact Or.inr (congrArg _ hnew)
    | setBan user isBanned =>
        obtain rfl : user = userId := AdminRow.account.inj htarget
        obtain rfl := Option.some.inj h
        have hban := (roleOf_modify (f := UserAccount.ban isBanned) (e := fun _ ↦ rfl)).symm.trans hrole
        exact Or.inl hban
    | _ => cases htarget
  · exact Or.inl ((sameRow_write h htarget).roleOf_eq ▸ hrole)

/-- Only an insertion brings a row into its table. -/
theorem has_write (h : db.write idleTtl w = some db') (hrow : db'.Has row) :
    db.Has row ∨ w.target = row ∧ w.opens ≠ none := by
  by_cases htarget : w.target = row
  · cases hopens : w.opens with
    | some owner => exact Or.inr ⟨htarget, Option.some_ne_none owner⟩
    | none =>
        left
        subst htarget
        cases w with
        | insertCredential k => cases hopens
        | insertSession s => cases hopens
        | insertBootstrap b => cases hopens
        | insertChallenge c => cases hopens
        | touchSession id at_ =>
            obtain ⟨_, rfl⟩ := exists_change h
            apply isSome_of_modify hrow
            exact fun _ ↦ rfl
        | deleteSession id =>
            obtain rfl := Option.some.inj h
            exact isSome_of_delete hrow
        | deleteBootstrap id =>
            obtain rfl := Option.some.inj h
            exact isSome_of_delete hrow
        | deleteChallenge id =>
            obtain rfl := Option.some.inj h
            exact isSome_of_delete hrow
        | _ =>
            obtain rfl := Option.some.inj h
            apply isSome_of_modify hrow
            exact fun _ ↦ rfl
  · exact Or.inl ((sameRow_write h htarget).has_iff.mp hrow)

/-- Credentials stay in their table and with their owner. -/
theorem credential_write {k : AdminCredential} (h : db.write idleTtl w = some db')
    (hk : k ∈ db.credentials) :
    ∃ k' ∈ db'.credentials, k'.id = k.id ∧ k'.userId = k.userId := by
  have hkept : ∀ credentials : Table AdminCredential.id, ∀ id, ∀ f : AdminCredential → AdminCredential,
      ∀ e : (∀ r, (f r).id = r.id), credentials = db.credentials.modify (fun k ↦ k.id = id) f e →
      (∀ r, (f r).userId = r.userId) → ∃ k' ∈ credentials, k'.id = k.id ∧ k'.userId = k.userId := by
    rintro _ id f e rfl howner
    refine ⟨_, (Table.mem_modify e).mpr ⟨k, hk, rfl⟩, ?_⟩
    split
    · exact ⟨e k, howner k⟩
    · exact ⟨rfl, rfl⟩
  cases w with
  | insertCredential x =>
      obtain ⟨_, credentials, hinsert, rfl⟩ := exists_insert h
      exact ⟨k, (Table.mem_insert hinsert).mpr (Or.inr hk), rfl, rfl⟩
  | insertSession s =>
      obtain ⟨_, _, _, rfl⟩ := exists_insert h
      exact ⟨k, hk, rfl, rfl⟩
  | insertBootstrap b =>
      obtain ⟨_, _, _, rfl⟩ := exists_insert h
      exact ⟨k, hk, rfl, rfl⟩
  | insertChallenge c =>
      obtain ⟨_, _, _, rfl⟩ := exists_insert h
      exact ⟨k, hk, rfl, rfl⟩
  | touchSession id at_ =>
      obtain ⟨_, rfl⟩ := exists_change h
      exact ⟨k, hk, rfl, rfl⟩
  | useCredential id counter deviceType backedUp at_ =>
      obtain rfl := Option.some.inj h
      exact hkept _ id (AdminCredential.use at_ counter deviceType backedUp) (fun _ ↦ rfl) rfl fun _ ↦ rfl
  | renameCredential id name =>
      obtain rfl := Option.some.inj h
      exact hkept _ id (AdminCredential.rename name) (fun _ ↦ rfl) rfl fun _ ↦ rfl
  | revokeCredential id at_ =>
      obtain rfl := Option.some.inj h
      exact hkept _ id (AdminCredential.revoke at_) (fun _ ↦ rfl) rfl fun _ ↦ rfl
  | _ =>
      obtain rfl := Option.some.inj h
      exact ⟨k, hk, rfl, rfl⟩

/-- Only a login changes the counter of a credential. -/
theorem counter_write {id : Uuid} {k : AdminCredential} (h : db.write idleTtl w = some db')
    (hk : db.credentials.find? id = some k) :
    ∃ k', db'.credentials.find? id = some k' ∧ (k'.counter = k.counter ∨
      ∃ deviceType backedUp at_, w = .useCredential id k'.counter deviceType backedUp at_) := by
  have hat {other : Uuid} (f : AdminCredential → AdminCredential) (e : ∀ r, (f r).id = r.id) :
      (db.credentials.modify (fun k ↦ k.id = other) f e).find? id =
        some (if id = other then f k else k) := by
    rw [find?_modify_at e, hk]
    by_cases hid : id = other
    · rw [if_pos hid, if_pos hid, Option.map_some]
    · rw [if_neg hid, if_neg hid]
  cases w with
  | useCredential other counter deviceType backedUp at_ =>
      obtain rfl := Option.some.inj h
      refine ⟨_, hat (AdminCredential.use at_ counter deviceType backedUp) fun _ ↦ rfl, ?_⟩
      by_cases hid : id = other
      · subst hid
        rw [if_pos rfl]
        exact Or.inr ⟨deviceType, backedUp, at_, rfl⟩
      · rw [if_neg hid]
        exact Or.inl rfl
  | renameCredential other name =>
      obtain rfl := Option.some.inj h
      refine ⟨_, hat (AdminCredential.rename name) fun _ ↦ rfl, Or.inl ?_⟩
      split <;> rfl
  | revokeCredential other at_ =>
      obtain rfl := Option.some.inj h
      refine ⟨_, hat (AdminCredential.revoke at_) fun _ ↦ rfl, Or.inl ?_⟩
      split <;> rfl
  | insertCredential x =>
      obtain ⟨_, credentials, hinsert, rfl⟩ := exists_insert h
      refine ⟨k, (Table.find?_insert hinsert).trans ?_, Or.inl rfl⟩
      have hfresh := (Table.insert?_eq_some_iff.mp hinsert).1
      rw [if_neg, hk]
      rintro rfl
      rw [hfresh] at hk
      cases hk
  | _ =>
      have hsame : db.SameRow db' (.credential id) := sameRow_write h fun htarget ↦ by cases htarget
      exact ⟨k, Eq.trans hsame hk, Or.inl rfl⟩

/-- Only a use moves the idle limit of a session, and nothing moves the limit
of its age. -/
theorem session_write {id : Uuid} {s' : AdminSession} (h : db.write idleTtl w = some db')
    (hs : db'.sessions.find? id = some s') :
    w = .insertSession s' ∨ ∃ s, db.sessions.find? id = some s ∧
      s'.absoluteExpiresAt = s.absoluteExpiresAt ∧ (s'.idleExpiresAt = s.idleExpiresAt ∨
        ∃ at_, w = .touchSession id at_ ∧ s'.idleExpiresAt = min s.absoluteExpiresAt (at_ + idleTtl)) := by
  have hsource {other : Uuid} (f : AdminSession → AdminSession) (e : ∀ r, (f r).id = r.id)
      (hfind : (db.sessions.modify (fun s ↦ s.id = other) f e).find? id = some s') :
      ∃ s, db.sessions.find? id = some s ∧ s' = if id = other then f s else s := by
    rw [find?_modify_at e] at hfind
    by_cases hid : id = other
    · rw [if_pos hid] at hfind
      obtain ⟨s, hstored, hchange⟩ := Option.map_eq_some_iff.mp hfind
      exact ⟨s, hstored, hchange.symm.trans (if_pos hid).symm⟩
    · rw [if_neg hid] at hfind
      exact ⟨s', hfind, (if_neg hid).symm⟩
  cases w with
  | insertSession x =>
      obtain ⟨_, sessions, hinsert, rfl⟩ := exists_insert h
      have hfind := (Table.find?_insert hinsert).symm.trans hs
      by_cases hid : x.id = id
      · rw [if_pos hid] at hfind
        exact Or.inl (congrArg _ (Option.some.inj hfind))
      · rw [if_neg hid] at hfind
        exact Or.inr ⟨s', hfind, rfl, Or.inl rfl⟩
  | touchSession other at_ =>
      obtain ⟨_, rfl⟩ := exists_change h
      obtain ⟨s, hfind, rfl⟩ := hsource (AdminSession.touch at_ idleTtl) (fun _ ↦ rfl) hs
      refine Or.inr ⟨s, hfind, ?_⟩
      by_cases hid : id = other
      · subst hid
        rw [if_pos rfl]
        exact ⟨rfl, Or.inr ⟨at_, rfl, rfl⟩⟩
      · rw [if_neg hid]
        exact ⟨rfl, Or.inl rfl⟩
  | revokeSession other at_ =>
      obtain rfl := Option.some.inj h
      obtain ⟨s, hfind, rfl⟩ := hsource (AdminSession.revoke at_) (fun _ ↦ rfl) hs
      refine Or.inr ⟨s, hfind, ?_⟩
      by_cases hid : id = other
      · rw [if_pos hid]
        exact ⟨rfl, Or.inl rfl⟩
      · rw [if_neg hid]
        exact ⟨rfl, Or.inl rfl⟩
  | deleteSession other =>
      obtain rfl := Option.some.inj h
      have hfind := find?_delete_at.symm.trans hs
      by_cases hid : id = other
      · rw [if_pos hid] at hfind
        cases hfind
      · rw [if_neg hid] at hfind
        exact Or.inr ⟨s', hfind, rfl, Or.inl rfl⟩
  | _ =>
      have hsame : db.SameRow db' (.session id) := sameRow_write h fun htarget ↦ by cases htarget
      exact Or.inr ⟨s', Eq.trans (Eq.symm hsame) hs, rfl, Or.inl rfl⟩

end Writes

section Commits

variable {idleTtl : ℤ} {db db' : AdminDb} {row : AdminRow} {ws : List AdminWrite}

def AdminDb.writeAll (idleTtl : ℤ) (db : AdminDb) (ws : List AdminWrite) : Option AdminDb :=
  (adminAccess idleTtl).commitWrites db ws

theorem writeAll_cons {w : AdminWrite} (h : db.writeAll idleTtl (w :: ws) = some db') :
    ∃ db₁, db.write idleTtl w = some db₁ ∧ db₁.writeAll idleTtl ws = some db' :=
  Option.bind_eq_some_iff.mp (List.foldlM_cons.symm.trans h)

theorem writeAll_nil (h : db.writeAll idleTtl [] = some db') : db = db' := Option.some.inj h

theorem sameRow_writeAll (h : db.writeAll idleTtl ws = some db') (hne : ∀ w ∈ ws, w.target ≠ row) :
    db.SameRow db' row := by
  induction ws generalizing db with
  | nil =>
      obtain rfl := writeAll_nil h
      exact .refl db row
  | cons w ws ih =>
      obtain ⟨db₁, hwrite, hrest⟩ := writeAll_cons h
      exact (sameRow_write hwrite (hne w List.mem_cons_self)).trans
        (ih hrest fun v hv ↦ hne v (List.mem_cons_of_mem _ hv))

/-- A row that is open after the writes was open before and is ended by none
of them, or one of them has opened it. -/
theorem openRow_writeAll {owner : Option Uuid} (h : db.writeAll idleTtl ws = some db')
    (hopen : ∀ w ∈ ws, w.insertsOpen = true) (hrow : db'.openRow row = some owner) :
    (db.openRow row = some owner ∧ ∀ w ∈ ws, w.target = row → w.ends = false) ∨
      ∃ w ∈ ws, w.target = row ∧ w.opens = some owner := by
  induction ws generalizing db with
  | nil =>
      obtain rfl := writeAll_nil h
      exact Or.inl ⟨hrow, fun w hw ↦ absurd hw List.not_mem_nil⟩
  | cons w ws ih =>
      obtain ⟨db₁, hwrite, hrest⟩ := writeAll_cons h
      rcases ih hrest (fun v hv ↦ hopen v (List.mem_cons_of_mem _ hv)) with
        ⟨hbetween, hkeeps⟩ | ⟨v, hv, hopens⟩
      · by_cases htarget : w.target = row
        · subst htarget
          have htarget := openRow_target hwrite (hopen w List.mem_cons_self)
          rw [hbetween] at htarget
          cases hends : w.ends with
          | true =>
              rw [hends, if_pos rfl] at htarget
              exact absurd htarget (Option.some_ne_none owner)
          | false =>
              rw [hends, if_neg Bool.false_ne_true] at htarget
              cases hopens : w.opens with
              | some other =>
                  rw [hopens, Option.some_or] at htarget
                  exact Or.inr ⟨w, List.mem_cons_self, rfl, hopens.trans htarget.symm⟩
              | none =>
                  rw [hopens, Option.none_or] at htarget
                  refine Or.inl ⟨htarget.symm, fun v hv hvtarget ↦ ?_⟩
                  rcases List.mem_cons.mp hv with rfl | hv
                  · exact hends
                  · exact hkeeps v hv hvtarget
        · refine Or.inl ⟨(sameRow_write hwrite htarget).openRow_eq ▸ hbetween, fun v hv hvtarget ↦ ?_⟩
          rcases List.mem_cons.mp hv with rfl | hv
          · exact absurd hvtarget htarget
          · exact hkeeps v hv hvtarget
      · exact Or.inr ⟨v, List.mem_cons_of_mem _ hv, hopens⟩

theorem roleOf_writeAll {userId : Uuid} {role : AdminUserRole} (h : db.writeAll idleTtl ws = some db')
    (hrole : db'.roleOf userId = some role) :
    db.roleOf userId = some role ∨ .setRole userId role ∈ ws := by
  induction ws generalizing db with
  | nil =>
      obtain rfl := writeAll_nil h
      exact Or.inl hrole
  | cons w ws ih =>
      obtain ⟨db₁, hwrite, hrest⟩ := writeAll_cons h
      rcases ih hrest with hbetween | hset
      · rcases roleOf_write hwrite hbetween with hbefore | rfl
        · exact Or.inl hbefore
        · exact Or.inr List.mem_cons_self
      · exact Or.inr (List.mem_cons_of_mem _ hset)

theorem has_writeAll (h : db.writeAll idleTtl ws = some db') (hrow : db'.Has row) :
    db.Has row ∨ ∃ w ∈ ws, w.target = row ∧ w.opens ≠ none := by
  induction ws generalizing db with
  | nil =>
      obtain rfl := writeAll_nil h
      exact Or.inl hrow
  | cons w ws ih =>
      obtain ⟨db₁, hwrite, hrest⟩ := writeAll_cons h
      rcases ih hrest with hbetween | ⟨v, hv, hopens⟩
      · rcases has_write hwrite hbetween with hbefore | hopens
        · exact Or.inl hbefore
        · exact Or.inr ⟨w, List.mem_cons_self, hopens⟩
      · exact Or.inr ⟨v, List.mem_cons_of_mem _ hv, hopens⟩

theorem credential_writeAll {k : AdminCredential} (h : db.writeAll idleTtl ws = some db')
    (hk : k ∈ db.credentials) : ∃ k' ∈ db'.credentials, k'.id = k.id ∧ k'.userId = k.userId := by
  induction ws generalizing db k with
  | nil =>
      obtain rfl := writeAll_nil h
      exact ⟨k, hk, rfl, rfl⟩
  | cons w ws ih =>
      obtain ⟨db₁, hwrite, hrest⟩ := writeAll_cons h
      obtain ⟨k₁, hk₁, hid, howner⟩ := credential_write hwrite hk
      obtain ⟨k₂, hk₂, hid', howner'⟩ := ih hrest hk₁
      exact ⟨k₂, hk₂, hid'.trans hid, howner'.trans howner⟩

/-- A row that is open stays open while no write ends it or inserts another in
its place. -/
theorem openRow_kept {owner : Option Uuid} (h : db.writeAll idleTtl ws = some db')
    (hopen : ∀ w ∈ ws, w.insertsOpen = true) (hrow : db.openRow row = some owner)
    (hkeeps : ∀ w ∈ ws, w.target = row → w.ends = false ∧ w.opens = none) :
    db'.openRow row = some owner := by
  induction ws generalizing db with
  | nil =>
      obtain rfl := writeAll_nil h
      exact hrow
  | cons w ws ih =>
      obtain ⟨db₁, hwrite, hrest⟩ := writeAll_cons h
      refine ih hrest (fun v hv ↦ hopen v (List.mem_cons_of_mem _ hv)) ?_
        fun v hv ↦ hkeeps v (List.mem_cons_of_mem _ hv)
      by_cases htarget : w.target = row
      · obtain ⟨hends, hopens⟩ := hkeeps w List.mem_cons_self htarget
        have hafter := openRow_target hwrite (hopen w List.mem_cons_self)
        rw [htarget, hends, hopens, Option.none_or] at hafter
        exact hafter.trans hrow
      · exact (sameRow_write hwrite htarget).openRow_eq.trans hrow

/-- The counter after the writes, when all logins among them store the same. -/
theorem counter_writeAll {id : Uuid} {k : AdminCredential} {counter : UInt32}
    (h : db.writeAll idleTtl ws = some db') (hk : db.credentials.find? id = some k)
    (hsame : ∀ next deviceType backedUp at_,
      .useCredential id next deviceType backedUp at_ ∈ ws → next = counter)
    (hstored : k.counter = counter ∨
      ∃ next deviceType backedUp at_, .useCredential id next deviceType backedUp at_ ∈ ws) :
    ∃ k', db'.credentials.find? id = some k' ∧ k'.counter = counter := by
  induction ws generalizing db k with
  | nil =>
      obtain rfl := writeAll_nil h
      rcases hstored with hstored | ⟨_, _, _, _, hw⟩
      · exact ⟨k, hk, hstored⟩
      · exact absurd hw List.not_mem_nil
  | cons w ws ih =>
      obtain ⟨db₁, hwrite, hrest⟩ := writeAll_cons h
      obtain ⟨k₁, hk₁, hcounter⟩ := counter_write hwrite hk
      refine ih hrest hk₁ (fun next deviceType backedUp at_ hw ↦
        hsame next deviceType backedUp at_ (List.mem_cons_of_mem _ hw)) ?_
      rcases hcounter with hcounter | ⟨deviceType, backedUp, at_, rfl⟩
      · rcases hstored with hstored | ⟨next, deviceType, backedUp, at_, hw⟩
        · exact Or.inl (hcounter.trans hstored)
        · rcases List.mem_cons.mp hw with rfl | hw
          · obtain ⟨k₂, hk₂, hcounter₂⟩ : ∃ k₂, db₁.credentials.find? id = some k₂ ∧
                k₂.counter = next := by
              obtain rfl := Option.some.inj hwrite
              exact ⟨AdminCredential.use at_ next deviceType backedUp k,
                (find?_modify_at (f := AdminCredential.use at_ next deviceType backedUp)
                  (fun _ ↦ rfl)).trans ((if_pos rfl).trans (hk ▸ rfl)), rfl⟩
            rw [hk₁] at hk₂
            obtain rfl := Option.some.inj hk₂
            exact Or.inl (hcounter₂.trans (hsame next deviceType backedUp at_ List.mem_cons_self))
          · exact Or.inr ⟨next, deviceType, backedUp, at_, hw⟩
      · exact Or.inl (hsame k₁.counter deviceType backedUp at_ List.mem_cons_self)

/-- The limits of a session after writes that use it at one instant at the
latest. -/
theorem session_writeAll {id : Uuid} {s' : AdminSession} (limit : ℤ)
    (h : db.writeAll idleTtl ws = some db') (hs : db'.sessions.find? id = some s')
    (hinsert : ∀ s, .insertSession s ∈ ws → s.id ≠ id)
    (hlatest : ∀ at_, .touchSession id at_ ∈ ws → at_ + idleTtl ≤ limit) :
    ∃ s, db.sessions.find? id = some s ∧ s'.absoluteExpiresAt = s.absoluteExpiresAt ∧
      ((s.idleExpiresAt ≤ limit ∨ ∃ at_, .touchSession id at_ ∈ ws) → s'.idleExpiresAt ≤ limit) := by
  induction ws generalizing db with
  | nil =>
      obtain rfl := writeAll_nil h
      refine ⟨s', hs, rfl, fun hlimit ↦ ?_⟩
      rcases hlimit with hlimit | ⟨at_, hw⟩
      · exact hlimit
      · exact absurd hw List.not_mem_nil
  | cons w ws ih =>
      obtain ⟨db₁, hwrite, hrest⟩ := writeAll_cons h
      obtain ⟨s₁, hs₁, habsolute, hidle⟩ := ih hrest
        (fun s hw ↦ hinsert s (List.mem_cons_of_mem _ hw))
        fun at_ hw ↦ hlatest at_ (List.mem_cons_of_mem _ hw)
      rcases session_write hwrite hs₁ with rfl | ⟨s, hfind, habsolute', hchange⟩
      · exact absurd (Table.find?_eq_some_iff.mp hs₁).2 (hinsert s₁ List.mem_cons_self)
      · refine ⟨s, hfind, habsolute.trans habsolute', fun hlimit ↦ hidle ?_⟩
        rcases hchange with hkept | ⟨at_, rfl, htouched⟩
        · rcases hlimit with hlimit | ⟨at_, hw⟩
          · exact Or.inl (hkept.symm ▸ hlimit)
          · rcases List.mem_cons.mp hw with rfl | hw
            · left
              obtain ⟨_, rfl⟩ := exists_change hwrite
              have hlast := hlatest at_ List.mem_cons_self
              have htouch := (find?_modify_at (t := db.sessions) (k := id)
                (f := AdminSession.touch at_ idleTtl) (fun _ ↦ rfl)).symm.trans hs₁
              rw [if_pos rfl, hfind, Option.map_some] at htouch
              obtain rfl := Option.some.inj htouch
              exact (min_le_right _ _).trans hlast
            · exact Or.inr ⟨at_, hw⟩
        · left
          rw [htouched]
          exact (min_le_right _ _).trans (hlatest at_ List.mem_cons_self)

end Commits

end Histae.Identity
