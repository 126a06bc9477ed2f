import Mathlib
import Histae.Identity.Sessions
import Histae.Systems.Run

/-!
# What the session transactions can do

Each transaction gets one lemma with everything its success or failure says
about the store. The system below lets any number of clients, moderators and
the maintenance run them in any order, under a clock that never goes back.
-/

namespace Histae.Identity

open Relational Systems

namespace Store

variable {c : TokenCrypto} {s s' : Store} {r : Readings} {jti userId sessionId : Uuid}
  {hash : List Char}

theorem lockToken_eq_some {now : ℤ} {ownerId : Option Uuid} {recoveryHash : Option (List Char)}
    {t : RefreshToken} (h : s.lockToken now jti hash ownerId recoveryHash = some t) :
    s.tokens.rows.find? (fun t ↦ t.jti = jti) = some t ∧ t ∈ s.tokens ∧ t.jti = jti ∧
      t.tokenHash = hash ∧ (∀ owner ∈ ownerId, owner = t.userId) ∧
      s.lockActiveAccount t.userId = true := by
  simp only [lockToken] at h
  cases hfind : s.tokens.rows.find? fun t ↦ t.jti = jti with
  | none => simp [hfind] at h
  | some candidate =>
      simp only [hfind] at h
      split_ifs at h with howner hactive hlive
      cases h
      have hjti : t.jti = jti := by simpa using List.find?_some hfind
      simp only [Bool.or_eq_true, decide_eq_true_eq, not_or, not_not] at howner
      refine ⟨rfl, List.mem_of_find?_eq_some hfind, hjti, howner.2, ?_, by simpa using hactive⟩
      intro owner hmem
      have hany := howner.1
      rw [Option.mem_def.mp hmem] at hany
      simpa using hany

theorem activeFamily_iff {now : ℤ} :
    s.activeFamily now userId sessionId = true ↔
      ∃ f ∈ s.families, f.id = sessionId ∧ f.userId = userId ∧ f.revocation = none ∧
        now < f.expiresAt := by
  unfold activeFamily
  cases hfind : s.families.find? sessionId with
  | none =>
      have hnone := Table.find?_eq_none_iff.mp hfind
      simp only [Option.any_none, Bool.false_eq_true, false_iff]
      rintro ⟨f, hf, hid, _⟩
      exact hnone f hf hid
  | some f =>
      obtain ⟨hf, hid⟩ := Table.find?_eq_some_iff.mp hfind
      simp only [Option.any_some, Bool.and_eq_true, decide_eq_true_eq, Option.isNone_iff_eq_none,
        and_assoc]
      constructor
      · rintro ⟨huser, hrevocation, hlt⟩
        exact ⟨f, hf, hid, huser, hrevocation, hlt⟩
      · rintro ⟨g, hg, hgid, h⟩
        rwa [Table.eq_of_key_eq hf hg (hid.trans hgid.symm)]

theorem mem_tokens_revokeFamilies {now : ℤ} {reason : RevocationReason} {target : Option Uuid}
    {t : RefreshToken} :
    t ∈ (s.revokeFamilies now userId reason target).tokens ↔
      ∃ q ∈ s.tokens, t = if revokesToken userId target q then q.revoke else q :=
  Table.mem_modify (f := RefreshToken.revoke) fun _ ↦ rfl

theorem mem_families_revokeFamilies {now : ℤ} {reason : RevocationReason} {target : Option Uuid}
    {f : Family} :
    f ∈ (s.revokeFamilies now userId reason target).families ↔
      ∃ q ∈ s.families, f = if revokes userId target q then
        { q with revocation := some (now, reason) } else q :=
  Table.mem_modify (f := fun q : Family ↦ { q with revocation := some (now, reason) }) fun _ ↦ rfl

theorem mem_tokens_eraseReceipts {now : ℤ} {batch : List Uuid} {t : RefreshToken} :
    t ∈ (s.eraseReceipts now batch).tokens ↔
      ∃ q ∈ s.tokens, t = if q.id ∈ batch && q.rotationResult.isSome &&
        q.rotatedAt.any (· ≤ now - days 7) then q.eraseReceipt else q :=
  Table.mem_modify (f := RefreshToken.eraseReceipt) fun _ ↦ rfl

theorem insertToken_eq_ok {token : NewRefreshToken} {parent : Option Uuid}
    (h : insertToken c s userId sessionId token parent = .ok s') :
    s'.accounts = s.accounts ∧ s'.families = s.families ∧
      s.tokens.insert? (.new c userId sessionId token parent) = some s'.tokens ∧
      (∀ t ∈ s.tokens, t.jti ≠ token.jti) ∧
      (∀ t ∈ s.tokens, t.familyId = sessionId → t.revoked = true) ∧
      ∀ t ∈ s.tokens, parent.isSome → t.parentTokenId ≠ parent := by
  simp only [insertToken] at h
  split at h
  · cases h
  · rename_i hfree
    cases hinsert : s.tokens.insert? (.new c userId sessionId token parent) with
    | none => simp [hinsert] at h
    | some tokens =>
        rw [hinsert] at h
        cases h
        simp only [List.any_eq_true, not_exists, not_and, Bool.or_eq_true, Bool.and_eq_true,
          decide_eq_true_eq, not_or] at hfree
        refine ⟨rfl, rfl, rfl, fun t ht ↦ (hfree t ht).1.1, ?_, fun t ht ↦ (hfree t ht).2⟩
        intro t ht hfamily
        simpa using (hfree t ht).1.2 hfamily

theorem insertSession_eq_ok {token : NewRefreshToken} {session : MobileSessionIdentity}
    (h : s.insertSession c userId sessionId token = .ok (session, s')) :
    ∃ families, s.families.insert? ⟨sessionId, userId, token.createdAt, token.createdAt,
        token.expiresAt, none⟩ = some families ∧
      insertToken c { s with families := families } userId sessionId token none = .ok s' ∧
      session = ⟨userId, sessionId⟩ := by
  simp only [insertSession] at h
  split at h
  · cases h
  · rename_i families hfamilies
    cases hresult : insertToken c { s with families := families } userId sessionId token
      none with
    | error e =>
        rw [hresult] at h
        cases h
    | ok s₁ =>
        rw [hresult] at h
        cases h
        exact ⟨families, hfamilies, hresult, rfl⟩

theorem mem_families_insertSession {token : NewRefreshToken} {session : MobileSessionIdentity}
    (h : s.insertSession c userId sessionId token = .ok (session, s')) {f : Family}
    (hf : f ∈ s.families) : f ∈ s'.families := by
  obtain ⟨families, hfamilies, hinsert, _⟩ := insertSession_eq_ok h
  obtain ⟨_, hsame, _⟩ := insertToken_eq_ok hinsert
  rw [hsame]
  exact (Table.mem_insert hfamilies).mpr (Or.inr hf)

end Store

/-- The possible results of `rotate_inner`. -/
inductive Rotation (c : TokenCrypto) (s : Store) (r : Readings) (jti : Uuid) (hash : List Char)
    (next : NewRefreshToken) (recovery : Option RefreshRecovery) :
    Except DatabaseError (RefreshRotation × Store) → Prop
  | failed : Rotation c s r jti hash next recovery (.error .queryFailed)
  | invalid : Rotation c s r jti hash next recovery (.ok (.outcome .invalid, s))
  | recovered {t child : RefreshToken} {receipt : RefreshRecovery} {encrypted : List UInt8}
      {raw : List Char} (hfind : s.tokens.rows.find? (fun t ↦ t.jti = jti) = some t)
      (hmem : t ∈ s.tokens) (hrevoked : t.revoked = true)
      (hactive : s.activeFamily r.family t.userId t.familyId = true)
      (hrecovery : recovery = some receipt)
      (hrow : s.recoverable r.write t = some (encrypted, child))
      (hopen : receipt.open c encrypted = some raw) :
      Rotation c s r jti hash next recovery (.ok (.recovered ⟨t.userId, t.familyId⟩ raw, s))
  | replayed {t : RefreshToken} (hmem : t ∈ s.tokens) (hrevoked : t.revoked = true)
      (hactive : s.activeFamily r.family t.userId t.familyId = true) :
      Rotation c s r jti hash next recovery (.ok (.outcome .replayRevoked,
        s.revokeFamilies r.write t.userId .replay (some t.familyId)))
  | rotated {t : RefreshToken} {inserted : Store}
      (hfind : s.tokens.rows.find? (fun t ↦ t.jti = jti) = some t) (hmem : t ∈ s.tokens)
      (hhash : t.tokenHash = hash) (hrevoked : t.revoked = false)
      (hactive : s.activeFamily r.family t.userId t.familyId = true)
      (hinsert : Store.insertToken c
        { s with
          tokens := s.tokens.modify (fun q ↦ q.id = t.id) (RefreshToken.rotate r.write recovery)
            fun _ ↦ rfl } t.userId t.familyId next (some t.id) = .ok inserted) :
      Rotation c s r jti hash next recovery (.ok (.outcome (.rotated ⟨t.userId, t.familyId⟩),
        { inserted with
          families := inserted.families.modify (fun f ↦ f.id = t.familyId)
            (fun f ↦ { f with lastRefreshedAt := r.write, expiresAt := next.expiresAt })
            fun _ ↦ rfl }))

theorem Store.rotateInner_rotation (c : TokenCrypto) (s : Store) (r : Readings) (jti : Uuid)
    (hash : List Char) (next : NewRefreshToken) (recovery : Option RefreshRecovery) :
    Rotation c s r jti hash next recovery (s.rotateInner c r jti hash next recovery) := by
  simp only [rotateInner]
  split
  · exact .invalid
  · rename_i t hlock
    obtain ⟨hfind, hmem, _, hhash, _, _⟩ := lockToken_eq_some hlock
    by_cases hactive : s.activeFamily r.family t.userId t.familyId = true
    · simp only [hactive, Bool.not_true, Bool.false_eq_true, if_false]
      by_cases hrevoked : t.revoked = true
      · simp only [hrevoked, if_true]
        split
        · rename_i receipt hreceipt
          obtain ⟨hrecovery, _⟩ := Option.filter_eq_some_iff.mp hreceipt
          simp only [recoverRotation]
          split
          · exact .invalid
          · rename_i encrypted child hrow
            split
            · exact .failed
            · rename_i raw hopen
              split
              · exact .recovered hfind hmem hrevoked hactive hrecovery hrow hopen
              · exact .failed
        · split
          · exact .replayed hmem hrevoked hactive
          · exact .invalid
      · simp only [hrevoked, if_false, Bool.false_eq_true]
        cases hinsert : insertToken c { s with
            tokens := s.tokens.modify (fun q ↦ q.id = t.id)
              (RefreshToken.rotate r.write recovery) fun _ ↦ rfl } t.userId t.familyId next
            (some t.id) with
        | error e => exact .failed
        | ok inserted =>
            exact .rotated hfind hmem hhash (by simpa using hrevoked) hactive hinsert
    · simp only [hactive, Bool.not_false, if_true]
      exact .invalid

/-- A rotation as its client saw it: the token and the attempt it presented,
and the child it was issued. -/
structure Issue where
  raw : List Char
  attempt : Option Uuid
  parentId : Uuid
  child : NewRefreshToken
  nonce : List UInt8
  rotatedAt : ℤ

/-- The store, the clock, and what rotations have issued so far. -/
structure World where
  store : Store
  clock : ℤ
  issues : List Issue

inductive Call
  | create (userId sessionId : Uuid) (token : NewRefreshToken)
  | refresh (r : Readings) (raw : List Char) (attempt : Option Uuid) (next : NewRefreshToken)
      (nonce : List UInt8)
  | logout (r : Readings) (userId sessionId jti : Uuid) (hash : List Char)
  | revoke (r : Readings) (userId currentSessionId : Uuid) (targetId : Option Uuid)
  | ban (now : ℤ) (userId : Uuid)
  | unban (userId : Uuid)
  | eraseReceipts (now : ℤ) (batch : List Uuid)

namespace World

variable (c : TokenCrypto) (w : World)

def refresh (r : Readings) (raw : List Char) (attempt : Option Uuid) (next : NewRefreshToken)
    (nonce : List UInt8) : Except MobileAuthError (MobileSessionIdentity × List Char) × Store :=
  refreshWithAttempt c w.store r raw attempt next nonce

def issued (r : Readings) (raw : List Char) (attempt : Option Uuid) (next : NewRefreshToken)
    (nonce : List UInt8) : List Issue :=
  match parseRefreshToken c raw with
  | none => []
  | some parsed =>
      match w.store.rotateInner c r parsed.jti parsed.hash next
        (attempt.map fun a ↦ RefreshRecovery.new c raw a (next.plain c) nonce) with
      | .ok (.outcome (.rotated _), _) =>
          (w.store.tokens.rows.find? fun t ↦ t.jti = parsed.jti).toList.map fun t ↦
            ⟨raw, attempt, t.id, next, nonce, r.write⟩
      | _ => []

def next : Call → World
  | .create userId sessionId token =>
      match w.store.create c userId sessionId token with
      | .ok (_, store) => { w with store := store }
      | .error _ => w
  | .refresh r raw attempt next nonce =>
      { store := (w.refresh c r raw attempt next nonce).2
        clock := r.write
        issues := w.issued c r raw attempt next nonce ++ w.issues }
  | .logout r userId sessionId jti hash =>
      { w with store := (w.store.logout r userId sessionId jti hash).2, clock := r.write }
  | .revoke r userId currentSessionId targetId =>
      { w with store := (w.store.revoke r userId currentSessionId targetId).2, clock := r.write }
  | .ban now userId => { w with store := w.store.ban now userId, clock := now }
  | .unban userId => { w with store := w.store.unban userId }
  | .eraseReceipts now batch =>
      { w with store := w.store.eraseReceipts now batch, clock := now }

def Reads (r : Readings) : Prop := w.clock ≤ r.token ∧ r.token ≤ r.family ∧ r.family ≤ r.write

instance (r : Readings) : Decidable (w.Reads r) :=
  inferInstanceAs (Decidable (w.clock ≤ r.token ∧ r.token ≤ r.family ∧ r.family ≤ r.write))

def Enabled : Call → Prop
  | .refresh r .. => w.Reads r
  | .logout r .. => w.Reads r
  | .revoke r .. => w.Reads r
  | .ban now _ => w.clock ≤ now
  | .eraseReceipts now _ => w.clock ≤ now
  | .create .. | .unban _ => True

instance decidableEnabled : ∀ a, Decidable (w.Enabled a)
  | .refresh r .. | .logout r .. | .revoke r .. => inferInstanceAs (Decidable (w.Reads r))
  | .ban now _ | .eraseReceipts now _ => inferInstanceAs (Decidable (w.clock ≤ now))
  | .create .. | .unban _ => .isTrue trivial

/-- No session has been opened yet. -/
def Fresh : Prop := w.store.families = ∅ ∧ w.store.tokens = ∅ ∧ w.issues = []

end World

def sessions (c : TokenCrypto) : System World Call where
  Enabled := World.Enabled
  next := World.next c

instance (c : TokenCrypto) (w : World) (a : Call) : Decidable ((sessions c).Enabled w a) :=
  w.decidableEnabled a

end Histae.Identity
