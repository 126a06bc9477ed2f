import Mathlib
import Histae.Identity.Families

/-!
# Replays and recoveries

Every rotation leaves an issue: the token and the attempt that were
presented, and the child that was answered. The parent's row keeps the hash
of the attempt for as long as it exists, and the sealed child until the
family is revoked or seven days have passed. A later presentation of the
parent is therefore judged by the attempt alone: another attempt, or none,
revokes the family; the same attempt gets the same child or nothing.
-/

namespace Histae.Identity

open Relational Systems

/-- What later steps keep of a token: its identity, and, once it was rotated,
when and by which attempt. The receipt may be lost with the family, or after
seven days. -/
structure Follows (w : World) (q q' : RefreshToken) : Prop where
  id : q'.id = q.id
  jti : q'.jti = q.jti
  hash : q'.tokenHash = q.tokenHash
  family : q'.familyId = q.familyId
  user : q'.userId = q.userId
  parent : q'.parentTokenId = q.parentTokenId
  revoked : q.revoked = true → q'.revoked = true
  rotation : q.rotatedAt.isSome = true →
    q'.rotatedAt = q.rotatedAt ∧ q'.rotationRequestHash = q.rotationRequestHash ∧
      (q'.rotationResult = q.rotationResult ∨ q'.rotationResult = none ∧
        (RevokedIn w.store q.familyId ∨ ∀ t ∈ q.rotatedAt, t ≤ w.clock - days 7))

theorem Follows.refl (w : World) (q : RefreshToken) : Follows w q q :=
  ⟨rfl, rfl, rfl, rfl, rfl, rfl, fun h ↦ h, fun _ ↦ ⟨rfl, rfl, Or.inl rfl⟩⟩

/-- What one step does to tokens, clock and revocations. -/
structure Succeeds (w w' : World) : Prop where
  clock : w.clock ≤ w'.clock
  issues : ∀ i ∈ w.issues, i ∈ w'.issues
  revoked : ∀ f, RevokedIn w.store f → RevokedIn w'.store f
  tokens : ∀ q ∈ w.store.tokens, ∃ q' ∈ w'.store.tokens, Follows w' q q'
  rotated : ∀ q' ∈ w'.store.tokens, q'.rotatedAt.isSome = true →
    (∃ q ∈ w.store.tokens, q.id = q'.id ∧ q.rotatedAt.isSome = true) ∨
      ∃ i ∈ w'.issues, i.parentId = q'.id

section Steps

variable {c : TokenCrypto} {w : World} {s : Store} {clock : ℤ} {issues : List Issue}

theorem succeeds_of_tokens_eq (hclock : w.clock ≤ clock) (hissues : ∀ i ∈ w.issues, i ∈ issues)
    (hrevoked : ∀ f, RevokedIn w.store f → RevokedIn s f)
    (htokens : ∀ q, q ∈ s.tokens ↔ q ∈ w.store.tokens) : Succeeds w ⟨s, clock, issues⟩ where
  clock := hclock
  issues := hissues
  revoked := hrevoked
  tokens q hq := ⟨q, (htokens q).mpr hq, .refl _ q⟩
  rotated q' hq' h := Or.inl ⟨q', (htokens q').mp hq', rfl, h⟩

/-- The tokens a revocation touches belong to families it leaves revoked. -/
theorem revokedIn_of_revokesToken (hs : Linear s) (now : ℤ) {userId : Uuid}
    (reason : RevocationReason) {target : Option Uuid} {q : RefreshToken} (hq : q ∈ s.tokens)
    (h : Store.revokesToken userId target q = true) :
    RevokedIn (s.revokeFamilies now userId reason target) q.familyId := by
  obtain ⟨f, hf, hid, huser⟩ := hs.owner q hq
  refine ⟨_, Store.mem_families_revokeFamilies.mpr ⟨f, hf, rfl⟩, ?_, ?_⟩
  · split <;> exact hid
  · simp only [Store.revokesToken, Bool.and_eq_true, decide_eq_true_eq] at h
    by_cases hlive : f.revocation = none
    · have hrevokes : Store.revokes userId target f = true := by
        simp only [Store.revokes, Bool.and_eq_true, decide_eq_true_eq]
        refine ⟨⟨huser.trans h.1.1, by simp [hlive]⟩, ?_⟩
        rw [hid]
        exact h.2
      simp [hrevokes]
    · have hkeep : Store.revokes userId target f = false := by
        simp [Store.revokes, Option.isNone_eq_false_iff.mpr (Option.isSome_iff_ne_none.mpr hlive)]
      simp [hkeep, Option.isSome_iff_ne_none.mpr hlive]

theorem succeeds_of_revoke (hs : Linear w.store) (hclock : w.clock ≤ clock)
    (hissues : ∀ i ∈ w.issues, i ∈ issues) (now : ℤ) (userId : Uuid) (reason : RevocationReason)
    (target : Option Uuid) {accounts : Table Account.userId}
    (hstore : s = { w.store.revokeFamilies now userId reason target with accounts := accounts }) :
    Succeeds w ⟨s, clock, issues⟩ := by
  have hrows : ∀ t, t ∈ s.tokens ↔ ∃ q ∈ w.store.tokens,
      t = if Store.revokesToken userId target q then q.revoke else q := by
    intro t
    rw [hstore]
    change t ∈ (w.store.revokeFamilies now userId reason target).tokens ↔ _
    exact Store.mem_tokens_revokeFamilies
  have hrevokedIn : ∀ f, RevokedIn (w.store.revokeFamilies now userId reason target) f →
      RevokedIn s f := by
    intro f hf
    rw [hstore]
    exact hf
  refine ⟨hclock, hissues, fun f hf ↦ hrevokedIn f (hf.revokeFamilies now userId reason target),
    ?_, ?_⟩
  · intro q hq
    refine ⟨_, (hrows _).mpr ⟨q, hq, rfl⟩, ?_⟩
    by_cases hp : Store.revokesToken userId target q = true
    · rw [if_pos hp]
      refine ⟨rfl, rfl, rfl, rfl, rfl, rfl, fun _ ↦ rfl, fun _ ↦ ⟨rfl, rfl, Or.inr ⟨rfl, Or.inl ?_⟩⟩⟩
      exact hrevokedIn _ (revokedIn_of_revokesToken hs now reason hq hp)
    · rw [if_neg hp]
      exact .refl _ q
  · intro q' hq' hrotated
    obtain ⟨q, hq, rfl⟩ := (hrows q').mp hq'
    refine Or.inl ⟨q, hq, ?_, ?_⟩
    · split <;> rfl
    · split at hrotated <;> exact hrotated

theorem succeeds_of_erase (hclock : w.clock ≤ clock) (batch : List Uuid) :
    Succeeds w ⟨w.store.eraseReceipts clock batch, clock, w.issues⟩ := by
  refine ⟨hclock, fun i hi ↦ hi, fun f hf ↦ hf, ?_, ?_⟩
  · intro q hq
    refine ⟨_, Store.mem_tokens_eraseReceipts.mpr ⟨q, hq, rfl⟩, ?_⟩
    split
    · rename_i hp
      refine ⟨rfl, rfl, rfl, rfl, rfl, rfl, fun h ↦ h,
        fun _ ↦ ⟨rfl, rfl, Or.inr ⟨rfl, Or.inr ?_⟩⟩⟩
      intro t ht
      have hold := (Bool.and_eq_true_iff.mp hp).2
      rw [Option.mem_def.mp ht] at hold
      simpa using hold
    · exact .refl _ q
  · intro q' hq' hrotated
    obtain ⟨q, hq, rfl⟩ := Store.mem_tokens_eraseReceipts.mp hq'
    refine Or.inl ⟨q, hq, ?_, ?_⟩
    · split <;> rfl
    · split at hrotated <;> exact hrotated

/-- The rows a rotation of `t` leaves behind. -/
structure RotatedTo (c : TokenCrypto) (s s' : Store) (t : RefreshToken) (at_ : ℤ)
    (recovery : Option RefreshRecovery) (next : NewRefreshToken) : Prop where
  tokens : ∀ x, x ∈ s'.tokens ↔ x = .new c t.userId t.familyId next (some t.id) ∨
    ∃ q ∈ s.tokens, x = if q.id = t.id then q.rotate at_ recovery else q
  revoked : ∀ f, RevokedIn s f → RevokedIn s' f

theorem rotatedTo_of_insert {t : RefreshToken} {at_ : ℤ} {recovery : Option RefreshRecovery}
    {next : NewRefreshToken} {inserted : Store}
    (hinsert : Store.insertToken c
      { s with
        tokens := s.tokens.modify (fun q ↦ q.id = t.id) (RefreshToken.rotate at_ recovery)
          fun _ ↦ rfl } t.userId t.familyId next (some t.id) = .ok inserted) :
    RotatedTo c s { inserted with
      families := inserted.families.modify (fun f ↦ f.id = t.familyId)
        (fun f ↦ { f with lastRefreshedAt := at_, expiresAt := next.expiresAt }) fun _ ↦ rfl }
      t at_ recovery next := by
  obtain ⟨_, hsame, htokens, _⟩ := Store.insertToken_eq_ok hinsert
  refine ⟨?_, ?_⟩
  · intro x
    have hmodify := Table.mem_modify (t := s.tokens) (r := x) (p := fun q ↦ q.id = t.id)
      (f := RefreshToken.rotate at_ recovery) fun _ ↦ rfl
    simp only [decide_eq_true_eq] at hmodify
    rw [← hmodify]
    exact Table.mem_insert htokens
  · intro f hf
    rw [hsame]
    exact hf.modify _ fun _ h ↦ h

theorem succeeds_of_rotatedTo {t : RefreshToken} {at_ : ℤ} {recovery : Option RefreshRecovery}
    {next : NewRefreshToken} (ht : t ∈ w.store.tokens) (hrevoked : t.revoked = false)
    (h : RotatedTo c w.store s t at_ recovery next) (hclock : w.clock ≤ clock)
    (hissues : ∀ i ∈ w.issues, i ∈ issues) (hissue : ∃ i ∈ issues, i.parentId = t.id) :
    Succeeds w ⟨s, clock, issues⟩ := by
  refine ⟨hclock, hissues, h.revoked, ?_, ?_⟩
  · intro q hq
    refine ⟨_, (h.tokens _).mpr (Or.inr ⟨q, hq, rfl⟩), ?_⟩
    by_cases hid : q.id = t.id
    · have hqt : q = t := Table.eq_of_key_eq hq ht hid
      have hfresh : q.rotatedAt = none := by
        rcases q.rotation with hnone | htrue
        · exact hnone
        · rw [hqt, hrevoked] at htrue
          exact absurd htrue (by simp)
      rw [if_pos hid]
      refine ⟨rfl, rfl, rfl, rfl, rfl, rfl, fun _ ↦ rfl, fun hsome ↦ ?_⟩
      rw [hfresh] at hsome
      exact absurd hsome (by simp)
    · rw [if_neg hid]
      exact .refl _ q
  · intro x hx hrotated
    rcases (h.tokens x).mp hx with rfl | ⟨q, hq, rfl⟩
    · exact absurd hrotated (by simp [RefreshToken.new])
    · by_cases hid : q.id = t.id
      · obtain ⟨i, hi, hparent⟩ := hissue
        refine Or.inr ⟨i, hi, ?_⟩
        rw [if_pos hid, hparent, ← hid]
        rfl
      · rw [if_neg hid] at hrotated ⊢
        exact Or.inl ⟨q, hq, rfl, hrotated⟩

/-- The answer, the store and the issue of one refresh. -/
inductive Refreshed (c : TokenCrypto) (w : World) (r : Readings) (raw : List Char)
    (attempt : Option Uuid) (next : NewRefreshToken) (nonce : List UInt8) :
    Except MobileAuthError (MobileSessionIdentity × List Char) → Store → List Issue → Prop
  | refused (e : MobileAuthError) : Refreshed c w r raw attempt next nonce (.error e) w.store []
  | replayed {t : RefreshToken} (hmem : t ∈ w.store.tokens) :
      Refreshed c w r raw attempt next nonce (.error .invalidRefreshToken)
        (w.store.revokeFamilies r.write t.userId .replay (some t.familyId)) []
  | recovered {parsed : ParsedRefreshToken} {t child : RefreshToken} {a : Uuid}
      {encrypted : List UInt8} {text : List Char} (hraw : parseRefreshToken c raw = some parsed)
      (hmem : t ∈ w.store.tokens) (hjti : t.jti = parsed.jti) (hattempt : attempt = some a)
      (hrow : w.store.recoverable r.write t = some (encrypted, child))
      (hopen : (RefreshRecovery.new c raw a (next.plain c) nonce).open c encrypted = some text) :
      Refreshed c w r raw attempt next nonce (.ok (⟨t.userId, t.familyId⟩, text)) w.store []
  | rotated {parsed : ParsedRefreshToken} {t : RefreshToken} {s' : Store}
      (hraw : parseRefreshToken c raw = some parsed) (hmem : t ∈ w.store.tokens)
      (hjti : t.jti = parsed.jti) (hhash : t.tokenHash = parsed.hash)
      (hrevoked : t.revoked = false)
      (hrotated : RotatedTo c w.store s' t r.write
        (attempt.map fun a ↦ RefreshRecovery.new c raw a (next.plain c) nonce) next) :
      Refreshed c w r raw attempt next nonce (.ok (⟨t.userId, t.familyId⟩, next.plain c)) s'
        [⟨raw, attempt, t.id, next, nonce, r.write⟩]

theorem World.refreshed (c : TokenCrypto) (w : World) (r : Readings) (raw : List Char)
    (attempt : Option Uuid) (next : NewRefreshToken) (nonce : List UInt8) :
    Refreshed c w r raw attempt next nonce (w.refresh c r raw attempt next nonce).1
      (w.refresh c r raw attempt next nonce).2 (w.issued c r raw attempt next nonce) := by
  simp only [World.refresh, refreshWithAttempt, World.issued]
  cases hraw : parseRefreshToken c raw with
  | none => exact .refused _
  | some parsed =>
      have hcases := Store.rotateInner_rotation c w.store r parsed.jti parsed.hash next
        (attempt.map fun a ↦ RefreshRecovery.new c raw a (next.plain c) nonce)
      dsimp only
      generalize w.store.rotateInner c r parsed.jti parsed.hash next
        (attempt.map fun a ↦ RefreshRecovery.new c raw a (next.plain c) nonce) = result at hcases ⊢
      have hfound : ∀ {t : RefreshToken},
          w.store.tokens.rows.find? (fun t ↦ t.jti = parsed.jti) = some t →
            t.jti = parsed.jti := by
        intro t hfind
        simpa using List.find?_some hfind
      cases hcases with
      | failed => exact .refused _
      | invalid => cases attempt <;> exact .refused _
      | replayed hmem => cases attempt <;> exact .replayed hmem
      | recovered hfind hmem _ _ hrecovery hrow hopen =>
          cases attempt with
          | none => exact absurd hrecovery (by simp)
          | some a =>
              cases hrecovery
              exact .recovered hraw hmem (hfound hfind) rfl hrow hopen
      | rotated hfind hmem hhash hrevoked _ hinsert =>
          have hrotated := rotatedTo_of_insert hinsert
          simp only [hfind]
          cases attempt <;>
            exact .rotated hraw hmem (hfound hfind) hhash hrevoked hrotated

theorem succeeds_next {a : Call} (hs : Linear w.store) (ha : w.Enabled a) :
    Succeeds w (w.next c a) := by
  have hwrite : ∀ {r : Readings}, w.Reads r → w.clock ≤ r.write := by
    rintro r ⟨htoken, hfamily, hwrite⟩
    omega
  have hkeep : ∀ {clock : ℤ}, w.clock ≤ clock → Succeeds w ⟨w.store, clock, w.issues⟩ :=
    fun hclock ↦ succeeds_of_tokens_eq hclock (fun _ hi ↦ hi) (fun _ hf ↦ hf) fun _ ↦ Iff.rfl
  cases a with
  | create userId sessionId token =>
      simp only [World.next, Store.create]
      by_cases hactive : w.store.lockActiveAccount userId = true
      · simp only [hactive, Bool.not_true, Bool.false_eq_true, if_false]
        cases hinsert : w.store.insertSession c userId sessionId token with
        | error e => exact hkeep le_rfl
        | ok result =>
            obtain ⟨families, hfamilies, htoken, _⟩ := Store.insertSession_eq_ok hinsert
            obtain ⟨_, hsame, htokens, _⟩ := Store.insertToken_eq_ok htoken
            refine ⟨le_rfl, fun _ hi ↦ hi, ?_, ?_, ?_⟩
            · rintro f ⟨g, hg, hid⟩
              exact ⟨g, Store.mem_families_insertSession hinsert hg, hid⟩
            · intro q hq
              exact ⟨q, (Table.mem_insert htokens).mpr (Or.inr hq), .refl _ q⟩
            · intro q hq hrotated
              rcases (Table.mem_insert htokens).mp hq with rfl | hq
              · exact absurd hrotated (by simp [RefreshToken.new])
              · exact Or.inl ⟨q, hq, rfl, hrotated⟩
      · simp only [hactive, Bool.not_false, if_true]
        exact hkeep le_rfl
  | refresh r raw attempt next nonce =>
      have hcases := w.refreshed c r raw attempt next nonce
      have hissues : ∀ issues : List Issue, ∀ i ∈ w.issues, i ∈ issues ++ w.issues :=
        fun _ _ hi ↦ List.mem_append_right _ hi
      simp only [World.next]
      generalize (w.refresh c r raw attempt next nonce).1 = answer at hcases
      generalize (w.refresh c r raw attempt next nonce).2 = store at hcases
      generalize w.issued c r raw attempt next nonce = issued at hcases
      cases hcases with
      | refused e => exact hkeep (hwrite ha)
      | replayed hmem =>
          exact succeeds_of_revoke hs (hwrite ha) (hissues []) _ _ _ _ rfl
      | recovered => exact hkeep (hwrite ha)
      | rotated _ hmem _ _ hrevoked hrotated =>
          exact succeeds_of_rotatedTo hmem hrevoked hrotated (hwrite ha) (hissues _)
            ⟨_, List.mem_cons_self, rfl⟩
  | logout r userId sessionId jti hash =>
      simp only [World.next, Store.logout]
      split
      · exact hkeep (hwrite ha)
      · split
        · exact hkeep (hwrite ha)
        · exact succeeds_of_revoke hs (hwrite ha) (fun _ hi ↦ hi) _ _ _ _ rfl
  | revoke r userId currentSessionId targetId =>
      simp only [World.next, Store.revoke]
      split
      · exact hkeep (hwrite ha)
      · split
        · exact hkeep (hwrite ha)
        · exact succeeds_of_revoke hs (hwrite ha) (fun _ hi ↦ hi) _ _ _ _ rfl
  | ban now userId =>
      exact succeeds_of_revoke hs ha (fun _ hi ↦ hi) now userId .banned none rfl
  | unban userId => exact succeeds_of_tokens_eq le_rfl (fun _ hi ↦ hi) (fun _ hf ↦ hf) fun _ ↦ Iff.rfl
  | eraseReceipts now batch => exact succeeds_of_erase ha batch

end Steps

/-- The row of the token that an issue rotated. -/
structure IssuedBy (c : TokenCrypto) (w : World) (i : Issue) (t : RefreshToken) : Prop where
  id : t.id = i.parentId
  revoked : t.revoked = true
  rotatedAt : t.rotatedAt = some i.rotatedAt
  request : t.rotationRequestHash = i.attempt.map (requestHashOf c)
  raw : parseRefreshToken c i.raw = some ⟨t.jti, t.tokenHash⟩
  child : ∃ k ∈ w.store.tokens, k.parentTokenId = some t.id ∧ k.familyId = t.familyId ∧
    k.jti = i.child.jti ∧ k.tokenHash = i.child.hash c
  receipt : (t.rotationResult = i.attempt.map fun a ↦
      (RefreshRecovery.new c i.raw a (i.child.plain c) i.nonce).encryptedToken) ∨
    t.rotationResult = none ∧
      (RevokedIn w.store t.familyId ∨ i.rotatedAt ≤ w.clock - days 7)

/-- Issues and rotated tokens correspond, one issue to a token. -/
structure Receipts (c : TokenCrypto) (w : World) : Prop where
  parents : ∀ i ∈ w.issues, ∃ t ∈ w.store.tokens, IssuedBy c w i t
  complete : ∀ t ∈ w.store.tokens, t.rotatedAt.isSome = true → ∃ i ∈ w.issues, i.parentId = t.id
  unique : ∀ i ∈ w.issues, ∀ i' ∈ w.issues, i.parentId = i'.parentId → i = i'

section Receipts

variable {c : TokenCrypto} {w w' : World} {i : Issue} {t : RefreshToken}

theorem IssuedBy.follow (h : IssuedBy c w i t) (ht : t ∈ w.store.tokens) (hw : Succeeds w w') :
    ∃ t' ∈ w'.store.tokens, IssuedBy c w' i t' := by
  obtain ⟨t', ht', hfollows⟩ := hw.tokens t ht
  obtain ⟨hrotatedAt, hrequest, hresult⟩ := hfollows.rotation (by simp [h.rotatedAt])
  refine ⟨t', ht', by rw [hfollows.id, h.id], hfollows.revoked h.revoked,
    by rw [hrotatedAt, h.rotatedAt], by rw [hrequest, h.request],
    by rw [hfollows.jti, hfollows.hash, h.raw], ?_, ?_⟩
  · obtain ⟨k, hk, hparent, hfamily, hjti, hhash⟩ := h.child
    obtain ⟨k', hk', hchild⟩ := hw.tokens k hk
    exact ⟨k', hk', by rw [hchild.parent, hparent, hfollows.id],
      by rw [hchild.family, hfamily, hfollows.family], by rw [hchild.jti, hjti],
      by rw [hchild.hash, hhash]⟩
  · have hclock := hw.clock
    rw [hfollows.family]
    rcases hresult with hsame | ⟨hnone, hlost⟩
    · rw [hsame]
      rcases h.receipt with hreceipt | ⟨hnone, hrevoked | hold⟩
      · exact Or.inl hreceipt
      · exact Or.inr ⟨hnone, Or.inl (hw.revoked _ hrevoked)⟩
      · exact Or.inr ⟨hnone, Or.inr (by omega)⟩
    · rcases hlost with hrevoked | hold
      · exact Or.inr ⟨hnone, Or.inl hrevoked⟩
      · exact Or.inr ⟨hnone, Or.inr (hold _ (by simp [h.rotatedAt]))⟩

theorem issuedBy_of_rotatedTo {parsed : ParsedRefreshToken} {at_ : ℤ} {raw : List Char}
    {attempt : Option Uuid} {next : NewRefreshToken} {nonce : List UInt8} {s : Store}
    (ht : t ∈ w.store.tokens) (hraw : parseRefreshToken c raw = some parsed)
    (hjti : t.jti = parsed.jti) (hhash : t.tokenHash = parsed.hash)
    (h : RotatedTo c w.store s t at_
      (attempt.map fun a ↦ RefreshRecovery.new c raw a (next.plain c) nonce) next)
    (hs : w'.store = s) :
    ∃ t' ∈ w'.store.tokens, IssuedBy c w' ⟨raw, attempt, t.id, next, nonce, at_⟩ t' := by
  subst hs
  obtain ⟨jti, hash⟩ := parsed
  obtain rfl : t.jti = jti := hjti
  obtain rfl : t.tokenHash = hash := hhash
  refine ⟨t.rotate at_ (attempt.map fun a ↦ RefreshRecovery.new c raw a (next.plain c) nonce),
    (h.tokens _).mpr (Or.inr ⟨t, ht, by simp⟩), rfl, rfl, rfl, ?_, ?_, ?_, Or.inl ?_⟩
  · simp only [RefreshToken.rotate, Option.map_map]
    rfl
  · exact hraw
  · exact ⟨_, (h.tokens _).mpr (Or.inl rfl), rfl, rfl, rfl, rfl⟩
  · simp only [RefreshToken.rotate, Option.map_map]
    rfl

theorem Receipts.next {a : Call} (h : Receipts c w) (hs : Linear w.store) (ha : w.Enabled a) :
    Receipts c (w.next c a) := by
  have hsucceeds := succeeds_next (c := c) hs ha
  have hold : ∀ i ∈ w.issues, ∃ t ∈ (w.next c a).store.tokens, IssuedBy c (w.next c a) i t := by
    intro i hi
    obtain ⟨t, ht, hissued⟩ := h.parents i hi
    exact hissued.follow ht hsucceeds
  have hcomplete : ∀ t ∈ (w.next c a).store.tokens, t.rotatedAt.isSome = true →
      ∃ i ∈ (w.next c a).issues, i.parentId = t.id := by
    intro t ht hrotated
    rcases hsucceeds.rotated t ht hrotated with ⟨q, hq, hid, hqrotated⟩ | hissue
    · obtain ⟨i, hi, hparent⟩ := h.complete q hq hqrotated
      exact ⟨i, hsucceeds.issues i hi, hparent.trans hid⟩
    · exact hissue
  have hsame : (w.next c a).issues = w.issues → Receipts c (w.next c a) := by
    intro heq
    refine ⟨?_, hcomplete, ?_⟩
    · rw [heq]
      exact hold
    · rw [heq]
      exact h.unique
  cases a with
  | create userId sessionId token =>
      refine hsame ?_
      simp only [World.next]
      split <;> rfl
  | refresh r raw attempt next nonce =>
      have hcases := w.refreshed c r raw attempt next nonce
      generalize hanswer : (w.refresh c r raw attempt next nonce).1 = answer at hcases
      generalize hstore : (w.refresh c r raw attempt next nonce).2 = store at hcases
      generalize hissued : w.issued c r raw attempt next nonce = issued at hcases
      cases hcases with
      | refused => exact hsame (by simp [World.next, hissued])
      | replayed => exact hsame (by simp [World.next, hissued])
      | recovered => exact hsame (by simp [World.next, hissued])
      | @rotated parsed t _ hraw hmem hjti hhash hrevoked hrotated =>
          have hissues : (w.next c (.refresh r raw attempt next nonce)).issues =
              ⟨raw, attempt, t.id, next, nonce, r.write⟩ :: w.issues := by
            simp [World.next, hissued]
          have hfresh : ∀ i ∈ w.issues, i.parentId ≠ t.id := by
            intro i hi heq
            obtain ⟨q, hq, hq'⟩ := h.parents i hi
            rw [← Table.eq_of_key_eq hq hmem (hq'.id.trans heq), hq'.revoked] at hrevoked
            exact absurd hrevoked (by simp)
          refine ⟨?_, hcomplete, ?_⟩
          · intro i hi
            rw [hissues] at hi
            rcases List.mem_cons.mp hi with rfl | hi
            · exact issuedBy_of_rotatedTo hmem hraw hjti hhash hrotated hstore
            · exact hold i hi
          · intro i hi i' hi' heq
            rw [hissues] at hi hi'
            rcases List.mem_cons.mp hi with rfl | hi
            · rcases List.mem_cons.mp hi' with rfl | hi'
              · rfl
              · exact absurd heq.symm (hfresh i' hi')
            · rcases List.mem_cons.mp hi' with rfl | hi'
              · exact absurd heq (hfresh i hi)
              · exact h.unique i hi i' hi' heq
  | logout | revoke | ban | unban | eraseReceipts => exact hsame rfl

end Receipts

/-- The account of a live family is active: a ban revokes its families. -/
def Live (s : Store) : Prop :=
  ∀ f ∈ s.families, f.revocation = none → s.lockActiveAccount f.userId = true

namespace Live

variable {c : TokenCrypto} {s s' : Store} {w : World}

theorem of_families (hs : Live s) (haccounts : s'.accounts = s.accounts)
    (hfamilies : ∀ f ∈ s'.families, f.revocation = none →
      ∃ g ∈ s.families, g.userId = f.userId ∧ g.revocation = none) : Live s' := by
  intro f hf hnone
  obtain ⟨g, hg, huser, hlive⟩ := hfamilies f hf hnone
  have hactive := hs g hg hlive
  rwa [Store.lockActiveAccount, ← haccounts, huser] at hactive

theorem revokeFamilies (hs : Live s) (now : ℤ) (userId : Uuid) (reason : RevocationReason)
    (target : Option Uuid) : Live (s.revokeFamilies now userId reason target) := by
  refine hs.of_families rfl fun f hf hnone ↦ ?_
  obtain ⟨g, hg, rfl⟩ := Store.mem_families_revokeFamilies.mp hf
  split at hnone
  · exact absurd hnone (by simp)
  · rename_i hkeep
    exact ⟨g, hg, by rw [if_neg hkeep], hnone⟩

theorem refresh (hs : Live s) (r : Readings) (raw : List Char) (attempt : Option Uuid)
    (next : NewRefreshToken) (nonce : List UInt8) :
    Live (refreshWithAttempt c s r raw attempt next nonce).2 := by
  rcases refreshWithAttempt_store (c := c) (s := s) r raw attempt next nonce with
    hsame | ⟨parsed, rotation, _, hrotate⟩
  · rw [hsame]
    exact hs
  · have hcases := Store.rotateInner_rotation c s r parsed.jti parsed.hash next
      (attempt.map fun a ↦ RefreshRecovery.new c raw a (next.plain c) nonce)
    rw [hrotate] at hcases
    generalize (refreshWithAttempt c s r raw attempt next nonce).2 = s' at hcases
    cases hcases with
    | invalid => exact hs
    | recovered => exact hs
    | replayed => exact hs.revokeFamilies _ _ _ _
    | rotated _ _ _ _ _ hinsert =>
        obtain ⟨haccounts, hsame, _⟩ := Store.insertToken_eq_ok hinsert
        refine hs.of_families haccounts fun f hf hnone ↦ ?_
        rw [hsame] at hf
        obtain ⟨g, hg, rfl⟩ := (Table.mem_modify (f := fun f : Family ↦
          { f with lastRefreshedAt := r.write, expiresAt := next.expiresAt }) fun _ ↦ rfl).mp hf
        refine ⟨g, hg, ?_, ?_⟩
        · split <;> rfl
        · split at hnone <;> exact hnone

theorem ban (hs : Live s) (now : ℤ) (userId : Uuid) : Live (s.ban now userId) := by
  intro f hf hnone
  have hother : f.userId ≠ userId := by
    intro heq
    obtain ⟨g, hg, hfg⟩ := Store.mem_families_revokeFamilies.mp hf
    by_cases hrevokes : Store.revokes userId none g = true
    · rw [if_pos hrevokes] at hfg
      rw [hfg] at hnone
      exact absurd hnone (by simp)
    · rw [if_neg hrevokes] at hfg
      rw [hfg] at hnone heq
      simp [Store.revokes, heq, hnone] at hrevokes
  have hactive := hs.revokeFamilies now userId .banned none f hf hnone
  simp only [Store.lockActiveAccount, Store.ban, Store.revokeFamilies] at hactive ⊢
  rw [Table.find?_modify]
  cases hfind : s.accounts.find? f.userId with
  | none => simp [hfind] at hactive
  | some account =>
      have huser := (Table.find?_eq_some_iff.mp hfind).2
      rw [hfind] at hactive
      simpa [huser, hother] using hactive

theorem unban (hs : Live s) (userId : Uuid) : Live (s.unban userId) := by
  intro f hf hnone
  have hactive := hs f hf hnone
  simp only [Store.lockActiveAccount, Store.unban] at hactive ⊢
  rw [Table.find?_modify]
  cases hfind : s.accounts.find? f.userId with
  | none => simp [hfind] at hactive
  | some account =>
      rw [hfind] at hactive
      simp only [Option.any_some, Bool.and_eq_true, Option.map_some] at hactive ⊢
      split
      · exact ⟨hactive.1, rfl⟩
      · exact hactive

theorem next (hs : Live w.store) (a : Call) : Live (w.next c a).store := by
  cases a with
  | create userId sessionId token =>
      simp only [World.next, Store.create]
      by_cases hactive : w.store.lockActiveAccount userId = true
      · simp only [hactive, Bool.not_true, Bool.false_eq_true, if_false]
        cases hinsert : w.store.insertSession c userId sessionId token with
        | error e => exact hs
        | ok result =>
            obtain ⟨families, hfamilies, htoken, _⟩ := Store.insertSession_eq_ok hinsert
            obtain ⟨haccounts, hsame, _⟩ := Store.insertToken_eq_ok htoken
            intro f hf hnone
            change f ∈ result.2.families at hf
            change result.2.lockActiveAccount f.userId = true
            rw [hsame] at hf
            rw [Store.lockActiveAccount, haccounts]
            rcases (Table.mem_insert hfamilies).mp hf with rfl | hf
            · exact hactive
            · exact hs f hf hnone
      · simp only [hactive, Bool.not_false, if_true]
        exact hs
  | refresh r raw attempt next nonce => exact hs.refresh r raw attempt next nonce
  | logout r userId sessionId jti hash =>
      simp only [World.next, Store.logout]
      split
      · exact hs
      · split
        · exact hs
        · exact hs.revokeFamilies _ _ _ _
  | revoke r userId currentSessionId targetId =>
      simp only [World.next, Store.revoke]
      split
      · exact hs
      · split
        · exact hs
        · exact hs.revokeFamilies _ _ _ _
  | ban now userId => exact hs.ban now userId
  | unban userId => exact hs.unban userId
  | eraseReceipts now batch => exact hs

end Live

/-- The child of a rotated token can still be handed out. -/
def Redeemable (s : Store) (now : ℤ) (t : RefreshToken) : Prop :=
  ∃ k ∈ s.tokens, k.parentTokenId = some t.id ∧ k.revoked = false ∧ now < k.expiresAt ∧
    ∃ at_ ∈ t.rotatedAt, now - days 7 < at_

section Presentations

variable {c : TokenCrypto} {s : Store} {w : World} {r : Readings} {t : RefreshToken}
  {raw : List Char} {attempt : Option Uuid} {next : NewRefreshToken} {nonce : List UInt8}

theorem lockToken_presented (hs : Linear s) (ht : t ∈ s.tokens)
    (hactive : s.lockActiveAccount t.userId = true) (hexpires : r.token < t.expiresAt)
    (recoveryHash : Option (List Char)) :
    s.lockToken r.token t.jti t.tokenHash none recoveryHash = some t := by
  have hfind : s.tokens.rows.find? (fun q ↦ q.jti = t.jti) = some t := by
    cases hfound : s.tokens.rows.find? (fun q ↦ q.jti = t.jti) with
    | none =>
        have hnone := List.find?_eq_none.mp hfound t ht
        simp at hnone
    | some q =>
        have hq : q ∈ s.tokens := List.mem_of_find?_eq_some hfound
        have hjti : q.jti = t.jti := by simpa using List.find?_some hfound
        rw [hs.jti q hq t ht hjti]
  simp [Store.lockToken, hfind, hactive, hexpires]

/-- What a revoked token of a live family meets, before its attempt is
looked at. -/
structure Presented (c : TokenCrypto) (s : Store) (r : Readings) (t : RefreshToken)
    (raw : List Char) : Prop where
  linear : Linear s
  mem : t ∈ s.tokens
  account : s.lockActiveAccount t.userId = true
  unexpired : r.token < t.expiresAt
  family : s.activeFamily r.family t.userId t.familyId = true
  rotated : t.rotatedAt.isSome = true
  raw : parseRefreshToken c raw = some ⟨t.jti, t.tokenHash⟩

namespace Presented

variable (h : Presented c s r t raw)

include h

theorem revoked : t.revoked = true := by
  rcases t.rotation with hnone | hrevoked
  · have hrotated := h.rotated
    rw [hnone] at hrotated
    exact absurd hrotated (by simp)
  · exact hrevoked

/-- Without the attempt that rotated it, the token revokes its family. -/
theorem replay (hattempt : ∀ a ∈ attempt, t.rotationRequestHash ≠ some (requestHashOf c a)) :
    refreshWithAttempt c s r raw attempt next nonce =
      (.error .invalidRefreshToken,
        s.revokeFamilies r.write t.userId .replay (some t.familyId)) := by
  have hfilter : (attempt.map fun a ↦ RefreshRecovery.new c raw a (next.plain c) nonce).filter
      (fun receipt ↦ t.rotationRequestHash = some receipt.requestHash) = none := by
    cases attempt with
    | none => rfl
    | some a =>
        have hne := hattempt a rfl
        simp [Option.filter, RefreshRecovery.new, hne]
  have hrotate : s.rotateInner c r t.jti t.tokenHash next
      (attempt.map fun a ↦ RefreshRecovery.new c raw a (next.plain c) nonce) =
      .ok (.outcome .replayRevoked,
        s.revokeFamilies r.write t.userId .replay (some t.familyId)) := by
    simp only [Store.rotateInner, lockToken_presented h.linear h.mem h.account h.unexpired,
      h.family, Bool.not_true, Bool.false_eq_true, if_false, h.revoked, if_true, hfilter,
      h.rotated]
  simp only [refreshWithAttempt, h.raw, hrotate]
  cases attempt <;> rfl

/-- With that attempt, the answer is what the receipt gives. -/
theorem recover {a : Uuid} (hrequest : t.rotationRequestHash = some (requestHashOf c a))
    {rotation : RefreshRotation}
    (hrotation : s.recoverRotation c r.write t
      (RefreshRecovery.new c raw a (next.plain c) nonce) = .ok rotation) :
    refreshWithAttempt c s r raw (some a) next nonce =
      (match rotation with
        | .outcome (.rotated session) => .ok (session, next.plain c)
        | .recovered session refreshToken => .ok (session, refreshToken)
        | .outcome .invalid | .outcome .replayRevoked => .error .invalidRefreshToken, s) := by
  have hfilter : (some (RefreshRecovery.new c raw a (next.plain c) nonce)).filter
      (fun receipt ↦ t.rotationRequestHash = some receipt.requestHash) =
        some (RefreshRecovery.new c raw a (next.plain c) nonce) := by
    simp [RefreshRecovery.new, hrequest]
  have hrotate : s.rotateInner c r t.jti t.tokenHash next
      (some (RefreshRecovery.new c raw a (next.plain c) nonce)) = .ok (rotation, s) := by
    simp only [Store.rotateInner, lockToken_presented h.linear h.mem h.account h.unexpired,
      h.family, Bool.not_true, Bool.false_eq_true, if_false, h.revoked, if_true, hfilter]
    rw [hrotation]
    rfl
  simp only [refreshWithAttempt, h.raw, Option.map_some, hrotate, Option.isSome_some, if_true]
  split <;> rfl

theorem revokedIn_replay :
    RevokedIn (s.revokeFamilies r.write t.userId .replay (some t.familyId)) t.familyId := by
  obtain ⟨f, hf, hid, huser, hlive, _⟩ := Store.activeFamily_iff.mp h.family
  refine ⟨_, Store.mem_families_revokeFamilies.mpr ⟨f, hf, rfl⟩, ?_, ?_⟩
  · split <;> exact hid
  · simp [Store.revokes, hid, huser, hlive]

theorem not_revokedIn : ¬ RevokedIn s t.familyId := by
  rintro ⟨g, hg, hgid, hgrevoked⟩
  obtain ⟨f, hf, hid, _, hlive, _⟩ := Store.activeFamily_iff.mp h.family
  rw [Table.eq_of_key_eq hg hf (hgid.trans hid.symm), hlive] at hgrevoked
  exact absurd hgrevoked (by simp)

end Presented

/-- The row `recover_rotation` looks for exists exactly when the receipt is
still there and the child redeemable. -/
theorem recoverable_eq_some (hs : Linear s) {now : ℤ} {encrypted : List UInt8}
    {child : RefreshToken} (hchild : child ∈ s.tokens)
    (hparent : child.parentTokenId = some t.id) (hfamily : child.familyId = t.familyId)
    (hresult : t.rotationResult = some encrypted) (h : Redeemable s now t) :
    s.recoverable now t = some (encrypted, child) := by
  obtain ⟨k, hk, hkparent, hkrevoked, hkexpires, at_, hat, hyoung⟩ := h
  have hkc : k = child := hs.oneChild hk hchild hkparent hparent
  subst hkc
  have hfind : s.tokens.rows.find? (fun q ↦ q.parentTokenId = some t.id &&
      q.familyId = t.familyId && !q.revoked && decide (now < q.expiresAt)) = some k := by
    cases hfound : s.tokens.rows.find? (fun q ↦ q.parentTokenId = some t.id &&
        q.familyId = t.familyId && !q.revoked && decide (now < q.expiresAt)) with
    | none =>
        have hnone := List.find?_eq_none.mp hfound k hk
        simp [hparent, hfamily, hkrevoked, hkexpires] at hnone
    | some q =>
        have hq : q ∈ s.tokens := List.mem_of_find?_eq_some hfound
        have hqp := List.find?_some hfound
        simp only [Bool.and_eq_true, decide_eq_true_eq] at hqp
        rw [hs.oneChild hq hk hqp.1.1.1 hparent]
  simp only [Store.recoverable, hresult, hfind]
  rw [Option.mem_def.mp hat]
  simp [hyoung]

theorem redeemable_of_recoverable {now : ℤ} {row : List UInt8 × RefreshToken}
    (h : s.recoverable now t = some row) :
    Redeemable s now t ∧ t.rotationResult = some row.1 := by
  simp only [Store.recoverable] at h
  split at h
  · rename_i encrypted child hresult hfind
    split at h
    · rename_i hyoung
      cases h
      have hp := List.find?_some hfind
      simp only [Bool.and_eq_true, decide_eq_true_eq, Bool.not_eq_true'] at hp
      have hrecent : ∃ at_ ∈ t.rotatedAt, now - days 7 < at_ := by
        cases hat : t.rotatedAt with
        | none => simp [hat] at hyoung
        | some at_ => exact ⟨at_, rfl, by simpa [hat] using hyoung⟩
      obtain ⟨at_, hat, hlt⟩ := hrecent
      exact ⟨⟨child, List.mem_of_find?_eq_some hfind, hp.1.1.1, hp.1.2, hp.2, at_, hat, hlt⟩,
        hresult⟩
    · cases h
  · cases h

end Presentations

section Verdicts

variable {c : TokenCrypto} {w : World} {i : Issue} {r : Readings} {t : RefreshToken}

theorem issuedBy_of_mem (hw : Receipts c w) (hi : i ∈ w.issues) (ht : t ∈ w.store.tokens)
    (hid : i.parentId = t.id) : IssuedBy c w i t := by
  obtain ⟨q, hq, hissued⟩ := hw.parents i hi
  rwa [Table.eq_of_key_eq hq ht (hissued.id.trans hid)] at hissued

/-- The attempt that rotated a token gets the child, or nothing, and changes
nothing. -/
theorem same_attempt (hc : c.Lawful) (h : IssuedBy c w i t) {a : Uuid}
    (hattempt : i.attempt = some a) (hp : Presented c w.store r t i.raw) (hreads : w.Reads r)
    (next : NewRefreshToken) (nonce : List UInt8) :
    (Redeemable w.store r.write t → w.refresh c r i.raw (some a) next nonce =
      (.ok (⟨t.userId, t.familyId⟩, i.child.plain c), w.store)) ∧
    (¬ Redeemable w.store r.write t → w.refresh c r i.raw (some a) next nonce =
      (.error .invalidRefreshToken, w.store)) := by
  have hrequest : t.rotationRequestHash = some (requestHashOf c a) := by
    rw [h.request, hattempt, Option.map_some]
  refine ⟨?_, ?_⟩
  · intro hredeem
    obtain ⟨child, hchild, hparent, hfamily, hjti, hhash⟩ := h.child
    have hresult : t.rotationResult =
        some (RefreshRecovery.new c i.raw a (i.child.plain c) i.nonce).encryptedToken := by
      rcases h.receipt with hreceipt | ⟨_, hrevoked | hold⟩
      · rw [hreceipt, hattempt, Option.map_some]
      · exact absurd hrevoked hp.not_revokedIn
      · obtain ⟨_, _, _, _, _, at_, hat, hyoung⟩ := hredeem
        rw [h.rotatedAt, Option.mem_some_iff] at hat
        obtain ⟨htoken, hfam, hwrite⟩ := hreads
        omega
    have hrow := recoverable_eq_some hp.linear hchild hparent hfamily hresult hredeem
    have hrotation : w.store.recoverRotation c r.write t
        (RefreshRecovery.new c i.raw a (next.plain c) nonce) =
          .ok (.recovered ⟨t.userId, t.familyId⟩ (i.child.plain c)) := by
      simp only [Store.recoverRotation, hrow, RefreshRecovery.open_new hc]
      rw [if_pos]
      rw [parseRefreshToken_plain hc, hjti, hhash]
    exact hp.recover hrequest hrotation
  · intro hnot
    have hrow : w.store.recoverable r.write t = none := by
      cases hrow : w.store.recoverable r.write t with
      | none => rfl
      | some row => exact absurd (redeemable_of_recoverable hrow).1 hnot
    have hrotation : w.store.recoverRotation c r.write t
        (RefreshRecovery.new c i.raw a (next.plain c) nonce) = .ok (.outcome .invalid) := by
      simp only [Store.recoverRotation, hrow]
    exact hp.recover hrequest hrotation

/-- Any other presentation revokes the family. -/
theorem other_attempt (hc : c.Lawful) (h : IssuedBy c w i t) {raw : List Char}
    {attempt : Option Uuid} (hattempt : attempt = none ∨ attempt ≠ i.attempt)
    (hp : Presented c w.store r t raw) (next : NewRefreshToken) (nonce : List UInt8) :
    (w.refresh c r raw attempt next nonce).1 = .error .invalidRefreshToken ∧
      RevokedIn (w.refresh c r raw attempt next nonce).2 t.familyId := by
  have hother : ∀ a ∈ attempt, t.rotationRequestHash ≠ some (requestHashOf c a) := by
    intro a ha
    rw [Option.mem_def] at ha
    rw [h.request]
    intro heq
    obtain ⟨a', ha', hhash⟩ := Option.map_eq_some_iff.mp heq
    have haa := requestHashOf_injective hc hhash
    rcases hattempt with hnone | hne
    · rw [hnone] at ha
      exact absurd ha (by simp)
    · exact hne (by rw [ha, ha', haa])
  have hrefresh : w.refresh c r raw attempt next nonce =
      (.error .invalidRefreshToken,
        w.store.revokeFamilies r.write t.userId .replay (some t.familyId)) := hp.replay hother
  rw [hrefresh]
  exact ⟨rfl, hp.revokedIn_replay⟩

/-- What a refresh answers with an attempt is the child of an issue. -/
theorem issue_of_ok (hc : c.Lawful) (hw : Receipts c w) {raw : List Char} {a : Uuid}
    {next : NewRefreshToken} {nonce : List UInt8} {session : MobileSessionIdentity}
    {text : List Char} {parsed : ParsedRefreshToken}
    (hraw : parseRefreshToken c raw = some parsed)
    (h : (w.refresh c r raw (some a) next nonce).1 = .ok (session, text)) :
    ∃ i ∈ (w.next c (.refresh r raw (some a) next nonce)).issues,
      ∃ t ∈ w.store.tokens, t.id = i.parentId ∧ t.jti = parsed.jti ∧ text = i.child.plain c := by
  have hcases := w.refreshed c r raw (some a) next nonce
  rw [h] at hcases
  simp only [World.next]
  generalize (w.refresh c r raw (some a) next nonce).2 = store at hcases
  generalize w.issued c r raw (some a) next nonce = issued at hcases
  cases hcases with
  | @recovered parsed' t child a' encrypted text hparsed hmem hjti hattempt hrow hopen =>
      rw [hraw, Option.some.injEq] at hparsed
      obtain ⟨⟨_, _, _, _, _, at_, hat, _⟩, hresult⟩ := redeemable_of_recoverable hrow
      obtain ⟨i, hi, hid⟩ := hw.complete t hmem (by rw [Option.mem_def.mp hat]; rfl)
      have hissued := issuedBy_of_mem hw hi hmem hid
      refine ⟨i, by simpa using hi, t, hmem, hid.symm, by rw [hjti, hparsed], ?_⟩
      rcases hissued.receipt with hreceipt | ⟨hnone, _⟩
      · rw [hresult] at hreceipt
        obtain ⟨a₀, _, hsealed⟩ := Option.map_eq_some_iff.mp hreceipt.symm
        dsimp only at hsealed
        rw [← hsealed] at hopen
        simp only [RefreshRecovery.open, RefreshRecovery.new, hc.openSecret] at hopen
        split at hopen
        · exact (Option.some.inj hopen).symm
        · cases hopen
      · rw [hresult] at hnone
        exact absurd hnone (by simp)
  | @rotated parsed' t _ hparsed hmem hjti =>
      rw [hraw, Option.some.injEq] at hparsed
      exact ⟨_, List.mem_cons_self, t, hmem, rfl, by rw [hjti, hparsed], rfl⟩

end Verdicts

section Runs

variable {c : TokenCrypto} {w : World} {as : List Call}

/-- What holds in every state of a run. -/
structure Sound (c : TokenCrypto) (w : World) : Prop where
  linear : Linear w.store
  live : Live w.store
  receipts : Receipts c w

theorem World.Fresh.sound (hw : w.Fresh) : Sound c w where
  linear := hw.linear
  live := by
    intro f hf
    rw [hw.1] at hf
    exact absurd hf (Table.notMem_empty f)
  receipts := by
    refine ⟨?_, ?_, ?_⟩
    · rw [hw.2.2]
      exact fun i hi ↦ absurd hi List.not_mem_nil
    · intro t ht
      rw [hw.2.1] at ht
      exact absurd ht (Table.notMem_empty t)
    · rw [hw.2.2]
      exact fun i hi ↦ absurd hi List.not_mem_nil

theorem Sound.next (h : Sound c w) {a : Call} (ha : w.Enabled a) : Sound c (w.next c a) :=
  ⟨h.linear.next a, h.live.next a, h.receipts.next h.linear ha⟩

theorem Sound.exec (hw : Sound c w) (h : (sessions c).Valid w as) :
    Sound c ((sessions c).exec w as) :=
  h.invariant hw fun _ _ hs ha ↦ hs.next ha

/-- Tokens keep their identifiers and issues are never forgotten. -/
theorem Sound.persists (hw : Sound c w) (h : (sessions c).Valid w as) :
    (∀ i ∈ w.issues, i ∈ ((sessions c).exec w as).issues) ∧
      ∀ t ∈ w.store.tokens, ∃ t' ∈ ((sessions c).exec w as).store.tokens,
        t'.id = t.id ∧ t'.jti = t.jti := by
  have hinv := h.invariant (I := fun v ↦ Sound c v ∧ (∀ i ∈ w.issues, i ∈ v.issues) ∧
      ∀ t ∈ w.store.tokens, ∃ t' ∈ v.store.tokens, t'.id = t.id ∧ t'.jti = t.jti)
    ⟨hw, fun _ hi ↦ hi, fun t ht ↦ ⟨t, ht, rfl, rfl⟩⟩ ?_
  · exact hinv.2
  · rintro v a ⟨hv, hissues, htokens⟩ ha
    have hsucceeds := succeeds_next (c := c) hv.linear ha
    refine ⟨hv.next ha, fun i hi ↦ hsucceeds.issues i (hissues i hi), ?_⟩
    intro t ht
    obtain ⟨t', ht', hid, hjti⟩ := htokens t ht
    obtain ⟨t'', ht'', hfollows⟩ := hsucceeds.tokens t' ht'
    exact ⟨t'', ht'', hfollows.id.trans hid, hfollows.jti.trans hjti⟩

/-- Two presentations of one token with one attempt get one child. -/
theorem Sound.same_answer (hc : c.Lawful) (hw : Sound c w) {r r' : Readings} {raw : List Char}
    {a : Uuid} {next next' : NewRefreshToken} {nonce nonce' : List UInt8} {mid : List Call}
    {x y : MobileSessionIdentity × List Char} (hreads : w.Reads r)
    (h : (sessions c).Valid (w.next c (.refresh r raw (some a) next nonce)) mid)
    (hreads' : ((sessions c).exec (w.next c (.refresh r raw (some a) next nonce)) mid).Reads r')
    (hx : (w.refresh c r raw (some a) next nonce).1 = .ok x)
    (hy : (((sessions c).exec (w.next c (.refresh r raw (some a) next nonce)) mid).refresh c r'
      raw (some a) next' nonce').1 = .ok y) : x.2 = y.2 := by
  have hw₁ : Sound c (w.next c (.refresh r raw (some a) next nonce)) := hw.next hreads
  have hw₂ := hw₁.exec h
  obtain ⟨hissues, htokens⟩ := hw₁.persists h
  generalize (sessions c).exec (w.next c (.refresh r raw (some a) next nonce)) mid = w₂
    at hw₂ hreads' hy hissues htokens
  have hw₃ : Sound c (w₂.next c (.refresh r' raw (some a) next' nonce')) := hw₂.next hreads'
  obtain ⟨parsed, _, hraw, _⟩ := refreshWithAttempt_ok hx
  obtain ⟨i, hi, t, ht, hid, hjti, hplain⟩ := issue_of_ok hc hw.receipts hraw hx
  obtain ⟨i', hi', t', ht', hid', hjti', hplain'⟩ := issue_of_ok hc hw₂.receipts hraw hy
  obtain ⟨t₁, ht₁, hfollows⟩ := (succeeds_next (c := c) (a := .refresh r raw (some a) next nonce)
    hw.linear hreads).tokens t ht
  obtain ⟨t₂, ht₂, hid₂, hjti₂⟩ := htokens t₁ ht₁
  have hsame : t₂ = t' :=
    hw₂.linear.jti t₂ ht₂ t' ht' (by rw [hjti₂, hfollows.jti, hjti, hjti'])
  have hparent : i.parentId = i'.parentId := by
    rw [← hid, ← hid', ← hsame, hid₂, hfollows.id]
  have hmem : i ∈ (w₂.next c (.refresh r' raw (some a) next' nonce')).issues :=
    (succeeds_next (c := c) (a := .refresh r' raw (some a) next' nonce') hw₂.linear
      hreads').issues i (hissues i hi)
  rw [hplain, hplain', hw₃.receipts.unique i hmem i' hi' hparent]

/-- In every reachable state, a rotated, unexpired token of a live family has
one issue. Presented without its attempt, or with another one, it revokes the
family for good; presented as it was, it answers the issued child for as long
as this child is redeemable, nothing otherwise, and changes nothing. Two
presentations with one attempt anywhere in a run answer one child. -/
theorem replay_and_recovery (c : TokenCrypto) (hc : c.Lawful) (hw : w.Fresh)
    (h : (sessions c).Valid w as) :
    (∀ t ∈ ((sessions c).exec w as).store.tokens, ∀ r, ((sessions c).exec w as).Reads r →
      t.rotatedAt.isSome = true → r.token < t.expiresAt →
      ((sessions c).exec w as).store.activeFamily r.family t.userId t.familyId = true →
      ∃ i ∈ ((sessions c).exec w as).issues, i.parentId = t.id ∧
        parseRefreshToken c i.raw = some ⟨t.jti, t.tokenHash⟩ ∧
        (∀ raw attempt next nonce, parseRefreshToken c raw = some ⟨t.jti, t.tokenHash⟩ →
          attempt = none ∨ attempt ≠ i.attempt →
          (((sessions c).exec w as).refresh c r raw attempt next nonce).1 =
              .error .invalidRefreshToken ∧
            RevokedIn (((sessions c).exec w as).refresh c r raw attempt next nonce).2
              t.familyId ∧
            RefusesAll c (((sessions c).exec w as).next c (.refresh r raw attempt next nonce))
              t.familyId) ∧
        ∀ a, i.attempt = some a → ∀ next nonce,
          (Redeemable ((sessions c).exec w as).store r.write t →
            ((sessions c).exec w as).refresh c r i.raw (some a) next nonce =
              (.ok (⟨t.userId, t.familyId⟩, i.child.plain c),
                ((sessions c).exec w as).store)) ∧
          (¬ Redeemable ((sessions c).exec w as).store r.write t →
            ((sessions c).exec w as).refresh c r i.raw (some a) next nonce =
              (.error .invalidRefreshToken, ((sessions c).exec w as).store))) ∧
    ∀ pre r raw a next nonce mid r' next' nonce' post,
      as = pre ++ .refresh r raw (some a) next nonce :: (mid ++
        .refresh r' raw (some a) next' nonce' :: post) →
      ∀ x y, (((sessions c).exec w pre).refresh c r raw (some a) next nonce).1 = .ok x →
        (((sessions c).exec w (pre ++ .refresh r raw (some a) next nonce :: mid)).refresh c r'
          raw (some a) next' nonce').1 = .ok y → x.2 = y.2 := by
  have hsound : Sound c ((sessions c).exec w as) := hw.sound.exec h
  refine ⟨?_, ?_⟩
  · intro t ht r hreads hrotated hexpires hfamily
    obtain ⟨i, hi, hid⟩ := hsound.receipts.complete t ht hrotated
    have hissued := issuedBy_of_mem hsound.receipts hi ht hid
    obtain ⟨f, hf, _, huser, hlive, _⟩ := Store.activeFamily_iff.mp hfamily
    have haccount : ((sessions c).exec w as).store.lockActiveAccount t.userId = true := by
      rw [← huser]
      exact hsound.live f hf hlive
    have hpresented : ∀ raw, parseRefreshToken c raw = some ⟨t.jti, t.tokenHash⟩ →
        Presented c ((sessions c).exec w as).store r t raw :=
      fun raw hraw ↦ ⟨hsound.linear, ht, haccount, hexpires, hfamily, hrotated, hraw⟩
    refine ⟨i, hi, hid, hissued.raw, ?_, ?_⟩
    · intro raw attempt next nonce hraw hattempt
      obtain ⟨herror, hrevoked⟩ :=
        other_attempt hc hissued hattempt (hpresented raw hraw) next nonce
      exact ⟨herror, hrevoked, refusesAll_of_revokedIn (hsound.linear.next _) hrevoked⟩
    · intro a hattempt next nonce
      exact same_attempt hc hissued hattempt (hpresented i.raw hissued.raw) hreads next nonce
  · rintro pre r raw a next nonce mid r' next' nonce' post rfl x y hx hy
    obtain ⟨hpre, hreads, hrest⟩ := System.valid_append.mp h
    obtain ⟨hmid, hreads', _⟩ := System.valid_append.mp hrest
    rw [System.exec_append, System.exec_cons] at hy
    exact (hw.sound.exec hpre).same_answer hc hreads hmid hreads' hx hy

/-- A client that lost the answer of its rotation presents the same token and
attempt again, with a replacement of its own. -/
def lostAnswer : List Call :=
  [.create 1 10 (newToken 1 (days 30)),
    .refresh (readAt (days 1)) ((newToken 1 0).plain transparentCrypto) (some 77)
      (newToken 2 (days 31)) [],
    .refresh (readAt (days 2)) ((newToken 1 0).plain transparentCrypto) (some 77)
      (newToken 3 (days 32)) []]

theorem replay_and_recovery_lostAnswer :
    ∃ x y, (((sessions transparentCrypto).exec oneAccount (lostAnswer.take 1)).refresh
        transparentCrypto (readAt (days 1)) ((newToken 1 0).plain transparentCrypto) (some 77)
        (newToken 2 (days 31)) []).1 = .ok x ∧
      (((sessions transparentCrypto).exec oneAccount (lostAnswer.take 2)).refresh
        transparentCrypto (readAt (days 2)) ((newToken 1 0).plain transparentCrypto) (some 77)
        (newToken 3 (days 32)) []).1 = .ok y ∧ x.2 = y.2 := by
  have hw : oneAccount.Fresh := ⟨rfl, rfl, rfl⟩
  have hvalid : (sessions transparentCrypto).Valid oneAccount lostAnswer := by decide +kernel
  have hok : ∀ e : Except MobileAuthError (MobileSessionIdentity × List Char), e.isOk = true →
      ∃ x, e = .ok x := by
    intro e he
    cases e with
    | error _ => cases he
    | ok x => exact ⟨x, rfl⟩
  obtain ⟨x, hx⟩ := hok (((sessions transparentCrypto).exec oneAccount
    (lostAnswer.take 1)).refresh transparentCrypto (readAt (days 1))
    ((newToken 1 0).plain transparentCrypto) (some 77) (newToken 2 (days 31)) []).1
    (by decide +kernel)
  obtain ⟨y, hy⟩ := hok (((sessions transparentCrypto).exec oneAccount
    (lostAnswer.take 2)).refresh transparentCrypto (readAt (days 2))
    ((newToken 1 0).plain transparentCrypto) (some 77) (newToken 3 (days 32)) []).1
    (by decide +kernel)
  exact ⟨x, y, hx, hy, (replay_and_recovery transparentCrypto transparentCrypto_lawful hw
    hvalid).2 (lostAnswer.take 1) _ _ _ _ _ [] _ _ _ [] rfl x y hx hy⟩

end Runs

end Histae.Identity
