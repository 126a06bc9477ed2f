import Mathlib
import Histae.Identity.Rotation

/-!
# Families are linear chains

The tokens of a family, newest first, are linked from child to parent down
to the token the session was created with, and all but the newest are
revoked. The newest is unrevoked exactly while the family is, and then the
two expire together. Updates that keep ids and links and only ever revoke
preserve a lineage; a rotation puts one token in front of it.
-/

namespace Histae.Identity

open Relational Systems

/-- Newest first: each token is the child of the next, which it replaced. -/
inductive Lineage : List RefreshToken → Prop
  | root {t : RefreshToken} (hparent : t.parentTokenId = none) : Lineage [t]
  | child {t p : RefreshToken} {rest : List RefreshToken} (hparent : t.parentTokenId = some p.id)
      (hrevoked : p.revoked = true) (h : Lineage (p :: rest)) : Lineage (t :: p :: rest)

namespace Lineage

variable {t h : RefreshToken} {l rest : List RefreshToken}

theorem ne_nil (hl : Lineage l) : l ≠ [] := by
  cases hl <;> simp

theorem exists_head (hl : Lineage l) : ∃ h rest, l = h :: rest := by
  cases hl with
  | root => exact ⟨_, _, rfl⟩
  | child => exact ⟨_, _, rfl⟩

theorem revoked_of_mem_tail (hl : Lineage (h :: rest)) (ht : t ∈ rest) : t.revoked = true := by
  induction rest generalizing h with
  | nil => exact absurd ht List.not_mem_nil
  | cons p rest ih =>
      cases hl with
      | child _ hrevoked hrest =>
          rcases List.mem_cons.mp ht with rfl | ht
          · exact hrevoked
          · exact ih hrest ht

theorem map {f : RefreshToken → RefreshToken} (hl : Lineage l)
    (hid : ∀ t, (f t).id = t.id) (hparent : ∀ t, (f t).parentTokenId = t.parentTokenId)
    (hrevoked : ∀ t, t.revoked = true → (f t).revoked = true) : Lineage (l.map f) := by
  induction hl with
  | root hroot => exact .root (by rw [hparent, hroot])
  | child hlink hrev _ ih =>
      exact .child (by rw [hparent, hlink, hid]) (hrevoked _ hrev) ih

/-- The parent of a token is in its lineage, unless the token is the root. -/
theorem parent_mem {p : Uuid} (hl : Lineage l) (ht : t ∈ l) (hp : t.parentTokenId = some p) :
    ∃ q ∈ l, q.id = p ∧ q.revoked = true := by
  induction hl with
  | root hroot =>
      rw [List.mem_singleton.mp ht, hroot] at hp
      exact absurd hp (by simp)
  | child hlink hrev _ ih =>
      rcases List.mem_cons.mp ht with rfl | ht
      · rw [hlink] at hp
        exact ⟨_, List.mem_cons_of_mem _ List.mem_cons_self, Option.some.inj hp, hrev⟩
      · obtain ⟨q, hq, hqp⟩ := ih ht
        exact ⟨q, List.mem_cons_of_mem _ hq, hqp⟩

/-- Two tokens of a lineage with one parent are one token. -/
theorem eq_of_parent_eq {t t' : RefreshToken} {p : Uuid} (hl : Lineage l)
    (hnodup : (l.map RefreshToken.id).Nodup) (ht : t ∈ l) (ht' : t' ∈ l)
    (hp : t.parentTokenId = some p) (hp' : t'.parentTokenId = some p) : t = t' := by
  induction hl with
  | root => rw [List.mem_singleton.mp ht, List.mem_singleton.mp ht']
  | @child u q rest hlink hrev hrest ih =>
      have hnotLater : ∀ v ∈ q :: rest, v.parentTokenId = some q.id → False := by
        intro v hv hvp
        have htail := (List.nodup_cons.mp hnodup).2
        cases hrest with
        | root hroot =>
            rw [List.mem_singleton.mp hv, hroot] at hvp
            exact absurd hvp (by simp)
        | @child _ q' rest' hlink' _ hrest' =>
            have hqnotin := (List.nodup_cons.mp htail).1
            rcases List.mem_cons.mp hv with rfl | hv
            · rw [hlink'] at hvp
              exact hqnotin (by rw [← Option.some.inj hvp]; simp)
            · obtain ⟨w, hw, hwid, _⟩ := parent_mem hrest' hv hvp
              exact hqnotin (hwid ▸ List.mem_map_of_mem hw)
      rcases List.mem_cons.mp ht with rfl | hlater
      · rcases List.mem_cons.mp ht' with rfl | hlater'
        · rfl
        · exact (hnotLater t' hlater' (by rw [hp', ← hp, hlink])).elim
      · rcases List.mem_cons.mp ht' with rfl | hlater'
        · exact (hnotLater t hlater (by rw [hp, ← hp', hlink])).elim
        · exact ih (List.nodup_cons.mp hnodup).2 hlater hlater'

end Lineage

/-- A family, its tokens, and how the newest one stands to the family. -/
structure FamilyChain (s : Store) (f : Family) (l : List RefreshToken) : Prop where
  lineage : Lineage l
  nodup : (l.map RefreshToken.id).Nodup
  tokens : ∀ t, t ∈ l ↔ t ∈ s.tokens ∧ t.familyId = f.id
  live : ∀ h, l.head? = some h → h.revoked = f.revocation.isSome
  expiry : ∀ h, l.head? = some h → f.revocation = none → h.expiresAt = f.expiresAt

structure Linear (s : Store) : Prop where
  jti : ∀ t ∈ s.tokens, ∀ t' ∈ s.tokens, t.jti = t'.jti → t = t'
  owner : ∀ t ∈ s.tokens, ∃ f ∈ s.families, f.id = t.familyId ∧ f.userId = t.userId
  chain : ∀ f ∈ s.families, ∃ l, FamilyChain s f l

/-- An update that keeps a token in its place and may revoke it. -/
structure TokenUpdate (τ : RefreshToken → RefreshToken) : Prop where
  id : ∀ t, (τ t).id = t.id
  jti : ∀ t, (τ t).jti = t.jti
  parent : ∀ t, (τ t).parentTokenId = t.parentTokenId
  family : ∀ t, (τ t).familyId = t.familyId
  user : ∀ t, (τ t).userId = t.userId
  expires : ∀ t, (τ t).expiresAt = t.expiresAt
  revoked : ∀ t, t.revoked = true → (τ t).revoked = true

/-- An update that may revoke a family. -/
structure FamilyUpdate (φ : Family → Family) : Prop where
  id : ∀ f, (φ f).id = f.id
  user : ∀ f, (φ f).userId = f.userId
  expires : ∀ f, (φ f).expiresAt = f.expiresAt
  revoked : ∀ f, (φ f).revocation = none → f.revocation = none

theorem TokenUpdate.ite {τ : RefreshToken → RefreshToken} (h : TokenUpdate τ)
    (p : RefreshToken → Bool) : TokenUpdate fun t ↦ if p t then τ t else t := by
  refine ⟨?_, ?_, ?_, ?_, ?_, ?_, ?_⟩ <;> intro t
  · split <;> simp [h.id]
  · split <;> simp [h.jti]
  · split <;> simp [h.parent]
  · split <;> simp [h.family]
  · split <;> simp [h.user]
  · split <;> simp [h.expires]
  · intro ht
    split
    · exact h.revoked t ht
    · exact ht

theorem TokenUpdate.map_id {τ : RefreshToken → RefreshToken} (h : TokenUpdate τ)
    (l : List RefreshToken) : (l.map τ).map RefreshToken.id = l.map RefreshToken.id := by
  rw [List.map_map]
  exact List.map_congr_left fun t _ ↦ h.id t

theorem FamilyUpdate.ite {φ : Family → Family} (h : FamilyUpdate φ) (q : Family → Bool) :
    FamilyUpdate fun f ↦ if q f then φ f else f := by
  refine ⟨?_, ?_, ?_, ?_⟩ <;> intro f
  · split <;> simp [h.id]
  · split <;> simp [h.user]
  · split <;> simp [h.expires]
  · split
    · exact h.revoked f
    · exact fun hnone ↦ hnone

namespace Linear

variable {s s' : Store}

theorem empty {accounts : Table Account.userId} : Linear ⟨accounts, ∅, ∅⟩ where
  jti t ht := absurd ht (Table.notMem_empty t)
  owner t ht := absurd ht (Table.notMem_empty t)
  chain f hf := absurd hf (Table.notMem_empty f)

theorem user_eq (hs : Linear s) {t : RefreshToken} {f : Family} (ht : t ∈ s.tokens)
    (hf : f ∈ s.families) (hid : t.familyId = f.id) : t.userId = f.userId := by
  obtain ⟨g, hg, hgid, huser⟩ := hs.owner t ht
  rw [← huser, Table.eq_of_key_eq hg hf (hgid.trans hid)]

/-- Updates of tokens and families in place keep the chains when they revoke
the newest token of a family exactly with the family. -/
theorem update {τ : RefreshToken → RefreshToken} {φ : Family → Family} (hs : Linear s)
    (hτ : TokenUpdate τ) (hφ : FamilyUpdate φ)
    (htokens : ∀ t, t ∈ s'.tokens ↔ ∃ q ∈ s.tokens, t = τ q)
    (hfamilies : ∀ f, f ∈ s'.families ↔ ∃ q ∈ s.families, f = φ q)
    (hhead : ∀ f ∈ s.families, ∀ h ∈ s.tokens, h.familyId = f.id → h.userId = f.userId →
      h.revoked = f.revocation.isSome → (τ h).revoked = (φ f).revocation.isSome) :
    Linear s' where
  jti := by
    intro t ht t' ht' hjti
    obtain ⟨q, hq, rfl⟩ := (htokens t).mp ht
    obtain ⟨q', hq', rfl⟩ := (htokens t').mp ht'
    rw [hτ.jti, hτ.jti] at hjti
    rw [hs.jti q hq q' hq' hjti]
  owner := by
    intro t ht
    obtain ⟨q, hq, rfl⟩ := (htokens t).mp ht
    obtain ⟨f, hf, hid, huser⟩ := hs.owner q hq
    refine ⟨φ f, (hfamilies _).mpr ⟨f, hf, rfl⟩, ?_, ?_⟩
    · rw [hφ.id, hτ.family, hid]
    · rw [hφ.user, hτ.user, huser]
  chain := by
    intro f hf
    obtain ⟨g, hg, rfl⟩ := (hfamilies f).mp hf
    obtain ⟨l, hl⟩ := hs.chain g hg
    obtain ⟨h, rest, rfl⟩ := hl.lineage.exists_head
    obtain ⟨hmem, hfamily⟩ := (hl.tokens h).mp List.mem_cons_self
    refine ⟨(h :: rest).map τ, hl.lineage.map hτ.id hτ.parent hτ.revoked, ?_, ?_, ?_, ?_⟩
    · rw [hτ.map_id]
      exact hl.nodup
    · intro t
      rw [List.mem_map, htokens, hφ.id]
      constructor
      · rintro ⟨q, hq, rfl⟩
        obtain ⟨hqmem, hqfamily⟩ := (hl.tokens q).mp hq
        exact ⟨⟨q, hqmem, rfl⟩, by rw [hτ.family, hqfamily]⟩
      · rintro ⟨⟨q, hq, rfl⟩, hqfamily⟩
        rw [hτ.family] at hqfamily
        exact ⟨q, (hl.tokens q).mpr ⟨hq, hqfamily⟩, rfl⟩
    · intro k hk
      rw [List.map_cons, List.head?_cons, Option.some.injEq] at hk
      rw [← hk]
      exact hhead g hg h hmem hfamily (hs.user_eq hmem hg hfamily) (hl.live h rfl)
    · intro k hk hnone
      rw [List.map_cons, List.head?_cons, Option.some.injEq] at hk
      rw [← hk, hτ.expires, hφ.expires]
      exact hl.expiry h rfl (hφ.revoked g hnone)

theorem revokeFamilies (hs : Linear s) (now : ℤ) (userId : Uuid) (reason : RevocationReason)
    (sessionId : Option Uuid) : Linear (s.revokeFamilies now userId reason sessionId) := by
  have hτ : TokenUpdate RefreshToken.revoke :=
    ⟨fun _ ↦ rfl, fun _ ↦ rfl, fun _ ↦ rfl, fun _ ↦ rfl, fun _ ↦ rfl, fun _ ↦ rfl, fun _ _ ↦ rfl⟩
  have hφ : FamilyUpdate fun f ↦ { f with revocation := some (now, reason) } :=
    ⟨fun _ ↦ rfl, fun _ ↦ rfl, fun _ ↦ rfl, fun _ h ↦ absurd h (by simp)⟩
  refine hs.update (hτ.ite (Store.revokesToken userId sessionId))
    (hφ.ite (Store.revokes userId sessionId)) (fun _ ↦ Store.mem_tokens_revokeFamilies)
    (fun _ ↦ Store.mem_families_revokeFamilies) ?_
  intro f _ h _ hfamily huser hlive
  cases hrevocation : f.revocation with
  | some revocation =>
      have hrevoked : h.revoked = true := by rw [hlive, hrevocation, Option.isSome_some]
      have hq : Store.revokes userId sessionId f = false := by
        simp [Store.revokes, hrevocation]
      by_cases hp : Store.revokesToken userId sessionId h <;>
        simp [hp, hq, hrevoked, hrevocation, RefreshToken.revoke]
  | none =>
      have hrevoked : h.revoked = false := by rw [hlive, hrevocation, Option.isSome_none]
      have hsame : Store.revokesToken userId sessionId h = Store.revokes userId sessionId f := by
        simp [Store.revokes, Store.revokesToken, hrevoked, hrevocation, hfamily, huser]
      rw [hsame]
      by_cases hq : Store.revokes userId sessionId f <;>
        simp [hq, hrevoked, hrevocation, RefreshToken.revoke]

theorem eraseReceipts (hs : Linear s) (now : ℤ) (batch : List Uuid) :
    Linear (s.eraseReceipts now batch) := by
  have hτ : TokenUpdate RefreshToken.eraseReceipt :=
    ⟨fun _ ↦ rfl, fun _ ↦ rfl, fun _ ↦ rfl, fun _ ↦ rfl, fun _ ↦ rfl, fun _ ↦ rfl, fun _ h ↦ h⟩
  have hφ : FamilyUpdate id := ⟨fun _ ↦ rfl, fun _ ↦ rfl, fun _ ↦ rfl, fun _ h ↦ h⟩
  refine hs.update (hτ.ite _) hφ (fun _ ↦ Store.mem_tokens_eraseReceipts)
    (fun f ↦ by simp [Store.eraseReceipts]) ?_
  intro f _ h _ _ _ hlive
  rw [id, ← hlive]
  split <;> rfl

theorem of_eq {accounts : Table Account.userId} (hs : Linear s) :
    Linear { s with accounts := accounts } where
  jti := hs.jti
  owner := hs.owner
  chain f hf := by
    obtain ⟨l, hl⟩ := hs.chain f hf
    exact ⟨l, hl.lineage, hl.nodup, hl.tokens, hl.live, hl.expiry⟩

/-- A new family starts with one token. -/
theorem insertSession {c : TokenCrypto} {userId sessionId : Uuid} {token : NewRefreshToken}
    {session : MobileSessionIdentity} (hs : Linear s)
    (h : s.insertSession c userId sessionId token = .ok (session, s')) : Linear s' := by
  obtain ⟨families, hfamilies, hinsert, _⟩ := Store.insertSession_eq_ok h
  obtain ⟨_, hsameFamilies, htokens, hjti, _⟩ := Store.insertToken_eq_ok hinsert
  have hnew : ∀ f ∈ s.families, f.id ≠ sessionId :=
    Table.find?_eq_none_iff.mp (Table.insert?_eq_some_iff.mp hfamilies).1
  have hmem : ∀ t, t ∈ s'.tokens ↔ t = .new c userId sessionId token none ∨ t ∈ s.tokens :=
    fun t ↦ Table.mem_insert htokens
  have hmemFamily : ∀ f, f ∈ s'.families ↔ f = ⟨sessionId, userId, token.createdAt,
      token.createdAt, token.expiresAt, none⟩ ∨ f ∈ s.families := by
    intro f
    rw [hsameFamilies]
    exact Table.mem_insert hfamilies
  have hunused : ∀ t ∈ s.tokens, t.familyId ≠ sessionId := by
    intro t ht heq
    obtain ⟨f, hf, hid, _⟩ := hs.owner t ht
    exact hnew f hf (hid.trans heq)
  refine ⟨?_, ?_, ?_⟩
  · intro t ht t' ht' heq
    rcases (hmem t).mp ht with rfl | ht
    · rcases (hmem t').mp ht' with rfl | ht'
      · rfl
      · exact absurd heq.symm (hjti t' ht')
    · rcases (hmem t').mp ht' with rfl | ht'
      · exact absurd heq (hjti t ht)
      · exact hs.jti t ht t' ht' heq
  · intro t ht
    rcases (hmem t).mp ht with rfl | ht
    · exact ⟨_, (hmemFamily _).mpr (Or.inl rfl), rfl, rfl⟩
    · obtain ⟨f, hf, hid, huser⟩ := hs.owner t ht
      exact ⟨f, (hmemFamily f).mpr (Or.inr hf), hid, huser⟩
  · intro f hf
    rcases (hmemFamily f).mp hf with rfl | hf
    · refine ⟨[.new c userId sessionId token none], .root rfl, by simp, ?_, ?_, ?_⟩
      · intro t
        rw [List.mem_singleton, hmem]
        constructor
        · rintro rfl
          exact ⟨Or.inl rfl, rfl⟩
        · rintro ⟨rfl | ht, hfamily⟩
          · rfl
          · exact absurd hfamily (hunused t ht)
      · intro k hk
        cases hk
        rfl
      · intro k hk _
        cases hk
        rfl
    · obtain ⟨l, hl⟩ := hs.chain f hf
      refine ⟨l, hl.lineage, hl.nodup, ?_, hl.live, hl.expiry⟩
      intro t
      rw [hl.tokens, hmem]
      constructor
      · rintro ⟨ht, hfamily⟩
        exact ⟨Or.inr ht, hfamily⟩
      · rintro ⟨rfl | ht, hfamily⟩
        · exact absurd hfamily.symm (hnew f hf)
        · exact ⟨ht, hfamily⟩

/-- The unrevoked token of a family is the newest. -/
theorem eq_head {f : Family} {t h : RefreshToken} {rest : List RefreshToken}
    (hl : FamilyChain s f (h :: rest)) (ht : t ∈ s.tokens) (hfamily : t.familyId = f.id)
    (hrevoked : t.revoked = false) : t = h := by
  rcases List.mem_cons.mp ((hl.tokens t).mpr ⟨ht, hfamily⟩) with heq | htail
  · exact heq
  · rw [hl.lineage.revoked_of_mem_tail htail] at hrevoked
    exact absurd hrevoked (by simp)

/-- A rotation puts the new token in front of the one it consumes. -/
theorem rotate {c : TokenCrypto} {t : RefreshToken} {at_ : ℤ} {recovery : Option RefreshRecovery}
    {next : NewRefreshToken} {inserted : Store} (hs : Linear s) (ht : t ∈ s.tokens)
    (hrevoked : t.revoked = false)
    (hinsert : Store.insertToken c
      { s with
        tokens := s.tokens.modify (fun q ↦ q.id = t.id) (RefreshToken.rotate at_ recovery)
          fun _ ↦ rfl } t.userId t.familyId next (some t.id) = .ok inserted) :
    Linear { inserted with
      families := inserted.families.modify (fun f ↦ f.id = t.familyId)
        (fun f ↦ { f with lastRefreshedAt := at_, expiresAt := next.expiresAt }) fun _ ↦ rfl } := by
  obtain ⟨_, hsame, htokens, hjti, _⟩ := Store.insertToken_eq_ok hinsert
  let τ : RefreshToken → RefreshToken := fun q ↦
    if decide (q.id = t.id) then q.rotate at_ recovery else q
  have hrotate : TokenUpdate (RefreshToken.rotate at_ recovery) :=
    ⟨fun _ ↦ rfl, fun _ ↦ rfl, fun _ ↦ rfl, fun _ ↦ rfl, fun _ ↦ rfl, fun _ ↦ rfl, fun _ _ ↦ rfl⟩
  have hτ : TokenUpdate τ := hrotate.ite _
  have hmem : ∀ x, x ∈ inserted.tokens ↔
      x = .new c t.userId t.familyId next (some t.id) ∨ ∃ q ∈ s.tokens, x = τ q := by
    intro x
    rw [Table.mem_insert htokens, Table.mem_modify hrotate.id]
  have hfamilies : ∀ f, f ∈ inserted.families.modify (fun f ↦ f.id = t.familyId)
      (fun f ↦ { f with lastRefreshedAt := at_, expiresAt := next.expiresAt }) (fun _ ↦ rfl) ↔
      ∃ g ∈ s.families, f = if decide (g.id = t.familyId) then
        { g with lastRefreshedAt := at_, expiresAt := next.expiresAt } else g := by
    intro f
    rw [hsame]
    exact Table.mem_modify _
  have hfresh : ∀ q ∈ s.tokens, q.jti ≠ next.jti := by
    intro q hq
    rw [← hτ.jti]
    exact hjti (τ q) ((Table.mem_modify hrotate.id).mpr ⟨q, hq, rfl⟩)
  have hnewId : ∀ q ∈ s.tokens, q.id ≠ next.id := by
    intro q hq
    rw [← hτ.id]
    exact Table.find?_eq_none_iff.mp (Table.insert?_eq_some_iff.mp htokens).1 (τ q)
      ((Table.mem_modify hrotate.id).mpr ⟨q, hq, rfl⟩)
  refine ⟨?_, ?_, ?_⟩
  · intro x hx x' hx' heq
    rcases (hmem x).mp hx with rfl | ⟨q, hq, rfl⟩
    · rcases (hmem x').mp hx' with rfl | ⟨q', hq', rfl⟩
      · rfl
      · rw [hτ.jti] at heq
        exact absurd heq.symm (hfresh q' hq')
    · rcases (hmem x').mp hx' with rfl | ⟨q', hq', rfl⟩
      · rw [hτ.jti] at heq
        exact absurd heq (hfresh q hq)
      · rw [hτ.jti, hτ.jti] at heq
        rw [hs.jti q hq q' hq' heq]
  · intro x hx
    have howner : ∀ q ∈ s.tokens, ∃ f ∈ inserted.families.modify (fun f ↦ f.id = t.familyId)
        (fun f ↦ { f with lastRefreshedAt := at_, expiresAt := next.expiresAt }) (fun _ ↦ rfl),
        f.id = q.familyId ∧ f.userId = q.userId := by
      intro q hq
      obtain ⟨g, hg, hid, huser⟩ := hs.owner q hq
      refine ⟨_, (hfamilies _).mpr ⟨g, hg, rfl⟩, ?_, ?_⟩ <;> split <;> simp [hid, huser]
    rcases (hmem x).mp hx with rfl | ⟨q, hq, rfl⟩
    · exact howner t ht
    · rw [hτ.family, hτ.user]
      exact howner q hq
  · intro f hf
    obtain ⟨g, hg, rfl⟩ := (hfamilies f).mp hf
    obtain ⟨l, hl⟩ := hs.chain g hg
    obtain ⟨h, rest, rfl⟩ := hl.lineage.exists_head
    have hold : ∀ x, x ∈ (h :: rest).map τ ↔ (∃ q ∈ s.tokens, x = τ q) ∧ x.familyId = g.id := by
      intro x
      rw [List.mem_map]
      constructor
      · rintro ⟨q, hq, rfl⟩
        obtain ⟨hqmem, hqfamily⟩ := (hl.tokens q).mp hq
        exact ⟨⟨q, hqmem, rfl⟩, by rw [hτ.family, hqfamily]⟩
      · rintro ⟨⟨q, hq, rfl⟩, hqfamily⟩
        rw [hτ.family] at hqfamily
        exact ⟨q, (hl.tokens q).mpr ⟨hq, hqfamily⟩, rfl⟩
    have hmap : Lineage ((h :: rest).map τ) :=
      hl.lineage.map hτ.id hτ.parent hτ.revoked
    by_cases hgt : g.id = t.familyId
    · have hth : t = h := eq_head hl ht hgt.symm hrevoked
      have hlive : g.revocation = none := by
        have hhead := hl.live h rfl
        rw [← hth, hrevoked] at hhead
        simpa using hhead.symm
      have hconsumed : (τ h).id = t.id ∧ (τ h).revoked = true := by
        simp [τ, ← hth, RefreshToken.rotate]
      refine ⟨.new c t.userId t.familyId next (some t.id) :: (h :: rest).map τ,
        ?_, ?_, ?_, ?_, ?_⟩
      · rw [List.map_cons]
        rw [List.map_cons] at hmap
        exact .child (by rw [hconsumed.1]; rfl) hconsumed.2 hmap
      · rw [List.map_cons, List.nodup_cons, hτ.map_id]
        refine ⟨?_, hl.nodup⟩
        intro hid
        obtain ⟨q, hq, hqid⟩ := List.mem_map.mp hid
        exact hnewId q ((hl.tokens q).mp hq).1 hqid
      · intro x
        rw [List.mem_cons, hold, hmem]
        simp only [hgt, decide_true, if_true]
        constructor
        · rintro (rfl | ⟨hx, hfamily⟩)
          · exact ⟨Or.inl rfl, rfl⟩
          · exact ⟨Or.inr hx, hfamily⟩
        · rintro ⟨rfl | hx, hfamily⟩
          · exact Or.inl rfl
          · exact Or.inr ⟨hx, hfamily⟩
      · intro k hk
        cases hk
        simp [hgt, hlive, RefreshToken.new]
      · intro k hk _
        cases hk
        simp [hgt, RefreshToken.new]
    · have hne : h.id ≠ t.id := by
        intro heq
        obtain ⟨hhmem, hhfamily⟩ := (hl.tokens h).mp List.mem_cons_self
        rw [Table.eq_of_key_eq hhmem ht heq] at hhfamily
        exact hgt hhfamily.symm
      have hhead : τ h = h := by simp [τ, hne]
      simp only [hgt, decide_false, Bool.false_eq_true, if_false]
      refine ⟨(h :: rest).map τ, hmap, by rw [hτ.map_id]; exact hl.nodup, ?_, ?_, ?_⟩
      · intro x
        rw [hold, hmem]
        constructor
        · rintro ⟨hx, hfamily⟩
          exact ⟨Or.inr hx, hfamily⟩
        · rintro ⟨rfl | hx, hfamily⟩
          · exact absurd hfamily.symm hgt
          · exact ⟨hx, hfamily⟩
      · intro k hk
        rw [List.map_cons, List.head?_cons, hhead] at hk
        exact hl.live k hk
      · intro k hk
        rw [List.map_cons, List.head?_cons, hhead] at hk
        exact hl.expiry k hk

end Linear

section Steps

variable {c : TokenCrypto} {w : World} {a : Call} {s : Store}

/-- A refresh leaves the store alone or commits what `rotate_inner` did. -/
theorem refreshWithAttempt_store (r : Readings) (raw : List Char) (attempt : Option Uuid)
    (next : NewRefreshToken) (nonce : List UInt8) :
    (refreshWithAttempt c s r raw attempt next nonce).2 = s ∨
      ∃ parsed rotation, parseRefreshToken c raw = some parsed ∧
        s.rotateInner c r parsed.jti parsed.hash next
          (attempt.map fun a ↦ RefreshRecovery.new c raw a (next.plain c) nonce) =
            .ok (rotation, (refreshWithAttempt c s r raw attempt next nonce).2) := by
  simp only [refreshWithAttempt]
  split
  · exact Or.inl rfl
  · rename_i parsed hparsed
    split
    · exact Or.inl rfl
    · rename_i rotation s' hrotate
      refine Or.inr ⟨parsed, rotation, hparsed, ?_⟩
      split <;> exact hrotate

theorem Linear.refresh (hs : Linear s) (r : Readings) (raw : List Char) (attempt : Option Uuid)
    (next : NewRefreshToken) (nonce : List UInt8) :
    Linear (refreshWithAttempt c s r raw attempt next nonce).2 := by
  rcases refreshWithAttempt_store (c := c) (s := s) r raw attempt next nonce with
    hsame | ⟨parsed, rotation, _, hrotate⟩
  · rw [hsame]
    exact hs
  · have hcases := Store.rotateInner_rotation c s r parsed.jti parsed.hash next
      (attempt.map fun a ↦ RefreshRecovery.new c raw a (next.plain c) nonce)
    rw [hrotate] at hcases
    generalize (refreshWithAttempt c s r raw attempt next nonce).2 = s' at hcases
    cases hcases with
    | invalid => exact hs
    | recovered => exact hs
    | replayed => exact hs.revokeFamilies _ _ _ _
    | rotated _ hmem _ hrevoked _ hinsert => exact hs.rotate hmem hrevoked hinsert

theorem Linear.next (hs : Linear w.store) (a : Call) : Linear (w.next c a).store := by
  cases a with
  | create userId sessionId token =>
      simp only [World.next, Store.create]
      by_cases hactive : w.store.lockActiveAccount userId = true
      · simp only [hactive, Bool.not_true, Bool.false_eq_true, if_false]
        cases hinsert : w.store.insertSession c userId sessionId token with
        | error e => exact hs
        | ok result => exact hs.insertSession hinsert
      · simp only [hactive, Bool.not_false, if_true]
        exact hs
  | refresh r raw attempt next nonce => exact hs.refresh r raw attempt next nonce
  | logout r userId sessionId jti hash =>
      simp only [World.next, Store.logout]
      split
      · exact hs
      · split
        · exact hs
        · exact hs.revokeFamilies _ _ _ _
  | revoke r userId currentSessionId targetId =>
      simp only [World.next, Store.revoke]
      split
      · exact hs
      · split
        · exact hs
        · exact hs.revokeFamilies _ _ _ _
  | ban now userId => exact (hs.revokeFamilies now userId .banned none).of_eq
  | unban userId => exact hs.of_eq
  | eraseReceipts now batch => exact hs.eraseReceipts now batch

/-- A revoked family stays stored and revoked. -/
def RevokedIn (s : Store) (sessionId : Uuid) : Prop :=
  ∃ f ∈ s.families, f.id = sessionId ∧ f.revocation.isSome = true

theorem RevokedIn.modify {sessionId : Uuid} {tokens : Table RefreshToken.id}
    {accounts : Table Account.userId} {q : Family → Bool} {φ : Family → Family}
    (h : RevokedIn s sessionId) (hid : ∀ f, (φ f).id = f.id)
    (hrevoked : ∀ f, f.revocation.isSome = true → (φ f).revocation.isSome = true) :
    RevokedIn ⟨accounts, s.families.modify q φ hid, tokens⟩ sessionId := by
  obtain ⟨f, hf, hfid, hfrevoked⟩ := h
  refine ⟨_, (Table.mem_modify hid).mpr ⟨f, hf, rfl⟩, ?_, ?_⟩
  · split <;> simp [hid, hfid]
  · split
    · exact hrevoked f hfrevoked
    · exact hfrevoked

theorem RevokedIn.revokeFamilies {sessionId : Uuid} (h : RevokedIn s sessionId) (now : ℤ)
    (userId : Uuid) (reason : RevocationReason) (target : Option Uuid) :
    RevokedIn (s.revokeFamilies now userId reason target) sessionId :=
  h.modify _ fun _ _ ↦ rfl

theorem RevokedIn.next {sessionId : Uuid} (h : RevokedIn w.store sessionId) (a : Call) :
    RevokedIn (w.next c a).store sessionId := by
  cases a with
  | create userId sessionId' token =>
      simp only [World.next, Store.create]
      by_cases hactive : w.store.lockActiveAccount userId = true
      · simp only [hactive, Bool.not_true, Bool.false_eq_true, if_false]
        cases hinsert : w.store.insertSession c userId sessionId' token with
        | error e => exact h
        | ok result =>
            obtain ⟨f, hf, hfid⟩ := h
            exact ⟨f, Store.mem_families_insertSession hinsert hf, hfid⟩
      · simp only [hactive, Bool.not_false, if_true]
        exact h
  | refresh r raw attempt next nonce =>
      rcases refreshWithAttempt_store (c := c) (s := w.store) r raw attempt next nonce with
        hsame | ⟨parsed, rotation, _, hrotate⟩
      · simpa only [World.next, World.refresh, hsame] using h
      · have hcases := Store.rotateInner_rotation c w.store r parsed.jti parsed.hash next
          (attempt.map fun a ↦ RefreshRecovery.new c raw a (next.plain c) nonce)
        rw [hrotate] at hcases
        simp only [World.next, World.refresh]
        generalize (refreshWithAttempt c w.store r raw attempt next nonce).2 = s' at hcases
        cases hcases with
        | invalid => exact h
        | recovered => exact h
        | replayed => exact h.revokeFamilies _ _ _ _
        | rotated _ _ _ _ _ hinsert =>
            obtain ⟨_, hsame, _⟩ := Store.insertToken_eq_ok hinsert
            rw [hsame]
            exact h.modify _ fun _ hf ↦ hf
  | logout r userId sessionId' jti hash =>
      simp only [World.next, Store.logout]
      split
      · exact h
      · split
        · exact h
        · exact h.revokeFamilies _ _ _ _
  | revoke r userId currentSessionId targetId =>
      simp only [World.next, Store.revoke]
      split
      · exact h
      · split
        · exact h
        · exact h.revokeFamilies _ _ _ _
  | ban now userId => exact h.revokeFamilies now userId .banned none
  | unban userId => exact h
  | eraseReceipts now batch => exact h

/-- A refresh that succeeds names the family of the presented token, and that
family is live. -/
theorem refreshWithAttempt_ok {r : Readings} {raw : List Char} {attempt : Option Uuid}
    {next : NewRefreshToken} {nonce : List UInt8} {session : MobileSessionIdentity}
    {text : List Char}
    (h : (refreshWithAttempt c s r raw attempt next nonce).1 = .ok (session, text)) :
    ∃ parsed t, parseRefreshToken c raw = some parsed ∧ t ∈ s.tokens ∧ t.jti = parsed.jti ∧
      session = ⟨t.userId, t.familyId⟩ ∧
      s.activeFamily r.family t.userId t.familyId = true := by
  simp only [refreshWithAttempt] at h
  split at h
  · cases h
  · rename_i parsed hparsed
    have hcases := Store.rotateInner_rotation c s r parsed.jti parsed.hash next
      (attempt.map fun a ↦ RefreshRecovery.new c raw a (next.plain c) nonce)
    split at h
    · cases h
    · rename_i rotation s' hrotate
      rw [hrotate] at hcases
      have hfound : ∀ {t : RefreshToken},
          s.tokens.rows.find? (fun t ↦ t.jti = parsed.jti) = some t → t.jti = parsed.jti := by
        intro t hfind
        simpa using List.find?_some hfind
      cases hcases with
      | invalid => cases attempt <;> cases h
      | recovered hfind hmem _ hactive hrecovery =>
          refine ⟨parsed, _, hparsed, hmem, hfound hfind, ?_, hactive⟩
          cases attempt <;> cases h <;> rfl
      | replayed => cases attempt <;> cases h
      | rotated hfind hmem _ _ hactive =>
          refine ⟨parsed, _, hparsed, hmem, hfound hfind, ?_, hactive⟩
          cases attempt <;> cases h <;> rfl

end Steps

/-- What a store says about its families when each is one chain. -/
structure LinearFamilies (s : Store) : Prop where
  oneUnrevoked : ∀ t ∈ s.tokens, ∀ t' ∈ s.tokens, t.familyId = t'.familyId →
    t.revoked = false → t'.revoked = false → t = t'
  noneOnceRevoked : ∀ f ∈ s.families, f.revocation.isSome = true → ∀ t ∈ s.tokens,
    t.familyId = f.id → t.revoked = true
  oneChain : ∀ f ∈ s.families, ∃ l, Lineage l ∧ (l.map RefreshToken.id).Nodup ∧
    ∀ t, t ∈ l ↔ t ∈ s.tokens ∧ t.familyId = f.id
  oneChild : ∀ t ∈ s.tokens, ∀ t' ∈ s.tokens, ∀ p, t.parentTokenId = some p →
    t'.parentTokenId = some p → t = t'
  lastUnrevoked : ∀ t ∈ s.tokens, t.revoked = false → ∀ t' ∈ s.tokens,
    t'.parentTokenId ≠ some t.id
  sameExpiry : ∀ f ∈ s.families, f.revocation = none → ∃ t ∈ s.tokens, t.familyId = f.id ∧
    t.revoked = false ∧ t.expiresAt = f.expiresAt

namespace Linear

variable {s : Store}

theorem revoked_of_parent (hs : Linear s) {t : RefreshToken} {p : Uuid} (ht : t ∈ s.tokens)
    (hp : t.parentTokenId = some p) :
    ∃ q ∈ s.tokens, q.id = p ∧ q.revoked = true ∧ q.familyId = t.familyId := by
  obtain ⟨f, hf, hid, _⟩ := hs.owner t ht
  obtain ⟨l, hl⟩ := hs.chain f hf
  obtain ⟨q, hq, hqid, hqrevoked⟩ :=
    hl.lineage.parent_mem ((hl.tokens t).mpr ⟨ht, hid.symm⟩) hp
  obtain ⟨hqmem, hqfamily⟩ := (hl.tokens q).mp hq
  exact ⟨q, hqmem, hqid, hqrevoked, hqfamily.trans hid⟩

theorem oneUnrevoked (hs : Linear s) {t t' : RefreshToken} (ht : t ∈ s.tokens)
    (ht' : t' ∈ s.tokens) (hfamily : t.familyId = t'.familyId) (hrevoked : t.revoked = false)
    (hrevoked' : t'.revoked = false) : t = t' := by
  obtain ⟨f, hf, hid, _⟩ := hs.owner t ht
  obtain ⟨l, hl⟩ := hs.chain f hf
  obtain ⟨h, rest, rfl⟩ := hl.lineage.exists_head
  rw [eq_head hl ht hid.symm hrevoked, eq_head hl ht' (hfamily.symm.trans hid.symm) hrevoked']

theorem oneChild (hs : Linear s) {t t' : RefreshToken} {p : Uuid} (ht : t ∈ s.tokens)
    (ht' : t' ∈ s.tokens) (hp : t.parentTokenId = some p) (hp' : t'.parentTokenId = some p) :
    t = t' := by
  obtain ⟨q, hq, hqid, _, hfamily⟩ := hs.revoked_of_parent ht hp
  obtain ⟨q', hq', hqid', _, hfamily'⟩ := hs.revoked_of_parent ht' hp'
  have hqq : q = q' := Table.eq_of_key_eq hq hq' (hqid.trans hqid'.symm)
  obtain ⟨f, hf, hid, _⟩ := hs.owner t ht
  obtain ⟨l, hl⟩ := hs.chain f hf
  have hsame : t'.familyId = f.id := by rw [← hfamily', ← hqq, hfamily, hid]
  exact hl.lineage.eq_of_parent_eq hl.nodup ((hl.tokens t).mpr ⟨ht, hid.symm⟩)
    ((hl.tokens t').mpr ⟨ht', hsame⟩) hp hp'

theorem linearFamilies (hs : Linear s) : LinearFamilies s where
  oneUnrevoked _ ht _ ht' := hs.oneUnrevoked ht ht'
  noneOnceRevoked := by
    intro f hf hrevoked t ht hfamily
    obtain ⟨l, hl⟩ := hs.chain f hf
    obtain ⟨h, rest, rfl⟩ := hl.lineage.exists_head
    rcases List.mem_cons.mp ((hl.tokens t).mpr ⟨ht, hfamily⟩) with rfl | htail
    · rw [hl.live t rfl, hrevoked]
    · exact hl.lineage.revoked_of_mem_tail htail
  oneChain := by
    intro f hf
    obtain ⟨l, hl⟩ := hs.chain f hf
    exact ⟨l, hl.lineage, hl.nodup, hl.tokens⟩
  oneChild _ ht _ ht' _ := hs.oneChild ht ht'
  lastUnrevoked := by
    intro t ht hrevoked t' ht' hp
    obtain ⟨q, hq, hqid, hqrevoked, _⟩ := hs.revoked_of_parent ht' hp
    rw [Table.eq_of_key_eq hq ht hqid, hrevoked] at hqrevoked
    exact absurd hqrevoked (by simp)
  sameExpiry := by
    intro f hf hlive
    obtain ⟨l, hl⟩ := hs.chain f hf
    obtain ⟨h, rest, rfl⟩ := hl.lineage.exists_head
    obtain ⟨hmem, hfamily⟩ := (hl.tokens h).mp List.mem_cons_self
    refine ⟨h, hmem, hfamily, ?_, hl.expiry h rfl hlive⟩
    rw [hl.live h rfl, hlive, Option.isSome_none]

end Linear

theorem World.Fresh.linear {w : World} (h : w.Fresh) : Linear w.store := by
  obtain ⟨⟨accounts, families, tokens⟩, clock, issues⟩ := w
  obtain ⟨rfl, rfl, _⟩ := h
  exact .empty

theorem linear_exec {c : TokenCrypto} {w : World} {as : List Call} (hw : w.Fresh)
    (h : (sessions c).Valid w as) : Linear ((sessions c).exec w as).store :=
  h.invariant (I := fun w ↦ Linear w.store) hw.linear fun _ a hs _ ↦ hs.next a

/-- No refresh of a revoked family's token succeeds. -/
theorem refresh_of_revoked {c : TokenCrypto} {s : Store} (hs : Linear s) {sessionId : Uuid}
    (hrevoked : RevokedIn s sessionId) {t : RefreshToken} (ht : t ∈ s.tokens)
    (hfamily : t.familyId = sessionId) {raw : List Char} {parsed : ParsedRefreshToken}
    (hraw : parseRefreshToken c raw = some parsed) (hjti : t.jti = parsed.jti) (r : Readings)
    (attempt : Option Uuid) (next : NewRefreshToken) (nonce : List UInt8) :
    ∃ e, (refreshWithAttempt c s r raw attempt next nonce).1 = .error e := by
  cases h : (refreshWithAttempt c s r raw attempt next nonce).1 with
  | error e => exact ⟨e, rfl⟩
  | ok answer =>
      obtain ⟨parsed', t', hparsed', ht', hjti', _, hactive⟩ := refreshWithAttempt_ok h
      rw [hraw, Option.some.injEq] at hparsed'
      have heq : t' = t := hs.jti t' ht' t ht (by rw [hjti', ← hparsed', hjti])
      obtain ⟨f, hf, hid, _, hlive, _⟩ := Store.activeFamily_iff.mp hactive
      obtain ⟨g, hg, hgid, hgrevoked⟩ := hrevoked
      have hgf : g = f := Table.eq_of_key_eq hg hf (by rw [hgid, hid, heq, hfamily])
      rw [hgf, hlive] at hgrevoked
      exact absurd hgrevoked (by simp)

/-- However a run goes on, no refresh of the family's tokens succeeds. -/
def RefusesAll (c : TokenCrypto) (w : World) (sessionId : Uuid) : Prop :=
  ∀ as, (sessions c).Valid w as → ∀ t ∈ ((sessions c).exec w as).store.tokens,
    t.familyId = sessionId → ∀ raw parsed, parseRefreshToken c raw = some parsed →
    t.jti = parsed.jti → ∀ r attempt next nonce,
      ∃ e, (((sessions c).exec w as).refresh c r raw attempt next nonce).1 = .error e

theorem refusesAll_of_revokedIn {c : TokenCrypto} {w : World} {sessionId : Uuid}
    (hs : Linear w.store) (hrevoked : RevokedIn w.store sessionId) :
    RefusesAll c w sessionId := by
  intro as h t ht hfamily raw parsed hraw hjti r attempt next nonce
  have hinv := h.invariant (I := fun w ↦ Linear w.store ∧ RevokedIn w.store sessionId)
    ⟨hs, hrevoked⟩ fun _ a hw _ ↦ ⟨hw.1.next a, hw.2.next a⟩
  exact refresh_of_revoked hinv.1 hinv.2 ht hfamily hraw hjti r attempt next nonce

/-- In every run from an empty store the families are linear chains, and a
family that was revoked at some point refuses every later refresh. -/
theorem families_are_linear (c : TokenCrypto) {w : World} {as : List Call} (hw : w.Fresh)
    (h : (sessions c).Valid w as) :
    LinearFamilies ((sessions c).exec w as).store ∧
      ∀ pre post, as = pre ++ post → ∀ sessionId,
        RevokedIn ((sessions c).exec w pre).store sessionId →
        RefusesAll c ((sessions c).exec w pre) sessionId := by
  refine ⟨(linear_exec hw h).linearFamilies, ?_⟩
  rintro pre post rfl sessionId hrevoked
  exact refusesAll_of_revokedIn (linear_exec hw (System.valid_append.mp h).1) hrevoked

section Runs

def newToken (n : ℕ) (expiresAt : ℤ) : NewRefreshToken where
  id := BitVec.ofNat 128 n
  jti := BitVec.ofNat 128 (4 * 2 ^ 76 + 2 * 2 ^ 62 + n % 2 ^ 62)
  secret := List.replicate 32 (UInt8.ofNat n)
  createdAt := expiresAt - days 30
  expiresAt := expiresAt
  random := by
    have hlt : n % 2 ^ 62 < 2 ^ 62 := Nat.mod_lt _ (by decide)
    have hnat : (BitVec.ofNat 128 (4 * 2 ^ 76 + 2 * 2 ^ 62 + n % 2 ^ 62)).toNat =
        4 * 2 ^ 76 + 2 * 2 ^ 62 + n % 2 ^ 62 := by
      rw [BitVec.toNat_ofNat]
      omega
    rw [isRandomUuid, Matches.versionNum, Matches.isRfc4122, hnat]
    simp only [Bool.and_eq_true, decide_eq_true_eq]
    omega
  size := by simp

def oneAccount : World :=
  ⟨⟨⟨[⟨1, false, false⟩], by simp⟩, ∅, ∅⟩, 0, []⟩

def readAt (t : ℤ) : Readings := ⟨t, t, t⟩

/-- A client rotates its token, and someone presents the old one again. -/
def replayedToken : List Call :=
  [.create 1 10 (newToken 1 (days 30)),
    .refresh (readAt (days 1)) ((newToken 1 0).plain transparentCrypto) none
      (newToken 2 (days 31)) [],
    .refresh (readAt (days 2)) ((newToken 1 0).plain transparentCrypto) none
      (newToken 3 (days 32)) []]

theorem families_are_linear_replayedToken :
    LinearFamilies ((sessions transparentCrypto).exec oneAccount replayedToken).store ∧
      ((sessions transparentCrypto).exec oneAccount replayedToken).store.tokens.rows.map
        (fun t ↦ (t.id, t.revoked, t.parentTokenId)) = [(2, true, some 1), (1, true, none)] ∧
      RevokedIn ((sessions transparentCrypto).exec oneAccount replayedToken).store 10 := by
  have hw : oneAccount.Fresh := ⟨rfl, rfl, rfl⟩
  have hvalid : (sessions transparentCrypto).Valid oneAccount replayedToken := by
    decide +kernel
  have hrevoked : ∃ f ∈ ((sessions transparentCrypto).exec oneAccount
      replayedToken).store.families.rows, f.id = 10 ∧ f.revocation.isSome = true := by
    decide +kernel
  exact ⟨(families_are_linear transparentCrypto hw hvalid).1, by decide +kernel, hrevoked⟩

end Runs

end Histae.Identity
