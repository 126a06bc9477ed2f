import Histae.Profiles.Consents

/-!
# Sensitive data under a live consent

An active consent is the latest event of its type. A consent that was granted
and withdrawn is followed by a later event that was withdrawn after it, if at
all, so that a pass that takes the earliest withdrawals first never leaves it as
the latest one. Sex, preferences and positions are written under the lock that
found an active consent, and go with it.
-/

namespace Histae.Profiles

open Relational Systems Text Discovery

/-- The user has an active consent of the type. -/
def ProfileDb.HasActive (db : ProfileDb) (userId : Uuid) (type : ConsentType) : Prop :=
  ∃ e ∈ db.consents, e.concerns userId type = true ∧ e.isActive = true

theorem concerns_iff {userId : Uuid} {type : ConsentType} {e : ConsentEvent} :
    e.concerns userId type = true ↔ e.userId = userId ∧ e.consentType = type := by
  simp [ConsentEvent.concerns]

theorem isActive_iff {e : ConsentEvent} :
    e.isActive = true ↔ e.granted = true ∧ e.withdrawnAt = none := by
  simp [ConsentEvent.isActive]

/-- The consents of every user, at an instant. -/
structure ConsentHistory (db : ProfileDb) (clock : ℤ) : Prop where
  sequence : ∀ e ∈ db.consents, e.eventSequence < db.nextSequence
  past : ∀ e ∈ db.consents, ∀ t, e.withdrawnAt = some t → t ≤ clock
  latest : ∀ e ∈ db.consents, e.isActive = true → ∀ e' ∈ db.consents,
    e'.concerns e.userId e.consentType = true → e'.eventSequence ≤ e.eventSequence
  superseded : ∀ e ∈ db.consents, ∀ t, e.granted = true → e.withdrawnAt = some t →
    ∃ e' ∈ db.consents, e'.concerns e.userId e.consentType = true ∧
      e.eventSequence < e'.eventSequence ∧ ∀ t', e'.withdrawnAt = some t' → t < t'

/-- Data that needs a consent has one. -/
structure DataConsented (db : ProfileDb) : Prop where
  sex : ∀ p ∈ db.profiles, p.sex ≠ none → db.HasActive p.userId .sensitiveDataConsent
  preferences : ∀ p ∈ db.preferences, db.HasActive p.userId .sensitiveDataConsent
  presence : ∀ p ∈ db.presences, db.HasActive p.userId .locationConsent

section History

variable {db db' : ProfileDb} {clock : ℤ} {userId : Uuid} {type : ConsentType}

theorem ConsentHistory.mono {clock' : ℤ} (h : ConsentHistory db clock) (hle : clock ≤ clock') :
    ConsentHistory db clock' :=
  ⟨h.sequence, fun e he t ht ↦ (h.past e he t ht).trans hle, h.latest, h.superseded⟩

theorem ConsentHistory.of_eq (h : ConsentHistory db clock) (hconsents : db'.consents = db.consents)
    (hnext : db'.nextSequence = db.nextSequence) : ConsentHistory db' clock := by
  refine ⟨?_, ?_, ?_, ?_⟩
  · rw [hconsents, hnext]
    exact h.sequence
  · rw [hconsents]
    exact h.past
  · rw [hconsents]
    exact h.latest
  · rw [hconsents]
    exact h.superseded

theorem pairwise_descending (l : List ConsentEvent) :
    (l.insertionSort fun e e' ↦ e'.eventSequence ≤ e.eventSequence).Pairwise
      fun e e' ↦ e'.eventSequence ≤ e.eventSequence := by
  have htotal : Std.Total fun e e' : ConsentEvent ↦ e'.eventSequence ≤ e.eventSequence :=
    ⟨fun e e' ↦ le_total e'.eventSequence e.eventSequence⟩
  have htrans : IsTrans ConsentEvent fun e e' ↦ e'.eventSequence ≤ e.eventSequence :=
    ⟨fun _ _ _ h h' ↦ h'.trans h⟩
  exact List.pairwise_insertionSort _ l

theorem latestEvent_eq_some {e : ConsentEvent} (h : db.latestEvent userId type = some e) :
    e ∈ db.consents ∧ e.concerns userId type = true ∧
      ∀ e' ∈ db.consents, e'.concerns userId type = true → e'.eventSequence ≤ e.eventSequence := by
  unfold ProfileDb.latestEvent at h
  have hmem : e ∈ db.consents.select (ConsentEvent.concerns userId type) :=
    (List.mem_insertionSort _).mp (List.mem_of_mem_head? h)
  obtain ⟨he, hconcerns⟩ := Table.mem_select.mp hmem
  refine ⟨he, hconcerns, fun e' he' hconcerns' ↦ ?_⟩
  have hmem' := (List.mem_insertionSort fun e e' : ConsentEvent ↦
    e'.eventSequence ≤ e.eventSequence).mpr (Table.mem_select.mpr ⟨he', hconcerns'⟩)
  have hsorted := pairwise_descending (db.consents.select (ConsentEvent.concerns userId type))
  cases hlist : (db.consents.select (ConsentEvent.concerns userId type)).insertionSort
      fun e e' ↦ e'.eventSequence ≤ e.eventSequence with
  | nil => simp [hlist] at h
  | cons head rest =>
      rw [hlist] at h hmem' hsorted
      obtain rfl := Option.some.inj h
      rcases List.mem_cons.mp hmem' with rfl | hrest
      · exact le_rfl
      · exact List.rel_of_pairwise_cons hsorted hrest

theorem latestEvent_eq_none (h : db.latestEvent userId type = none) :
    ∀ e ∈ db.consents, e.concerns userId type = false := by
  unfold ProfileDb.latestEvent at h
  rw [List.head?_eq_none_iff] at h
  intro e he
  by_contra hconcerns
  have hmem := (List.mem_insertionSort fun e e' : ConsentEvent ↦
    e'.eventSequence ≤ e.eventSequence).mpr
      (Table.mem_select.mpr ⟨he, Bool.eq_true_of_not_eq_false hconcerns⟩)
  rw [h] at hmem
  exact List.not_mem_nil hmem

/-- The latest event of a type is a grant exactly while a consent is active. -/
theorem ConsentHistory.latest_granted_iff (h : ConsentHistory db clock) :
    (db.latestEvent userId type).any ConsentEvent.granted = true ↔ db.HasActive userId type := by
  constructor
  · intro hlatest
    obtain ⟨e, he, hgranted⟩ := (Option.any_eq_true _ _).mp hlatest
    obtain ⟨hmem, hconcerns, hmax⟩ := latestEvent_eq_some he
    refine ⟨e, hmem, hconcerns, isActive_iff.mpr ⟨hgranted, ?_⟩⟩
    cases hwithdrawn : e.withdrawnAt with
    | none => rfl
    | some t =>
        obtain ⟨e', hmem', hconcerns', hlt, -⟩ := h.superseded e hmem t hgranted hwithdrawn
        obtain ⟨rfl, rfl⟩ := concerns_iff.mp hconcerns
        exact absurd (hmax e' hmem' hconcerns') (not_le.mpr hlt)
  · rintro ⟨e, hmem, hconcerns, hactive⟩
    cases hlatest : db.latestEvent userId type with
    | none =>
        rw [latestEvent_eq_none hlatest e hmem] at hconcerns
        cases hconcerns
    | some e' =>
        obtain ⟨hmem', hconcerns', hmax⟩ := latestEvent_eq_some hlatest
        have hle := hmax e hmem hconcerns
        obtain ⟨rfl, rfl⟩ := concerns_iff.mp hconcerns
        have hge := h.latest e hmem hactive e' hmem' hconcerns'
        obtain rfl := Table.eq_of_key_eq hmem hmem' (le_antisymm hle hge)
        exact (isActive_iff.mp hactive).1

/-- Each user has at most one active consent of a type. -/
theorem ConsentHistory.single (h : ConsentHistory db clock) {e e' : ConsentEvent}
    (he : e ∈ db.consents) (he' : e' ∈ db.consents) (hactive : e.isActive = true)
    (hactive' : e'.isActive = true) (huser : e.userId = e'.userId)
    (htype : e.consentType = e'.consentType) : e = e' := by
  have hle := h.latest e he hactive e' he' (concerns_iff.mpr ⟨huser.symm, htype.symm⟩)
  have hge := h.latest e' he' hactive' e he (concerns_iff.mpr ⟨huser, htype⟩)
  exact Table.eq_of_key_eq he he' (le_antisymm hge hle)

/-- A batch of the earliest withdrawals keeps what supersedes the others. -/
theorem ConsentHistory.purged (h : ConsentHistory db clock) {cutoff : ℤ} {limit : ℕ}
    {chosen : List ℕ} (hbatch : IsBatch db cutoff limit chosen) :
    ConsentHistory { db with consents := db.consents.delete fun e ↦ e.eventSequence ∈ chosen }
      clock := by
  have hmem {e : ConsentEvent} : e ∈ db.consents.delete (fun e ↦ e.eventSequence ∈ chosen) ↔
      e ∈ db.consents ∧ e.eventSequence ∉ chosen := by
    rw [Table.mem_delete, decide_eq_false_iff_not]
  refine ⟨fun e he ↦ h.sequence e (hmem.mp he).1, fun e he ↦ h.past e (hmem.mp he).1, ?_, ?_⟩
  · intro e he hactive e' he'
    exact h.latest e (hmem.mp he).1 hactive e' (hmem.mp he').1
  · intro e he t hgranted hwithdrawn
    obtain ⟨hin, hkept⟩ := hmem.mp he
    obtain ⟨e', he', hconcerns, hlt, hlater⟩ := h.superseded e hin t hgranted hwithdrawn
    refine ⟨e', hmem.mpr ⟨he', fun hchosen ↦ hkept ?_⟩, hconcerns, hlt, hlater⟩
    obtain ⟨t', ht', -⟩ := hbatch.withdrawn e' he' hchosen
    exact hbatch.first e' he' hchosen e hin t' t ht' hwithdrawn (hlater t' ht')

theorem ProfileDb.HasActive.purged {cutoff : ℤ} {limit : ℕ} {chosen : List ℕ}
    (hbatch : IsBatch db cutoff limit chosen) (h : db.HasActive userId type) :
    ({ db with consents := db.consents.delete fun e ↦ e.eventSequence ∈ chosen } :
      ProfileDb).HasActive userId type := by
  obtain ⟨e, he, hconcerns, hactive⟩ := h
  refine ⟨e, Table.mem_delete.mpr ⟨he, ?_⟩, hconcerns, hactive⟩
  rw [decide_eq_false_iff_not]
  intro hchosen
  obtain ⟨t, ht, -⟩ := hbatch.withdrawn e he hchosen
  rw [(isActive_iff.mp hactive).2] at ht
  cases ht

end History

section Changes

variable {db db' : ProfileDb} {clock : ℤ} {userId : Uuid} {change : VersionedConsentChange}
  {t : ChangeClock}

/-- The row that a change inserts. -/
def newEvent (db : ProfileDb) (userId : Uuid) (change : VersionedConsentChange) (t : ChangeClock) :
    ConsentEvent where
  eventSequence := db.nextSequence
  userId := userId
  consentType := change.consentType
  granted := change.granted
  documentVersion := change.documentVersion
  documentLanguage := change.documentLanguage
  grantedAt := t.granted
  withdrawnAt := if change.granted then none else some t.refused

/-- An event after the update that ends the active consent of the type. -/
def ended (userId : Uuid) (type : ConsentType) (clock : ℤ) (e : ConsentEvent) : ConsentEvent :=
  if e.concerns userId type && e.isActive then e.withdraw clock else e

theorem concerns_ended {type type' : ConsentType} {userId' : Uuid} (e : ConsentEvent) :
    (ended userId type clock e).concerns userId' type' = e.concerns userId' type' := by
  unfold ended
  split <;> rfl

theorem eventSequence_ended {type : ConsentType} (e : ConsentEvent) :
    (ended userId type clock e).eventSequence = e.eventSequence := by
  unfold ended
  split <;> rfl

/-- What a change writes, unless the latest event already says so. -/
structure Writes (db : ProfileDb) (userId : Uuid) (change : VersionedConsentChange)
    (t : ChangeClock) (db₁ : ProfileDb) : Prop where
  mem : ∀ e, e ∈ db₁.consents ↔ e = newEvent db userId change t ∨
    ∃ old ∈ db.consents, e = ended userId change.consentType t.withdrawn old
  next : db₁.nextSequence = db.nextSequence + 1
  profiles : db₁.profiles = db.profiles
  preferences : db₁.preferences = db.preferences
  presences : db₁.presences = db.presences

theorem recordChange_cases (h : db.recordChange userId change t = some db') :
    db' = db ∨ ∃ db₁, Writes db userId change t db₁ ∧ db' = db₁.eraseRefused userId change := by
  unfold ProfileDb.recordChange at h
  split at h
  · exact Or.inl (Option.some.inj h).symm
  obtain ⟨db₁, hinsert, rfl⟩ := Option.map_eq_some_iff.mp h
  refine Or.inr ⟨db₁, ?_, rfl⟩
  simp only [ProfileDb.insertConsent] at hinsert
  split at hinsert
  · cases hinsert
  obtain ⟨consents, hconsents, rfl⟩ := Option.map_eq_some_iff.mp hinsert
  refine ⟨fun e ↦ ?_, rfl, rfl, rfl, rfl⟩
  refine (Table.mem_insert hconsents).trans (or_congr Iff.rfl ?_)
  exact Table.mem_modify (ConsentEvent.eventSequence_withdraw t.withdrawn)

theorem eraseRefused_consents (db : ProfileDb) (userId : Uuid) (change : VersionedConsentChange) :
    (db.eraseRefused userId change).consents = db.consents ∧
      (db.eraseRefused userId change).nextSequence = db.nextSequence := by
  unfold ProfileDb.eraseRefused
  split
  · exact ⟨rfl, rfl⟩
  · split <;> exact ⟨rfl, rfl⟩

theorem ended_isActive {type : ConsentType} {e : ConsentEvent}
    (h : (ended userId type clock e).isActive = true) :
    e.isActive = true ∧ e.concerns userId type = false ∧ ended userId type clock e = e := by
  unfold ended at h ⊢
  split at h
  · cases (isActive_iff.mp h).2
  · rename_i hcond
    refine ⟨h, ?_, if_neg hcond⟩
    rw [h, Bool.and_true] at hcond
    exact Bool.eq_false_of_not_eq_true hcond

theorem ended_withdrawnAt {type : ConsentType} {e : ConsentEvent} {s : ℤ}
    (h : (ended userId type clock e).withdrawnAt = some s) :
    e.withdrawnAt = some s ∨ s = clock ∧ e.concerns userId type = true := by
  unfold ended at h
  split at h
  · rename_i hcond
    rw [Bool.and_eq_true] at hcond
    exact Or.inr ⟨(Option.some.inj h).symm, hcond.1⟩
  · exact Or.inl h

theorem granted_ended {type : ConsentType} (e : ConsentEvent) :
    (ended userId type clock e).granted = e.granted := by
  unfold ended
  split <;> rfl

theorem owner_ended {type : ConsentType} (e : ConsentEvent) :
    (ended userId type clock e).userId = e.userId ∧
      (ended userId type clock e).consentType = e.consentType := by
  unfold ended
  split <;> exact ⟨rfl, rfl⟩

theorem newEvent_withdrawnAt {s : ℤ} (h : (newEvent db userId change t).withdrawnAt = some s) :
    change.granted = false ∧ s = t.refused := by
  cases hgranted : change.granted with
  | true => simp [newEvent, hgranted] at h
  | false =>
      simp only [newEvent, hgranted] at h
      exact ⟨rfl, (Option.some.inj h).symm⟩

theorem Writes.history {db₁ : ProfileDb} (h : Writes db userId change t db₁)
    (hhistory : ConsentHistory db clock) (h₁ : clock < t.withdrawn) (h₂ : t.withdrawn < t.refused) :
    ConsentHistory db₁ t.refused := by
  refine ⟨?_, ?_, ?_, ?_⟩
  · intro e he
    rw [h.next]
    rcases (h.mem e).mp he with rfl | ⟨old, hold, rfl⟩
    · exact Nat.lt_succ_self _
    · rw [eventSequence_ended]
      exact Nat.lt_succ_of_lt (hhistory.sequence old hold)
  · intro e he s hs
    rcases (h.mem e).mp he with rfl | ⟨old, hold, rfl⟩
    · exact (newEvent_withdrawnAt hs).2.le
    · rcases ended_withdrawnAt hs with hs | ⟨rfl, -⟩
      · exact (hhistory.past old hold s hs).trans (h₁.trans h₂).le
      · exact h₂.le
  · intro e he hactive e' he' hconcerns
    rcases (h.mem e).mp he with rfl | ⟨old, hold, rfl⟩
    · rcases (h.mem e').mp he' with rfl | ⟨old', hold', rfl⟩
      · exact le_rfl
      · rw [eventSequence_ended]
        exact (hhistory.sequence old' hold').le
    · obtain ⟨holdactive, hapart, hsame⟩ := ended_isActive hactive
      rw [hsame] at hconcerns ⊢
      rcases (h.mem e').mp he' with rfl | ⟨old', hold', rfl⟩
      · obtain ⟨huser, htype⟩ := concerns_iff.mp hconcerns
        have hown : old.concerns userId change.consentType = true :=
          concerns_iff.mpr ⟨huser.symm, htype.symm⟩
        rw [hown] at hapart
        cases hapart
      · rw [concerns_ended] at hconcerns
        rw [eventSequence_ended]
        exact hhistory.latest old hold holdactive old' hold' hconcerns
  · intro e he s hgranted hs
    rcases (h.mem e).mp he with rfl | ⟨old, hold, rfl⟩
    · have hrefused := (newEvent_withdrawnAt hs).1
      rw [show change.granted = true from hgranted] at hrefused
      cases hrefused
    · rw [granted_ended] at hgranted
      rw [(owner_ended old).1, (owner_ended old).2, eventSequence_ended]
      rcases ended_withdrawnAt hs with hs | ⟨rfl, hconcerns⟩
      · obtain ⟨e', he', hconcerns, hlt, hlater⟩ := hhistory.superseded old hold s hgranted hs
        refine ⟨ended userId change.consentType t.withdrawn e',
          (h.mem _).mpr (Or.inr ⟨e', he', rfl⟩), ?_, ?_, ?_⟩
        · rw [concerns_ended]
          exact hconcerns
        · rw [eventSequence_ended]
          exact hlt
        · intro s' hs'
          rcases ended_withdrawnAt hs' with hs' | ⟨rfl, -⟩
          · exact hlater s' hs'
          · exact (hhistory.past old hold s hs).trans_lt h₁
      · obtain ⟨huser, htype⟩ := concerns_iff.mp hconcerns
        refine ⟨newEvent db userId change t, (h.mem _).mpr (Or.inl rfl),
          concerns_iff.mpr ⟨huser.symm, htype.symm⟩, hhistory.sequence old hold, ?_⟩
        intro s' hs'
        rw [(newEvent_withdrawnAt hs').2]
        exact h₂

/-- A change keeps the active consents of the other types and users, and a
grant gives one. -/
theorem Writes.hasActive {db₁ : ProfileDb} (h : Writes db userId change t db₁) {user : Uuid}
    {type : ConsentType} (hactive : db.HasActive user type)
    (hother : change.granted = true ∨ ¬ (user = userId ∧ type = change.consentType)) :
    db₁.HasActive user type := by
  by_cases hsame : user = userId ∧ type = change.consentType
  · obtain ⟨rfl, rfl⟩ := hsame
    have hgranted : change.granted = true := by
      rcases hother with hgranted | hother
      · exact hgranted
      · exact absurd ⟨rfl, rfl⟩ hother
    refine ⟨newEvent db user change t, (h.mem _).mpr (Or.inl rfl), concerns_iff.mpr ⟨rfl, rfl⟩, ?_⟩
    simp [ConsentEvent.isActive, newEvent, hgranted]
  · obtain ⟨e, he, hconcerns, hisActive⟩ := hactive
    have hapart : (e.concerns userId change.consentType && e.isActive) = false := by
      rw [hisActive, Bool.and_true]
      refine Bool.eq_false_of_not_eq_true fun h ↦ hsame ?_
      obtain ⟨huser, htype⟩ := concerns_iff.mp hconcerns
      obtain ⟨huser', htype'⟩ := concerns_iff.mp h
      exact ⟨huser.symm.trans huser', htype.symm.trans htype'⟩
    refine ⟨e, (h.mem e).mpr (Or.inr ⟨e, he, ?_⟩), hconcerns, hisActive⟩
    unfold ended
    rw [hapart]
    rfl

theorem hasActive_of_consents {user : Uuid} {type : ConsentType}
    (hconsents : db'.consents = db.consents) (h : db.HasActive user type) :
    db'.HasActive user type := by
  obtain ⟨e, he, hrest⟩ := h
  exact ⟨e, hconsents ▸ he, hrest⟩

/-- The consent that a datum needs is not the one refused. -/
def Spared (userId : Uuid) (change : VersionedConsentChange) (user : Uuid) (type : ConsentType) :
    Prop := change.granted = true ∨ ¬ (user = userId ∧ type = change.consentType)

theorem mem_eraseRefused_profiles {p : ProfileRow}
    (hp : p ∈ (db.eraseRefused userId change).profiles) (hsex : p.sex ≠ none) :
    p ∈ db.profiles ∧ Spared userId change p.userId .sensitiveDataConsent := by
  unfold ProfileDb.eraseRefused at hp
  split at hp
  · rename_i hgranted
    exact ⟨hp, Or.inl hgranted⟩
  split at hp
  · rename_i htype
    obtain ⟨old, hold, rfl⟩ :=
      (Table.mem_modify (f := fun p : ProfileRow ↦ { p with sex := none }) fun _ ↦ rfl).mp hp
    by_cases huser : old.userId = userId
    · rw [if_pos (decide_eq_true huser)] at hsex
      exact absurd rfl hsex
    · rw [if_neg (by simpa using huser)]
      exact ⟨hold, Or.inr fun h ↦ huser h.1⟩
  · rename_i htype
    exact ⟨hp, Or.inr fun h ↦ by simp [htype] at h⟩
  · rename_i htype _
    exact ⟨hp, Or.inr fun h ↦ htype h.2.symm⟩

theorem mem_eraseRefused_preferences {p : UserPreferences}
    (hp : p ∈ (db.eraseRefused userId change).preferences) :
    p ∈ db.preferences ∧ Spared userId change p.userId .sensitiveDataConsent := by
  unfold ProfileDb.eraseRefused at hp
  split at hp
  · rename_i hgranted
    exact ⟨hp, Or.inl hgranted⟩
  split at hp
  · obtain ⟨hold, hkept⟩ := Table.mem_delete.mp hp
    exact ⟨hold, Or.inr fun h ↦ of_decide_eq_false hkept h.1⟩
  · rename_i htype
    exact ⟨hp, Or.inr fun h ↦ by simp [htype] at h⟩
  · rename_i htype _
    exact ⟨hp, Or.inr fun h ↦ htype h.2.symm⟩

theorem mem_eraseRefused_presences {p : PresenceRow}
    (hp : p ∈ (db.eraseRefused userId change).presences) :
    p ∈ db.presences ∧ Spared userId change p.userId .locationConsent := by
  unfold ProfileDb.eraseRefused at hp
  split at hp
  · rename_i hgranted
    exact ⟨hp, Or.inl hgranted⟩
  split at hp
  · rename_i htype
    exact ⟨hp, Or.inr fun h ↦ by simp [htype] at h⟩
  · obtain ⟨hold, hkept⟩ := Table.mem_delete.mp hp
    exact ⟨hold, Or.inr fun h ↦ of_decide_eq_false hkept h.1⟩
  · rename_i _ htype
    exact ⟨hp, Or.inr fun h ↦ htype h.2.symm⟩

/-- A refusal takes along the data that needed the consent. -/
theorem Writes.dataConsented {db₁ : ProfileDb} (h : Writes db userId change t db₁)
    (hdata : DataConsented db) : DataConsented (db₁.eraseRefused userId change) := by
  have hconsents := (eraseRefused_consents db₁ userId change).1
  have hkeeps {user : Uuid} {type : ConsentType} (hactive : db.HasActive user type)
      (hspared : Spared userId change user type) :
      (db₁.eraseRefused userId change).HasActive user type :=
    hasActive_of_consents hconsents (h.hasActive hactive hspared)
  refine ⟨?_, ?_, ?_⟩
  · intro p hp hsex
    obtain ⟨hold, hspared⟩ := mem_eraseRefused_profiles hp hsex
    rw [h.profiles] at hold
    exact hkeeps (hdata.sex p hold hsex) hspared
  · intro p hp
    obtain ⟨hold, hspared⟩ := mem_eraseRefused_preferences hp
    rw [h.preferences] at hold
    exact hkeeps (hdata.preferences p hold) hspared
  · intro p hp
    obtain ⟨hold, hspared⟩ := mem_eraseRefused_presences hp
    rw [h.presences] at hold
    exact hkeeps (hdata.presence p hold) hspared

/-- The consents and the data that rests on them, at an instant. -/
structure ConsentInvariant (db : ProfileDb) (clock : ℤ) : Prop where
  history : ConsentHistory db clock
  data : DataConsented db

theorem ConsentInvariant.mono {clock' : ℤ} (h : ConsentInvariant db clock) (hle : clock ≤ clock') :
    ConsentInvariant db clock' := ⟨h.history.mono hle, h.data⟩

theorem ConsentInvariant.recordChange (h : ConsentInvariant db clock) (h₁ : clock < t.withdrawn)
    (h₂ : t.withdrawn < t.refused) (hrecord : db.recordChange userId change t = some db') :
    ConsentInvariant db' t.refused := by
  rcases recordChange_cases hrecord with rfl | ⟨db₁, hwrites, rfl⟩
  · exact h.mono (h₁.trans h₂).le
  · obtain ⟨hconsents, hnext⟩ := eraseRefused_consents db₁ userId change
    exact ⟨(hwrites.history h.history h₁ h₂).of_eq hconsents hnext, hwrites.dataConsented h.data⟩

theorem ConsentInvariant.recordChanges {changes : List (VersionedConsentChange × ChangeClock)}
    (h : ConsentInvariant db clock) (hstrict : (clock :: readings changes).Pairwise (· < ·))
    (hrecord : ProfileDb.recordChanges userId changes db = some db') :
    ConsentInvariant db' (((readings changes).getLast?).getD clock) := by
  induction changes generalizing db clock with
  | nil =>
      obtain rfl := Option.some.inj hrecord
      exact h
  | cons head rest ih =>
      obtain ⟨change, t⟩ := head
      obtain ⟨db₁, hchange, hrest⟩ := Option.bind_eq_some_iff.mp hrecord
      simp only [readings, List.pairwise_cons] at hstrict
      obtain ⟨hclock, hwithdrawn, hgranted, hrefused, hpairs⟩ := hstrict
      have h₁ : clock < t.withdrawn := hclock _ (by simp)
      have h₂ : t.withdrawn < t.refused := hwithdrawn _ (by simp)
      have hnext := ih (h.recordChange h₁ h₂ hchange) (List.pairwise_cons.mpr ⟨hrefused, hpairs⟩)
        hrest
      have hlast : ((readings ((change, t) :: rest)).getLast?).getD clock =
          ((readings rest).getLast?).getD t.refused := by
        cases hreadings : readings rest with
        | nil => simp [readings, hreadings]
        | cons s ss => simp [readings, hreadings, List.getLast?_cons]
      rw [hlast]
      exact hnext

end Changes

section Runs

variable {db db' : ProfileDb} {clock : ℤ} {w : ProfileWorld} {a : ProfileAction}

/-- The lock of a sensitive write finds the consent it needs. -/
theorem hasActive_of_lock {userId : Uuid} {sensitive : Option ConsentType} {legal : LegalConfig}
    {type : ConsentType} (h : db.lockLegalChoices userId sensitive legal = .updated)
    (hsensitive : sensitive = some type) : db.HasActive userId type := by
  unfold ProfileDb.lockLegalChoices at h
  split at h
  · cases h
  split at h
  · rename_i hall
    have hmem : type ∈ onboarding ++ sensitive.toList := by simp [hsensitive]
    have hany := List.all_eq_true.mp hall type hmem
    obtain ⟨e, he, hcond⟩ := List.any_eq_true.mp hany
    simp only [Bool.and_eq_true] at hcond
    exact ⟨e, he, hcond.1.1, hcond.1.2⟩
  · cases h

/-- A write of data that keeps the consents. -/
theorem ConsentInvariant.of_data (h : ConsentInvariant db clock)
    (hconsents : db'.consents = db.consents) (hnext : db'.nextSequence = db.nextSequence)
    (hsex : ∀ p ∈ db'.profiles, p.sex ≠ none →
      p ∈ db.profiles ∨ db.HasActive p.userId .sensitiveDataConsent)
    (hpreferences : ∀ p ∈ db'.preferences,
      p ∈ db.preferences ∨ db.HasActive p.userId .sensitiveDataConsent)
    (hpresence : ∀ p ∈ db'.presences, (∃ q ∈ db.presences, q.userId = p.userId) ∨
      db.HasActive p.userId .locationConsent) :
    ConsentInvariant db' clock := by
  refine ⟨h.history.of_eq hconsents hnext, ?_, ?_, ?_⟩
  · intro p hp hset
    rcases hsex p hp hset with hold | hactive
    · exact hasActive_of_consents hconsents (h.data.sex p hold hset)
    · exact hasActive_of_consents hconsents hactive
  · intro p hp
    rcases hpreferences p hp with hold | hactive
    · exact hasActive_of_consents hconsents (h.data.preferences p hold)
    · exact hasActive_of_consents hconsents hactive
  · intro p hp
    rcases hpresence p hp with ⟨q, hq, huser⟩ | hactive
    · rw [← huser]
      exact hasActive_of_consents hconsents (h.data.presence q hq)
    · exact hasActive_of_consents hconsents hactive

/-- The rows after an upsert: the written one, and the old ones of other keys. -/
theorem mem_upsert {ρ : Type} {key : ρ → Uuid} {t : Table key} {row r : ρ} {f : ρ → ρ}
    {hf : ∀ r, key (f r) = key r} (h : r ∈ t.upsert row f hf) :
    r = row ∨ r ∈ t ∨ ∃ old ∈ t, key old = key row ∧ r = f old := by
  unfold Table.upsert at h
  cases hinsert : t.insert? row with
  | some t' =>
      rw [hinsert] at h
      rcases (Table.mem_insert hinsert).mp h with hnew | hold
      · exact Or.inl hnew
      · exact Or.inr (Or.inl hold)
  | none =>
      rw [hinsert] at h
      obtain ⟨old, hold, hr⟩ := (Table.mem_modify hf).mp h
      by_cases hkey : key old = key row
      · rw [if_pos (decide_eq_true hkey)] at hr
        exact Or.inr (Or.inr ⟨old, hold, hkey, hr⟩)
      · rw [if_neg (by simpa using hkey)] at hr
        exact Or.inr (Or.inl (hr ▸ hold))

theorem ConsentInvariant.upsertProfile (h : ConsentInvariant db clock) {userId : Uuid}
    {input : ProfileInput} {legal : LegalConfig} {today : CivilDate} {outcome : WriteOutcome}
    (hupsert : db.upsertProfile userId input legal today = .ok (outcome, db')) :
    ConsentInvariant db' clock := by
  simp only [ProfileDb.upsertProfile] at hupsert
  split at hupsert
  · rename_i hlock
    cases hage : checkUserAge today input.birthdate with
    | error message =>
        rw [hage] at hupsert
        cases hupsert
    | ok _ =>
        rw [hage] at hupsert
        obtain ⟨-, rfl⟩ := Prod.mk.inj (Except.ok.inj hupsert)
        refine h.of_data rfl rfl ?_ (fun p hp ↦ Or.inl hp) (fun p hp ↦ Or.inl ⟨p, hp, rfl⟩)
        intro p hp hset
        have hactive (hsex : input.sex ≠ none) : db.HasActive userId .sensitiveDataConsent := by
          obtain ⟨sex, hsex⟩ := Option.ne_none_iff_exists'.mp hsex
          exact hasActive_of_lock hlock (by rw [hsex]; rfl)
        rcases mem_upsert hp with rfl | hold | ⟨old, hold, hkey, rfl⟩
        · exact Or.inr (hactive hset)
        · exact Or.inl hold
        · rw [hkey]
          exact Or.inr (hactive hset)
  · obtain ⟨-, rfl⟩ := Prod.mk.inj (Except.ok.inj hupsert)
    exact h

theorem ConsentInvariant.upsertPreferences (h : ConsentInvariant db clock) (input : UserPreferences)
    (legal : LegalConfig) : ConsentInvariant (db.upsertPreferences input legal).2 clock := by
  unfold ProfileDb.upsertPreferences
  split
  · rename_i hlock
    refine h.of_data rfl rfl (fun p hp _ ↦ Or.inl hp) ?_ (fun p hp ↦ Or.inl ⟨p, hp, rfl⟩)
    intro p hp
    have hactive := hasActive_of_lock hlock rfl
    rcases mem_upsert hp with rfl | hold | ⟨old, hold, hkey, rfl⟩
    · exact Or.inr hactive
    · exact Or.inl hold
    · rw [hkey]
      exact Or.inr hactive
  · exact h

theorem ConsentInvariant.upsertPresence (h : ConsentInvariant db clock) (userId : Uuid)
    (input : PresenceInput) (legal : LegalConfig) :
    ConsentInvariant (db.upsertPresence userId input legal).2 clock := by
  unfold ProfileDb.upsertPresence
  split
  · rename_i hlock
    split
    · refine h.of_data rfl rfl (fun p hp _ ↦ Or.inl hp) (fun p hp ↦ Or.inl hp) ?_
      intro p hp
      have hactive := hasActive_of_lock hlock rfl
      rcases mem_upsert hp with rfl | hold | ⟨old, hold, hkey, rfl⟩
      · exact Or.inr hactive
      · exact Or.inl ⟨p, hold, rfl⟩
      · exact Or.inl ⟨old, hold, rfl⟩
    · exact h
  · exact h

theorem ConsentInvariant.next (h : ConsentInvariant w.db w.clock)
    (henabled : profiles.Enabled w a) (hstrict : a.Strict w) :
    ConsentInvariant (profiles.next w a).db (profiles.next w a).clock := by
  have hlater : ∀ now ∈ a.times, w.clock ≤ now := by
    intro now hnow
    exact (List.pairwise_cons.mp henabled.1).1 now hnow
  cases a with
  | upsertProfile userId input legal today now =>
      refine ConsentInvariant.mono ?_ (hlater now (by simp [ProfileAction.times]))
      simp only [profiles, ProfileWorld.next, ProfileAction.apply]
      split
      · exact h
      · rename_i outcome db' hupsert
        exact h.upsertProfile hupsert
  | upsertPreferences input legal now =>
      exact (h.upsertPreferences input legal).mono (hlater now (by simp [ProfileAction.times]))
  | upsertPresence userId input legal =>
      exact (h.upsertPresence userId input legal).mono
        (hlater input.updatedAt (by simp [ProfileAction.times]))
  | recordConsents userId changes now =>
      obtain ⟨hfirst, hrest⟩ := List.pairwise_cons.mp hstrict
      have hclock : w.clock ≤ now := hlater now (by simp [ProfileAction.times])
      have hlast : ((now :: readings changes).getLast?).getD w.clock =
          ((readings changes).getLast?).getD now := by
        rw [List.getLast?_cons, Option.getD_some]
      have hend : now ≤ ((readings changes).getLast?).getD now := by
        cases hreadings : (readings changes).getLast? with
        | none => exact le_rfl
        | some s =>
            have hmem := List.mem_of_getLast? hreadings
            exact ((List.pairwise_cons.mp hrest).1 s hmem).le
      simp only [profiles, ProfileWorld.next, ProfileAction.apply, ProfileAction.times, hlast]
      split
      · exact h.mono (hclock.trans hend)
      · rename_i answer db' hrecord
        unfold ProfileDb.recordConsents at hrecord
        split at hrecord
        · obtain ⟨db₁, hchanges, heq⟩ := Option.map_eq_some_iff.mp hrecord
          obtain ⟨-, rfl⟩ := Prod.mk.inj heq
          exact (h.mono hclock).recordChanges hrest hchanges
        · obtain ⟨-, rfl⟩ := Prod.mk.inj (Option.some.inj hrecord)
          exact h.mono (hclock.trans hend)
  | markStale chosen now =>
      refine ConsentInvariant.mono ?_ (hlater now (by simp [ProfileAction.times]))
      refine h.of_data rfl rfl (fun p hp _ ↦ Or.inl hp) (fun p hp ↦ Or.inl hp) ?_
      intro p hp
      obtain ⟨old, hold, rfl⟩ := (Table.mem_modify
        (f := fun p : PresenceRow ↦ { p with isLocationFresh := false }) fun _ ↦ rfl).mp hp
      refine Or.inl ⟨old, hold, ?_⟩
      split <;> rfl
  | selectPresences chosen now => exact h.mono (hlater now (by simp [ProfileAction.times]))
  | deletePresences now =>
      refine ConsentInvariant.mono ?_ (hlater now (by simp [ProfileAction.times]))
      refine h.of_data rfl rfl (fun p hp _ ↦ Or.inl hp) (fun p hp ↦ Or.inl hp) ?_
      intro p hp
      exact Or.inl ⟨p, (Table.mem_delete.mp hp).1, rfl⟩
  | purgeConsents cutoff limit chosen now =>
      refine ConsentInvariant.mono ?_ (hlater now (by simp [ProfileAction.times]))
      have hbatch : IsBatch w.db cutoff limit chosen := henabled.2
      exact ⟨h.history.purged hbatch, fun p hp hset ↦ (h.data.sex p hp hset).purged hbatch,
        fun p hp ↦ (h.data.preferences p hp).purged hbatch,
        fun p hp ↦ (h.data.presence p hp).purged hbatch⟩

theorem ProfileInitial.consentInvariant (h : ProfileInitial w) :
    ConsentInvariant w.db w.clock := by
  have hconsents : ∀ e, e ∉ w.db.consents := by
    rw [h.consents]
    exact Table.notMem_empty
  refine ⟨⟨fun e he ↦ absurd he (hconsents e), fun e he ↦ absurd he (hconsents e),
    fun e he ↦ absurd he (hconsents e), fun e he ↦ absurd he (hconsents e)⟩, ?_, ?_, ?_⟩
  · rw [h.profiles]
    exact fun p hp ↦ absurd hp (Table.notMem_empty p)
  · rw [h.preferences]
    exact fun p hp ↦ absurd hp (Table.notMem_empty p)
  · rw [h.presences]
    exact fun p hp ↦ absurd hp (Table.notMem_empty p)

/-- A listed consent is the latest event of its type. -/
theorem mem_currentConsents_iff {userId : Uuid} {type : ConsentType} :
    (∃ r ∈ db.currentConsents userId, r.consentType = type ∧ r.granted = true) ↔
      (db.latestEvent userId type).any ConsentEvent.granted = true := by
  unfold ProfileDb.currentConsents
  constructor
  · rintro ⟨r, hr, rfl, hgranted⟩
    obtain ⟨type, -, hmap⟩ := List.mem_filterMap.mp hr
    obtain ⟨e, he, rfl⟩ := Option.map_eq_some_iff.mp hmap
    obtain ⟨-, hconcerns, -⟩ := latestEvent_eq_some he
    rw [(concerns_iff.mp hconcerns).2, he]
    exact hgranted
  · intro hany
    obtain ⟨e, he, hgranted⟩ := (Option.any_eq_true _ _).mp hany
    obtain ⟨-, hconcerns, -⟩ := latestEvent_eq_some he
    refine ⟨_, List.mem_filterMap.mpr ⟨type, ?_, by rw [he]; rfl⟩,
      (concerns_iff.mp hconcerns).2, hgranted⟩
    cases type <;> simp

/-- Sensitive data exists only under a live consent, and the consents that are
shown are the live ones. -/
theorem sensitive_data_under_live_consent (w₀ : ProfileWorld) (as : List ProfileAction)
    (h₀ : ProfileInitial w₀) (hvalid : profiles.Valid w₀ as)
    (hstrict : profiles.Along (fun w a ↦ a.Strict w) w₀ as) :
    (∀ p ∈ (profiles.exec w₀ as).db.profiles, p.sex ≠ none →
      (profiles.exec w₀ as).db.HasActive p.userId .sensitiveDataConsent) ∧
    (∀ p ∈ (profiles.exec w₀ as).db.preferences,
      (profiles.exec w₀ as).db.HasActive p.userId .sensitiveDataConsent) ∧
    (∀ p ∈ (profiles.exec w₀ as).db.presences,
      (profiles.exec w₀ as).db.HasActive p.userId .locationConsent) ∧
    (∀ e ∈ (profiles.exec w₀ as).db.consents, ∀ e' ∈ (profiles.exec w₀ as).db.consents,
      e.isActive = true → e'.isActive = true → e.userId = e'.userId →
      e.consentType = e'.consentType → e = e') ∧
    ∀ userId type, (∃ r ∈ (profiles.exec w₀ as).db.currentConsents userId,
        r.consentType = type ∧ r.granted = true) ↔
      (profiles.exec w₀ as).db.HasActive userId type := by
  have h : ConsentInvariant (profiles.exec w₀ as).db (profiles.exec w₀ as).clock :=
    hvalid.invariant_along (I := fun w ↦ ConsentInvariant w.db w.clock) hstrict
      h₀.consentInvariant fun w a hinv henabled hstep ↦ hinv.next henabled hstep
  refine ⟨h.data.sex, h.data.preferences, h.data.presence, ?_, ?_⟩
  · intro e he e' he' hactive hactive' huser htype
    exact h.history.single he he' hactive hactive' huser htype
  · intro userId type
    rw [mem_currentConsents_iff]
    exact h.history.latest_granted_iff

end Runs

def newcomer : ProfileWorld where
  db :=
    { accounts := ⟨[⟨1, none⟩], by decide⟩
      profiles := ∅
      preferences := ∅
      presences := ∅
      consents := ∅
      nextSequence := 1 }
  clock := 0
  selected := []
  changes := []

def grant (type : ConsentType) : VersionedConsentChange := ⟨type, true, "1", .fr⟩

/-- Consents, preferences and a position. -/
def joining : List ProfileAction :=
  [.recordConsents 1 [(grant .termsOfServiceAcceptance, ⟨2, 3, 4⟩),
      (grant .privacyNoticeAcknowledgement, ⟨5, 6, 7⟩), (grant .sensitiveDataConsent, ⟨8, 9, 10⟩),
      (grant .locationConsent, ⟨11, 12, 13⟩)] 1,
    .upsertPreferences ⟨1, 25, 34, 12, .both, by decide, by decide⟩ ⟨"1", "1", "1", "1"⟩ 14,
    .upsertPresence 1 ⟨48850000, 2350000, 15⟩ ⟨"1", "1", "1", "1"⟩]

theorem profileInitial_newcomer : ProfileInitial newcomer := ⟨rfl, rfl, rfl, rfl, rfl⟩

theorem valid_joining : profiles.Valid newcomer joining := by
  refine ⟨⟨by decide, trivial⟩, ⟨?_, trivial⟩, ⟨?_, trivial⟩, trivial⟩ <;> decide +kernel

theorem sensitive_data_under_live_consent_joining :
    (profiles.exec newcomer joining).db.preferences.rows.length = 1 ∧
      ∀ p ∈ (profiles.exec newcomer joining).db.preferences,
        (profiles.exec newcomer joining).db.HasActive p.userId .sensitiveDataConsent := by
  have hstrict : profiles.Along (fun w a ↦ a.Strict w) newcomer joining := by
    unfold ProfileAction.Strict
    refine ⟨by decide, ?_, ?_, trivial⟩ <;> decide +kernel
  have h := sensitive_data_under_live_consent newcomer joining profileInitial_newcomer
    valid_joining hstrict
  exact ⟨by decide +kernel, h.2.1⟩

end Histae.Profiles
