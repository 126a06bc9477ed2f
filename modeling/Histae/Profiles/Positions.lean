import Histae.Profiles.SensitiveData

/-!
# How fast a stored position moves

A position keeps the instant at which its cell last changed, and moves to
another cell five minutes later at the earliest. The instant goes with the row:
a refusal of the location consent deletes the row, and a new consent starts
without a delay; so does a retention pass that deletes a row written after the
pass selected it.
-/

namespace Histae.Profiles

open Relational Systems Text Discovery

/-- What is known of the cells stored so far. -/
structure PositionInvariant (w : ProfileWorld) : Prop where
  located : ∀ u p, w.db.presences.find? u = some p → p.latitude ≠ none ∧ p.longitude ≠ none
  moved : ∀ u p, w.db.presences.find? u = some p → ∀ c ∈ w.changes, c.userId = u →
    c.at_ ≤ p.locationChangedAt
  gone : ∀ u, w.db.presences.find? u = none → ∀ c ∈ w.changes, c.userId = u →
    c.at_ + seconds locationChangeIntervalSeconds ≤ w.clock
  spaced : w.changes.Pairwise fun later earlier ↦ later.userId = earlier.userId →
    earlier.at_ + seconds locationChangeIntervalSeconds ≤ later.at_

/-- The row is deleted no earlier than the delay after the last change of its
cell. -/
def PresenceRow.Settled (now : ℤ) (p : PresenceRow) : Prop :=
  p.locationChangedAt + seconds locationChangeIntervalSeconds ≤ now

def refusesLocation (changes : List (VersionedConsentChange × ChangeClock)) : Bool :=
  changes.any fun change ↦ !change.1.granted && change.1.consentType = .locationConsent

/-- No refusal and no pass deletes a position during the delay. -/
def DeletesSettled (w : ProfileWorld) : ProfileAction → Prop
  | .recordConsents userId changes now => refusesLocation changes = true →
      ∀ p, w.db.presences.find? userId = some p → p.Settled now
  | .deletePresences now => ∀ p ∈ w.db.presences, p.userId ∈ w.selected → p.Settled now
  | _ => True

section Steps

variable {db db' : ProfileDb} {w : ProfileWorld} {a : ProfileAction} {userId : Uuid}

theorem recordChange_presences {change : VersionedConsentChange} {t : ChangeClock}
    (h : db.recordChange userId change t = some db') (u : Uuid) :
    db'.presences.find? u = db.presences.find? u ∨
      u = userId ∧ db'.presences.find? u = none ∧ change.granted = false ∧
        change.consentType = .locationConsent := by
  rcases recordChange_cases h with rfl | ⟨db₁, hwrites, rfl⟩
  · exact Or.inl rfl
  rw [← hwrites.presences]
  unfold ProfileDb.eraseRefused
  split
  · exact Or.inl rfl
  rename_i hrefused
  split
  · exact Or.inl rfl
  · rename_i htype
    by_cases hu : u = userId
    · refine Or.inr ⟨hu, ?_, Bool.eq_false_of_not_eq_true hrefused, htype⟩
      rw [Table.find?_delete, hu]
      cases hfind : db₁.presences.find? userId with
      | none => rfl
      | some p => simp [Option.filter, (Table.find?_eq_some_iff.mp hfind).2]
    · refine Or.inl ?_
      rw [Table.find?_delete]
      cases hfind : db₁.presences.find? u with
      | none => rfl
      | some p =>
          have hne : p.userId ≠ userId := fun h ↦
            hu ((Table.find?_eq_some_iff.mp hfind).2.symm.trans h)
          simp [Option.filter, hne]
  · exact Or.inl rfl

theorem recordChanges_presences {changes : List (VersionedConsentChange × ChangeClock)}
    (h : ProfileDb.recordChanges userId changes db = some db') (u : Uuid) :
    db'.presences.find? u = db.presences.find? u ∨
      u = userId ∧ db'.presences.find? u = none ∧ refusesLocation changes = true := by
  induction changes generalizing db with
  | nil =>
      obtain rfl := Option.some.inj h
      exact Or.inl rfl
  | cons head rest ih =>
      obtain ⟨change, t⟩ := head
      obtain ⟨db₁, hchange, hrest⟩ := Option.bind_eq_some_iff.mp h
      rcases ih hrest with hsame | ⟨hu, hnone, hrefuses⟩
      · rw [hsame]
        rcases recordChange_presences hchange u with hsame | ⟨hu, hnone, hrefused, htype⟩
        · exact Or.inl hsame
        · exact Or.inr ⟨hu, hnone, by simp [refusesLocation, hrefused, htype]⟩
      · refine Or.inr ⟨hu, hnone, ?_⟩
        unfold refusesLocation at hrefuses ⊢
        rw [List.any_cons, hrefuses, Bool.or_true]

/-- A write of a position: to a new row, or to one that admits it. -/
theorem upsertPresence_cases (db : ProfileDb) (userId : Uuid) (input : PresenceInput)
    (legal : LegalConfig) :
    ((db.upsertPresence userId input legal).1 ≠ .updated ∧
        (db.upsertPresence userId input legal).2 = db) ∨
      ((db.upsertPresence userId input legal).1 = .updated ∧
        (db.presences.find? userId).all (PresenceRow.admits input) = true ∧
        ∀ u, (db.upsertPresence userId input legal).2.presences.find? u =
          if u = userId then some (((db.presences.find? u).map (PresenceRow.move input)).getD
            (PresenceRow.place userId input))
          else db.presences.find? u) := by
  unfold ProfileDb.upsertPresence
  cases hlock : db.lockLegalChoices userId (some .locationConsent) legal with
  | updated =>
      simp only
      split
      · rename_i hadmits
        exact Or.inr ⟨rfl, hadmits, fun u ↦ Table.find?_upsert (PresenceRow.userId_move input)⟩
      · exact Or.inl ⟨by simp, rfl⟩
  | accountNotFound => exact Or.inl ⟨by simp, rfl⟩
  | requiredConsentMissing => exact Or.inl ⟨by simp, rfl⟩
  | presenceUpdateLimited => exact Or.inl ⟨by simp, rfl⟩

/-- The invariant only grows weaker with time. -/
theorem PositionInvariant.of_presences (h : PositionInvariant w) {w' : ProfileWorld}
    (hclock : w.clock ≤ w'.clock) (hchanges : w'.changes = w.changes)
    (hpresences : ∀ u, (∃ p p', w.db.presences.find? u = some p ∧
        w'.db.presences.find? u = some p' ∧ p'.latitude = p.latitude ∧
        p'.longitude = p.longitude ∧ p'.locationChangedAt = p.locationChangedAt) ∨
      w'.db.presences.find? u = none ∧
        ∀ p, w.db.presences.find? u = some p → p.Settled w'.clock) :
    PositionInvariant w' := by
  refine ⟨?_, ?_, ?_, ?_⟩
  · intro u p' hp'
    rcases hpresences u with ⟨p, q, hp, hq, hlat, hlong, -⟩ | ⟨hnone, -⟩
    · obtain rfl := Option.some.inj (hq.symm.trans hp')
      rw [hlat, hlong]
      exact h.located u p hp
    · rw [hnone] at hp'
      cases hp'
  · intro u p' hp' c hc hu
    rw [hchanges] at hc
    rcases hpresences u with ⟨p, q, hp, hq, -, -, hchanged⟩ | ⟨hnone, -⟩
    · obtain rfl := Option.some.inj (hq.symm.trans hp')
      rw [hchanged]
      exact h.moved u p hp c hc hu
    · rw [hnone] at hp'
      cases hp'
  · intro u hnone c hc hu
    rw [hchanges] at hc
    rcases hpresences u with ⟨p, q, hp, hq, -⟩ | ⟨-, hsettled⟩
    · rw [hq] at hnone
      cases hnone
    · cases hfind : w.db.presences.find? u with
      | none => exact (h.gone u hfind c hc hu).trans hclock
      | some p =>
          have hle := h.moved u p hfind c hc hu
          have hdone := hsettled p hfind
          unfold PresenceRow.Settled at hdone
          omega
  · rw [hchanges]
    exact h.spaced

theorem PositionInvariant.of_same (h : PositionInvariant w) {w' : ProfileWorld}
    (hclock : w.clock ≤ w'.clock) (hchanges : w'.changes = w.changes)
    (hpresences : w'.db.presences = w.db.presences) : PositionInvariant w' := by
  refine ⟨?_, ?_, ?_, ?_⟩
  · rw [hpresences]
    exact h.located
  · rw [hpresences, hchanges]
    exact h.moved
  · rw [hpresences, hchanges]
    exact fun u hnone c hc hu ↦ (h.gone u hnone c hc hu).trans hclock
  · rw [hchanges]
    exact h.spaced

/-- A cell is stored anew only after the delay. -/
theorem PositionInvariant.delayed (h : PositionInvariant w) {input : PresenceInput}
    (hclock : w.clock ≤ input.updatedAt)
    (hadmits : (w.db.presences.find? userId).all (PresenceRow.admits input) = true)
    (haway : (w.db.presences.find? userId).any (PresenceRow.isAt input) = false) :
    ∀ c ∈ w.changes, c.userId = userId →
      c.at_ + seconds locationChangeIntervalSeconds ≤ input.updatedAt := by
  intro c hc hu
  cases hfind : w.db.presences.find? userId with
  | none => exact (h.gone userId hfind c hc hu).trans hclock
  | some p =>
      rw [hfind] at hadmits haway
      obtain ⟨hlat, hlong⟩ := h.located userId p hfind
      have hmoved := h.moved userId p hfind c hc hu
      have haway : p.isAt input = false := haway
      have hadmits : p.admits input = true := hadmits
      simp only [PresenceRow.admits, haway, Bool.false_or, Bool.or_eq_true,
        Option.isNone_iff_eq_none, decide_eq_true_eq] at hadmits
      rcases hadmits with (hnone | hnone) | hdelay
      · exact absurd hnone hlat
      · exact absurd hnone hlong
      · omega

theorem PositionInvariant.upsertPresence (h : PositionInvariant w) {input : PresenceInput}
    {legal : LegalConfig} (hclock : w.clock ≤ input.updatedAt) :
    PositionInvariant (w.next (.upsertPresence userId input legal)) := by
  rcases upsertPresence_cases w.db userId input legal with ⟨hfails, hsame⟩ | ⟨hok, hadmits, hfind⟩
  · have hstores : (ProfileAction.upsertPresence userId input legal).stores w = none :=
      if_neg fun hcond ↦ hfails hcond.1
    refine h.of_same hclock ?_ ?_
    · simp only [ProfileWorld.next, hstores]
      rfl
    · simp only [ProfileWorld.next, ProfileAction.apply, hsame]
  cases haway : (w.db.presences.find? userId).any (PresenceRow.isAt input) with
  | true =>
      have hstores : (ProfileAction.upsertPresence userId input legal).stores w = none := by
        refine if_neg fun hcond ↦ ?_
        rw [haway] at hcond
        cases hcond.2
      obtain ⟨p, hp, hat⟩ := (Option.any_eq_true _ _).mp haway
      refine h.of_presences hclock ?_ fun u ↦ ?_
      · simp only [ProfileWorld.next, hstores]
        rfl
      have hrow := hfind u
      by_cases hu : u = userId
      · subst hu
        rw [if_pos rfl, hp] at hrow
        have hcell : p.latitude = some input.latitude ∧ p.longitude = some input.longitude := by
          simpa [PresenceRow.isAt] using hat
        refine Or.inl ⟨p, p.move input, hp, hrow, hcell.1.symm, hcell.2.symm, ?_⟩
        simp only [PresenceRow.move, hat, if_true]
      · rw [if_neg hu] at hrow
        cases hold : w.db.presences.find? u with
        | none => exact Or.inr ⟨hrow.trans hold, fun p hp ↦ absurd hp.symm (Option.some_ne_none p)⟩
        | some q => exact Or.inl ⟨q, q, rfl, hrow.trans hold, rfl, rfl, rfl⟩
  | false =>
      have hstores : (ProfileAction.upsertPresence userId input legal).stores w =
          some ⟨userId, input.latitude, input.longitude, input.updatedAt⟩ := if_pos ⟨hok, haway⟩
      have hdelayed := h.delayed hclock hadmits haway
      have hchanges : (w.next (.upsertPresence userId input legal)).changes =
          ⟨userId, input.latitude, input.longitude, input.updatedAt⟩ :: w.changes := by
        simp only [ProfileWorld.next, hstores]
        rfl
      have hnew : ∃ p, (w.next (.upsertPresence userId input legal)).db.presences.find? userId =
          some p ∧ p.latitude ≠ none ∧ p.longitude ≠ none ∧
            p.locationChangedAt = input.updatedAt := by
        have hrow := hfind userId
        rw [if_pos rfl] at hrow
        cases hold : w.db.presences.find? userId with
        | none =>
            rw [hold] at hrow
            exact ⟨_, hrow, by simp [PresenceRow.place], by simp [PresenceRow.place], rfl⟩
        | some p =>
            rw [hold] at hrow haway
            have haway : p.isAt input = false := haway
            refine ⟨_, hrow, by simp [PresenceRow.move], by simp [PresenceRow.move], ?_⟩
            simp [PresenceRow.move, haway]
      obtain ⟨p, hp, hlat, hlong, hchangedAt⟩ := hnew
      have hother (u : Uuid) (hu : u ≠ userId) :
          (w.next (.upsertPresence userId input legal)).db.presences.find? u =
            w.db.presences.find? u := (hfind u).trans (if_neg hu)
      refine ⟨?_, ?_, ?_, ?_⟩
      · intro u q hq
        by_cases hu : u = userId
        · subst hu
          obtain rfl := Option.some.inj (hp.symm.trans hq)
          exact ⟨hlat, hlong⟩
        · exact h.located u q ((hother u hu).symm.trans hq)
      · intro u q hq c hc hcu
        rw [hchanges] at hc
        by_cases hu : u = userId
        · subst hu
          obtain rfl := Option.some.inj (hp.symm.trans hq)
          rw [hchangedAt]
          rcases List.mem_cons.mp hc with rfl | hc
          · exact le_rfl
          · have hle := hdelayed c hc hcu
            unfold seconds locationChangeIntervalSeconds at hle
            omega
        · rcases List.mem_cons.mp hc with rfl | hc
          · exact absurd hcu.symm hu
          · exact h.moved u q ((hother u hu).symm.trans hq) c hc hcu
      · intro u hnone c hc hcu
        rw [hchanges] at hc
        have hu : u ≠ userId := by
          rintro rfl
          rw [hp] at hnone
          cases hnone
        rcases List.mem_cons.mp hc with rfl | hc
        · exact absurd hcu.symm hu
        · exact (h.gone u ((hother u hu).symm.trans hnone) c hc hcu).trans hclock
      · rw [hchanges, List.pairwise_cons]
        exact ⟨fun c hc hcu ↦ hdelayed c hc hcu.symm, h.spaced⟩

end Steps

section Runs

variable {w : ProfileWorld} {a : ProfileAction}

theorem upsertProfile_presences {db db' : ProfileDb} {userId : Uuid} {input : ProfileInput}
    {legal : LegalConfig} {today : CivilDate} {outcome : WriteOutcome}
    (h : db.upsertProfile userId input legal today = .ok (outcome, db')) :
    db'.presences = db.presences := by
  simp only [ProfileDb.upsertProfile] at h
  split at h
  · cases hage : checkUserAge today input.birthdate with
    | error message =>
        rw [hage] at h
        cases h
    | ok _ =>
        rw [hage] at h
        obtain ⟨-, rfl⟩ := Prod.mk.inj (Except.ok.inj h)
        rfl
  · obtain ⟨-, rfl⟩ := Prod.mk.inj (Except.ok.inj h)
    rfl

theorem le_getLast {x y : ℤ} {l : List ℤ} (h : (x :: l).Pairwise (· ≤ ·)) :
    x ≤ ((x :: l).getLast?).getD y := by
  rw [List.getLast?_cons, Option.getD_some]
  cases hlast : l.getLast? with
  | none => exact le_rfl
  | some z => exact (List.pairwise_cons.mp h).1 z (List.mem_of_getLast? hlast)

/-- Every action but a write of a position stores no new cell. -/
theorem PositionInvariant.next (h : PositionInvariant w) (henabled : profiles.Enabled w a)
    (hsettled : DeletesSettled w a) : PositionInvariant (profiles.next w a) := by
  have hlater : ∀ now ∈ a.times, w.clock ≤ now := by
    intro now hnow
    exact (List.pairwise_cons.mp henabled.1).1 now hnow
  have hkept {u : Uuid} {db : ProfileDb} (hsame : db.presences.find? u = w.db.presences.find? u)
      (now : ℤ) : (∃ p p', w.db.presences.find? u = some p ∧
        db.presences.find? u = some p' ∧ p'.latitude = p.latitude ∧
        p'.longitude = p.longitude ∧ p'.locationChangedAt = p.locationChangedAt) ∨
      db.presences.find? u = none ∧ ∀ p, w.db.presences.find? u = some p → p.Settled now := by
    cases hfind : w.db.presences.find? u with
    | none => exact Or.inr ⟨hsame.trans hfind, fun p hp ↦ nomatch hp⟩
    | some p => exact Or.inl ⟨p, p, rfl, hsame.trans hfind, rfl, rfl, rfl⟩
  cases a with
  | upsertProfile userId input legal today now =>
      refine h.of_same (hlater now (by simp [ProfileAction.times])) rfl ?_
      simp only [profiles, ProfileWorld.next, ProfileAction.apply]
      split
      · rfl
      · rename_i outcome db' hupsert
        exact upsertProfile_presences hupsert
  | upsertPreferences input legal now =>
      refine h.of_same (hlater now (by simp [ProfileAction.times])) rfl ?_
      simp only [profiles, ProfileWorld.next, ProfileAction.apply, ProfileDb.upsertPreferences]
      split <;> rfl
  | upsertPresence userId input legal =>
      exact h.upsertPresence (hlater input.updatedAt (by simp [ProfileAction.times]))
  | recordConsents userId changes now =>
      have hclock : now ≤ (profiles.next w (.recordConsents userId changes now)).clock :=
        le_getLast (y := w.clock) (List.pairwise_cons.mp henabled.1).2
      refine h.of_presences ((hlater now (by simp [ProfileAction.times])).trans hclock) rfl
        fun u ↦ ?_
      simp only [profiles, ProfileWorld.next, ProfileAction.apply] at hclock ⊢
      split
      · exact hkept rfl _
      · rename_i answer db' hrecord
        unfold ProfileDb.recordConsents at hrecord
        split at hrecord
        · obtain ⟨db₁, hchanges, heq⟩ := Option.map_eq_some_iff.mp hrecord
          obtain ⟨-, rfl⟩ := Prod.mk.inj heq
          rcases recordChanges_presences hchanges u with hsame | ⟨rfl, hnone, hrefuses⟩
          · exact hkept hsame _
          · exact Or.inr ⟨hnone, fun p hp ↦ (hsettled hrefuses p hp).trans hclock⟩
        · obtain ⟨-, rfl⟩ := Prod.mk.inj (Option.some.inj hrecord)
          exact hkept rfl _
  | markStale chosen now =>
      refine h.of_presences (hlater now (by simp [ProfileAction.times])) rfl fun u ↦ ?_
      have hfind : (profiles.next w (.markStale chosen now)).db.presences.find? u =
          (w.db.presences.find? u).map fun p ↦
            if p.userId ∈ chosen then { p with isLocationFresh := false } else p := by
        refine (Table.find?_modify
          (f := fun p : PresenceRow ↦ { p with isLocationFresh := false }) fun _ ↦ rfl).trans ?_
        simp only [decide_eq_true_eq]
      cases hrow : w.db.presences.find? u with
      | none =>
          rw [hrow] at hfind
          exact Or.inr ⟨hfind, fun p hp ↦ nomatch hp⟩
      | some p =>
          rw [hrow] at hfind
          rw [Option.map_some] at hfind
          by_cases hchosen : p.userId ∈ chosen
          · rw [if_pos hchosen] at hfind
            exact Or.inl ⟨p, _, rfl, hfind, rfl, rfl, rfl⟩
          · rw [if_neg hchosen] at hfind
            exact Or.inl ⟨p, _, rfl, hfind, rfl, rfl, rfl⟩
  | selectPresences chosen now =>
      exact h.of_same (hlater now (by simp [ProfileAction.times])) rfl rfl
  | deletePresences now =>
      refine h.of_presences (hlater now (by simp [ProfileAction.times])) rfl fun u ↦ ?_
      have hfind : (profiles.next w (.deletePresences now)).db.presences.find? u =
          (w.db.presences.find? u).filter fun p ↦ !decide (p.userId ∈ w.selected) :=
        Table.find?_delete
      cases hrow : w.db.presences.find? u with
      | none =>
          rw [hrow] at hfind
          exact Or.inr ⟨hfind, fun p hp ↦ nomatch hp⟩
      | some p =>
          rw [hrow] at hfind
          by_cases hchosen : p.userId ∈ w.selected
          · refine Or.inr ⟨by simpa [Option.filter, hchosen] using hfind, fun q hq ↦ ?_⟩
            obtain rfl := Option.some.inj hq
            exact hsettled p (Table.find?_eq_some_iff.mp hrow).1 hchosen
          · exact Or.inl ⟨p, p, rfl, by simpa [Option.filter, hchosen] using hfind, rfl, rfl, rfl⟩
  | purgeConsents cutoff limit chosen now =>
      exact h.of_same (hlater now (by simp [ProfileAction.times])) rfl rfl

theorem ProfileInitial.positionInvariant (h : ProfileInitial w) : PositionInvariant w := by
  refine ⟨?_, ?_, ?_, ?_⟩
  · rw [h.presences]
    exact fun u p hp ↦ nomatch hp
  · rw [h.presences]
    exact fun u p hp ↦ nomatch hp
  · rw [h.changes]
    exact fun u _ c hc ↦ absurd hc List.not_mem_nil
  · rw [h.changes]
    exact List.Pairwise.nil

/-- A position within its cell is accepted, and the delay runs on. -/
theorem upsertPresence_at {db : ProfileDb} {userId : Uuid} {input : PresenceInput}
    {legal : LegalConfig} {p : PresenceRow}
    (hlock : db.lockLegalChoices userId (some .locationConsent) legal = .updated)
    (hp : db.presences.find? userId = some p) (hat : p.isAt input = true) :
    (db.upsertPresence userId input legal).1 = .updated ∧
      ∃ p', (db.upsertPresence userId input legal).2.presences.find? userId = some p' ∧
        p'.isAt input = true ∧ p'.updatedAt = input.updatedAt ∧
        p'.locationChangedAt = p.locationChangedAt := by
  have hadmits : (db.presences.find? userId).all (PresenceRow.admits input) = true := by
    rw [hp]
    simp [PresenceRow.admits, hat]
  have hok : (db.upsertPresence userId input legal).1 = .updated := by
    unfold ProfileDb.upsertPresence
    rw [hlock]
    simp only
    rw [if_pos hadmits]
  rcases upsertPresence_cases db userId input legal with ⟨hfails, -⟩ | ⟨-, -, hfind⟩
  · exact absurd hok hfails
  refine ⟨hok, p.move input, ?_, ?_, rfl, ?_⟩
  · rw [hfind, if_pos rfl, hp]
    rfl
  · simp [PresenceRow.isAt, PresenceRow.move]
  · simp only [PresenceRow.move, hat, if_true]

/-- The location consent is refused and granted again, and a position stored
in another city a moment after the first one. -/
def jumping : List ProfileAction :=
  joining ++ [.recordConsents 1 [(⟨.locationConsent, false, "1", .fr⟩, ⟨17, 18, 19⟩),
      (grant .locationConsent, ⟨20, 21, 22⟩)] 16,
    .upsertPresence 1 ⟨45760000, 4840000, 23⟩ ⟨"1", "1", "1", "1"⟩]

end Runs

end Histae.Profiles
