import Histae.Matches.Reveals

/-!
# Announcing a reveal

The call in which both consents come together raises the version and stores a
notice for every participant with an account in use. Its deduplication key is
new, since the earlier versions of the match lie below.
-/

namespace Histae.Matches

open Relational Systems Paging

/-- The notices of one version of a match. -/
def revealNotices (db : Db) (m : MatchRecord) (version : ℕ) (clock : ℤ) : List Notification :=
  ([m.user2Id, m.user1Id].filter db.reachable).map fun u ↦
    { userId := u
      source := .version m.id version
      intent := .photosRevealed m.id version
      expiresAt := clock + seconds (NotificationType.photosRevealed).retentionSeconds }

section Enqueue

variable {db : Db} {clock : ℤ} {m : MatchRecord}

theorem enqueueNotification_accounts (db : Db) (clock : ℤ) (userId : Uuid)
    (source : NotificationSource) (intent : NotificationIntent) :
    (enqueueNotification db clock userId source intent).accounts = db.accounts := by
  unfold enqueueNotification
  split
  · rfl
  · split <;> rfl

theorem rows_enqueueNotification (db : Db) (clock : ℤ) (userId : Uuid)
    (source : NotificationSource) (intent : NotificationIntent)
    (h : db.notifications.find? (intent.kind, source, userId) = none) :
    (enqueueNotification db clock userId source intent).notifications.rows =
      (if db.reachable userId = true then
        [{ userId, source, intent
           expiresAt := intent.expiresAt.getD (clock + seconds intent.kind.retentionSeconds) }]
      else []) ++ db.notifications.rows := by
  unfold enqueueNotification Db.reachable
  cases haccount : db.accounts.find? userId with
  | none => rfl
  | some account =>
      dsimp only
      have hboth : (account.deletedAt.isNone && !account.isBanned) =
          !(account.deletedAt.isSome || account.isBanned) := by
        rw [Bool.not_or, Option.not_isSome]
      rw [Option.any_some, hboth]
      by_cases hgone : (account.deletedAt.isSome || account.isBanned) = true
      · rw [if_pos hgone, hgone]
        rfl
      · rw [if_neg hgone, if_pos (by simpa using hgone)]
        cases hinsert : db.notifications.insert?
            { userId, source, intent
              expiresAt := intent.expiresAt.getD
                (clock + seconds intent.kind.retentionSeconds) } with
        | none => exact absurd h (Table.insert?_eq_none_iff.mp hinsert)
        | some notifications => exact (Table.insert?_eq_some_iff.mp hinsert).2

/-- The key of the second notice is new beside the first one. -/
theorem find?_enqueueNotification_of_ne (db : Db) (clock : ℤ) (userId other : Uuid)
    (source : NotificationSource) (intent : NotificationIntent) (hne : userId ≠ other)
    (h : ∀ u, db.notifications.find? (intent.kind, source, u) = none) :
    (enqueueNotification db clock userId source intent).notifications.find?
      (intent.kind, source, other) = none := by
  refine Table.find?_eq_none_iff.mpr fun n hn hkey ↦ ?_
  rw [← Table.mem_rows, rows_enqueueNotification db clock userId source intent (h userId),
    List.mem_append] at hn
  rcases hn with hn | hn
  · split at hn
    · rw [List.mem_singleton.mp hn] at hkey
      exact hne (congrArg (fun key ↦ key.2.2) hkey)
    · cases hn
  · exact Table.find?_eq_none_iff.mp (h other) n hn hkey

/-- Both notices of a version, where no notice has its key yet. -/
theorem rows_enqueueBoth (db : Db) (clock : ℤ) (m : MatchRecord) (version : ℕ)
    (hpair : m.user1Id ≠ m.user2Id)
    (hfresh : ∀ u, db.notifications.find? (.photosRevealed, .version m.id version, u) = none) :
    (enqueueNotification
      (enqueueNotification db clock m.user1Id (.version m.id version)
        (.photosRevealed m.id version)) clock m.user2Id (.version m.id version)
      (.photosRevealed m.id version)).notifications.rows =
      revealNotices db m version clock ++ db.notifications.rows := by
  have hsecond := find?_enqueueNotification_of_ne db clock m.user1Id m.user2Id
    (.version m.id version) (.photosRevealed m.id version) hpair hfresh
  have hreachable : (enqueueNotification db clock m.user1Id (.version m.id version)
      (.photosRevealed m.id version)).reachable m.user2Id = db.reachable m.user2Id := by
    unfold Db.reachable
    rw [enqueueNotification_accounts]
  rw [rows_enqueueNotification _ clock m.user2Id (.version m.id version)
    (.photosRevealed m.id version) hsecond, hreachable,
    rows_enqueueNotification db clock m.user1Id (.version m.id version)
      (.photosRevealed m.id version) (hfresh m.user1Id), ← List.append_assoc]
  unfold revealNotices
  congr 1
  cases hfirst : db.reachable m.user1Id <;> cases hother : db.reachable m.user2Id <;>
    simp [hfirst, hother, NotificationIntent.expiresAt, NotificationIntent.kind]

theorem rows_announceReveal {db₁ : Db} (hm : m ∈ db₁.matchInit) (hpair : m.user1Id ≠ m.user2Id)
    (hfresh : ∀ u, db₁.notifications.find?
      (.photosRevealed, .version m.id (m.photoRevealVersion + 1), u) = none) :
    (announceReveal db₁ m m.id clock).notifications.rows =
      revealNotices db₁ m (m.photoRevealVersion + 1) clock ++ db₁.notifications.rows := by
  have hversion : (((db₁.matchInit.modify (fun n ↦ n.id = m.id) MatchRecord.revealedAgain
      MatchRecord.id_revealedAgain).find? m.id).map MatchRecord.photoRevealVersion).getD 0 =
      m.photoRevealVersion + 1 := by
    rw [Table.find?_modify_key MatchRecord.id_revealedAgain hm, if_pos rfl]
    rfl
  unfold announceReveal
  dsimp only
  rw [hversion]
  exact rows_enqueueBoth { db₁ with
    matchInit := db₁.matchInit.modify (fun n ↦ n.id = m.id) MatchRecord.revealedAgain
      MatchRecord.id_revealedAgain } clock m (m.photoRevealVersion + 1) hpair hfresh

end Enqueue

section Consented

variable {db : Db} {m : MatchRecord} {userId : Uuid} {granted announced : Bool} {clock : ℤ}

/-- The tables after the answer of a call that holds the lock on `m`. -/
structure Consented (db : Db) (m : MatchRecord) (userId : Uuid) (granted announced : Bool)
    (clock : ℤ) (db' : Db) : Prop where
  rows : ∀ m' ∈ db'.matchInit, ∃ n ∈ db.matchInit, m'.id = n.id ∧ m'.user1Id = n.user1Id ∧
    m'.user2Id = n.user2Id ∧
    m'.photoRevealVersion =
      n.photoRevealVersion + if n.id = m.id ∧ announced = true then 1 else 0
  states : ∀ key, (db.matchState.find? key).isSome = true →
    (db'.matchState.find? key).any MatchState.revealed =
      if key = (m.id, userId) then granted else (db.matchState.find? key).any MatchState.revealed
  notices : db'.notifications.rows =
    (if announced = true then revealNotices db m (m.photoRevealVersion + 1) clock else []) ++
      db.notifications.rows

theorem consentedDb_revealed (key : Uuid × Uuid) (h : (db.matchState.find? key).isSome = true) :
    ((consentedDb db m.id userId granted).matchState.find? key).any MatchState.revealed =
      if key = (m.id, userId) then granted
      else (db.matchState.find? key).any MatchState.revealed := by
  obtain ⟨s, hs⟩ := Option.isSome_iff_exists.mp h
  have hkey : s.key = key := (Table.find?_eq_some_iff.mp hs).2
  unfold consentedDb
  rw [Table.find?_modify (MatchState.key_reveal granted), hs, Option.map_some, Option.any_some,
    Option.any_some, hkey]
  by_cases heq : key = (m.id, userId)
  · rw [if_pos heq, if_pos (decide_eq_true heq)]
    rfl
  · rw [if_neg heq, if_neg (by simpa using heq)]

theorem consented_quiet : Consented db m userId granted false clock
    (consentedDb db m.id userId granted) where
  rows m' hm' := ⟨m', hm', rfl, rfl, rfl, by simp⟩
  states := consentedDb_revealed
  notices := rfl

theorem announceReveal_matchInit (db : Db) (m : MatchRecord) (matchId : Uuid) (clock : ℤ) :
    (announceReveal db m matchId clock).matchInit =
      db.matchInit.modify (fun n ↦ n.id = matchId) MatchRecord.revealedAgain
        MatchRecord.id_revealedAgain :=
  ((sameLedger_enqueueNotification ..).trans (sameLedger_enqueueNotification ..)).matchInit

theorem consented_announced (hm : m ∈ db.matchInit) (hpair : m.user1Id ≠ m.user2Id)
    (hfresh : ∀ u, db.notifications.find?
      (.photosRevealed, .version m.id (m.photoRevealVersion + 1), u) = none) :
    Consented db m userId granted true clock
      (announceReveal (consentedDb db m.id userId granted) m m.id clock) where
  rows m' hm' := by
    rw [announceReveal_matchInit] at hm'
    obtain ⟨n, hn, rfl⟩ := (Table.mem_modify MatchRecord.id_revealedAgain).mp hm'
    refine ⟨n, hn, ?_⟩
    by_cases hid : n.id = m.id
    · rw [if_pos (decide_eq_true hid), if_pos ⟨hid, rfl⟩]
      exact ⟨rfl, rfl, rfl, rfl⟩
    · rw [if_neg (by simpa using hid), if_neg fun h ↦ hid h.1]
      exact ⟨rfl, rfl, rfl, rfl⟩
  states key hkey := by
    unfold announceReveal
    rw [enqueueNotification_matchState, enqueueNotification_matchState]
    exact consentedDb_revealed key hkey
  notices := by
    have hconsented : m ∈ (consentedDb db m.id userId granted).matchInit := hm
    exact rows_announceReveal hconsented hpair hfresh

theorem reveal?_revealNotices {version : ℕ} :
    (revealNotices db m version clock).filterMap Notification.reveal? =
      ([m.user2Id, m.user1Id].filter db.reachable).map fun u ↦ (u, m.id, version) := by
  unfold revealNotices
  rw [List.filterMap_map, ← List.filterMap_eq_map]
  rfl

/-- A step gives the notices that it stores. -/
theorem newReveals_of_rows {db' : Db} {notices : List Notification}
    (hrows : db'.notifications.rows = notices ++ db.notifications.rows)
    (hfresh : ∀ n ∈ notices, db.notifications.find? n.deduplicationKey = none) :
    newReveals db db' = notices.filterMap Notification.reveal? := by
  have hnew : (notices.filter fun n ↦
      (db.notifications.find? n.deduplicationKey).isNone) = notices :=
    List.filter_eq_self.mpr fun n hn ↦ by rw [hfresh n hn]; rfl
  have hold : (db.notifications.rows.filter fun n ↦
      (db.notifications.find? n.deduplicationKey).isNone) = [] :=
    List.filter_eq_nil_iff.mpr fun n hn ↦ by simp [Table.find?_key (Table.mem_rows.mp hn)]
  unfold newReveals
  rw [hrows, List.filter_append, hnew, hold, List.append_nil]

end Consented

section Steps

variable {s : RevealWorld} {a : LifeAction} {db₁ : Db} {m : MatchRecord} {userId : Uuid}
  {granted announced : Bool} {clock : ℤ}

theorem Steady.flagged {T : ℤ} {db db' : Db} {consents : List ((Uuid × Uuid) × Bool)}
    (h : Steady T db db') (hflags : db.Flagged consents) : db'.Flagged consents := by
  intro m' hm' u hu
  obtain ⟨m, hm, hcontinues⟩ := h.rows m' hm'
  rw [h.states m' hm', hcontinues.id]
  refine hflags m hm u ?_
  rwa [MatchRecord.isParticipant, ← hcontinues.user1Id, ← hcontinues.user2Id]

theorem LockOutcome.notifications {matchId : Uuid} {now : ℤ} {db db' : Db}
    {result : MatchCommandResult MatchRecord} (h : LockOutcome db matchId userId now result db') :
    db'.notifications = db.notifications ∧ db'.accounts = db.accounts := by
  cases h <;> exact ⟨rfl, rfl⟩

/-- No notice of the next version of a locked match is stored. -/
theorem RevealInvariant.freshKey (h : RevealInvariant s)
    (hsteady : Steady s.base.clock s.base.db db₁) (hm : m ∈ db₁.matchInit) (u : Uuid) :
    s.base.db.notifications.find?
      (.photosRevealed, .version m.id (m.photoRevealVersion + 1), u) = none := by
  refine Table.find?_eq_none_iff.mpr fun n hn hkey ↦ ?_
  have hkind : n.intent.kind = .photosRevealed := congrArg Prod.fst hkey
  have hsource : n.source = .version m.id (m.photoRevealVersion + 1) :=
    congrArg (fun key ↦ key.2.1) hkey
  cases hintent : n.intent with
  | photosRevealed id v =>
      have hreveal : n.reveal? = some (n.userId, id, v) := reveal?_eq_some.mpr ⟨hintent, rfl⟩
      obtain ⟨hversion, hpast⟩ := h.sourced n hn n.userId id v hreveal
      rw [hsource] at hversion
      obtain ⟨rfl, rfl⟩ := NotificationSource.version.inj hversion
      obtain ⟨n₀, hn₀, hcontinues⟩ := hsteady.rows m hm
      have hle := hpast.2 n₀ hn₀ hcontinues.id.symm
      rw [hcontinues.version] at hle
      omega
  | _ => rw [hintent] at hkind; cases hkind

/-- What a call that recorded a consent did. -/
structure Recording (s : RevealWorld) (a : LifeAction) (db₁ : Db) (m : MatchRecord)
    (userId : Uuid) (granted announced : Bool) (clock : ℤ) : Prop where
  enabled : reveals.Enabled s a
  steady : Steady s.base.clock s.base.db db₁
  notifications : db₁.notifications = s.base.db.notifications
  accounts : db₁.accounts = s.base.db.accounts
  row : m ∈ db₁.matchInit
  consents : recordedConsent s.base.db a = [((m.id, userId), granted)]
  turning : announced = turns s (s.next a) m
  db : Consented db₁ m userId granted announced clock (s.base.live a).db

namespace Recording

theorem consents_eq (r : Recording s a db₁ m userId granted announced clock) :
    (s.next a).consents = ((m.id, userId), granted) :: s.consents := by
  change recordedConsent s.base.db a ++ s.consents = _
  rw [r.consents]
  rfl

/-- The row of a match after the step, and the row that it had before. -/
theorem before (r : Recording s a db₁ m userId granted announced clock) {m' : MatchRecord}
    (hm' : m' ∈ (s.base.live a).db.matchInit) :
    ∃ n ∈ s.base.db.matchInit, m'.id = n.id ∧ m'.user1Id = n.user1Id ∧ m'.user2Id = n.user2Id ∧
      m'.photoRevealVersion =
        n.photoRevealVersion + if n.id = m.id ∧ announced = true then 1 else 0 := by
  obtain ⟨n₁, hn₁, hid, hfirst, hsecond, hversion⟩ := r.db.rows m' hm'
  obtain ⟨n, hn, hcontinues⟩ := r.steady.rows n₁ hn₁
  refine ⟨n, hn, hid.trans hcontinues.id, hfirst.trans hcontinues.user1Id,
    hsecond.trans hcontinues.user2Id, ?_⟩
  rw [hversion, hcontinues.version, hcontinues.id]

/-- The locked row of the match that the call is about. -/
theorem origin (r : Recording s a db₁ m userId granted announced clock) :
    ∃ n ∈ s.base.db.matchInit, m.id = n.id ∧ m.user1Id = n.user1Id ∧ m.user2Id = n.user2Id ∧
      m.photoRevealVersion = n.photoRevealVersion := by
  obtain ⟨n, hn, hcontinues⟩ := r.steady.rows m r.row
  exact ⟨n, hn, hcontinues.id, hcontinues.user1Id, hcontinues.user2Id, hcontinues.version⟩

theorem turns_eq (r : Recording s a db₁ m userId granted announced clock) {n : MatchRecord}
    (hn : n ∈ s.base.db.matchInit) :
    turns s (s.next a) n = (decide (n.id = m.id) && announced) := by
  by_cases hid : n.id = m.id
  · obtain ⟨n₀, hn₀, hmid, hfirst, hsecond, _⟩ := r.origin
    have heq : n = n₀ := Table.eq_of_key_eq hn hn₀ (hid.trans hmid)
    have hsame : turns s (s.next a) n = turns s (s.next a) m := by
      unfold turns bothGranted
      rw [heq, ← hmid, ← hfirst, ← hsecond]
    rw [hsame, ← r.turning, decide_eq_true hid, Bool.true_and]
  · have hlatest (u : Uuid) : latest (s.next a).consents (n.id, u) = latest s.consents (n.id, u) := by
      rw [r.consents_eq, latest_cons, if_neg fun heq ↦ hid (congrArg Prod.fst heq)]
    have hboth : bothGranted (s.next a).consents n = bothGranted s.consents n := by
      unfold bothGranted
      rw [hlatest, hlatest]
    rw [turns, hboth, Bool.and_not_self, decide_eq_false hid, Bool.false_and]

theorem past (r : Recording s a db₁ m userId granted announced clock) {id : Uuid} {v : ℕ}
    (h : s.base.Past id v) : (s.base.live a).Past id v := by
  refine ⟨live_createdIds h.1, fun m' hm' hid ↦ ?_⟩
  obtain ⟨n, hn, hnid, _, _, hversion⟩ := r.before hm'
  have hle := h.2 n hn (hnid.symm.trans hid)
  omega

theorem rows_eq (r : Recording s a db₁ m userId granted announced clock) :
    (s.base.live a).db.notifications.rows =
      (if announced = true then revealNotices db₁ m (m.photoRevealVersion + 1) clock else []) ++
        s.base.db.notifications.rows := by
  rw [r.db.notices, r.notifications]

theorem reachable_eq (r : Recording s a db₁ m userId granted announced clock) :
    db₁.reachable = s.base.db.reachable := by
  funext u
  unfold Db.reachable
  rw [r.accounts]

theorem newReveals_eq (r : Recording s a db₁ m userId granted announced clock)
    (h : RevealInvariant s) :
    newReveals s.base.db (s.base.live a).db =
      if announced = true then
        ([m.user2Id, m.user1Id].filter s.base.db.reachable).map
          fun u ↦ (u, m.id, m.photoRevealVersion + 1)
      else [] := by
  rw [newReveals_of_rows r.rows_eq]
  · by_cases hannounced : announced = true
    · rw [if_pos hannounced, if_pos hannounced, reveal?_revealNotices, r.reachable_eq]
    · rw [if_neg hannounced, if_neg hannounced]
      rfl
  · intro n hn
    split at hn
    · obtain ⟨u, _, rfl⟩ := List.mem_map.mp hn
      exact h.freshKey r.steady r.row u
    · cases hn

theorem flags (r : Recording s a db₁ m userId granted announced clock) (h : RevealInvariant s) :
    (s.base.live a).db.Flagged (s.next a).consents := by
  intro m' hm' u hu
  obtain ⟨n, hn, hid, hfirst, hsecond, _⟩ := r.db.rows m' hm'
  have hparticipant : n.isParticipant u = true := by
    rwa [MatchRecord.isParticipant, ← hfirst, ← hsecond]
  have hflag := r.steady.flagged h.flags n hn u hparticipant
  have hstored := (h.choices.of_steady r.steady).states n hn u
  rw [r.consents_eq, latest_cons, hid, ← hflag]
  exact r.db.states (n.id, u) (hstored.symm.trans hparticipant)

theorem mem_newReveals (r : Recording s a db₁ m userId granted announced clock)
    (h : RevealInvariant s) {u id : Uuid} {v : ℕ} :
    (u, id, v) ∈ newReveals s.base.db (s.base.live a).db ↔
      announced = true ∧ id = m.id ∧ v = m.photoRevealVersion + 1 ∧
        m.isParticipant u = true ∧ s.base.db.reachable u = true := by
  rw [r.newReveals_eq h, MatchRecord.isParticipant]
  by_cases hannounced : announced = true
  · rw [if_pos hannounced]
    simp only [hannounced, List.mem_map, List.mem_filter, List.mem_cons, List.not_mem_nil,
      or_false, Prod.mk.injEq, true_and, Bool.or_eq_true, decide_eq_true_eq]
    constructor
    · rintro ⟨u', ⟨hu, hreachable⟩, rfl, rfl, rfl⟩
      exact ⟨rfl, rfl, hu.symm.imp Eq.symm Eq.symm, hreachable⟩
    · rintro ⟨rfl, rfl, hu, hreachable⟩
      exact ⟨u, ⟨hu.symm.imp Eq.symm Eq.symm, hreachable⟩, rfl, rfl, rfl⟩
  · simp [hannounced]

theorem received (r : Recording s a db₁ m userId granted announced clock)
    (h : RevealInvariant s) {u id : Uuid} {v : ℕ}
    (hmem : (u, id, v) ∈ newReveals s.base.db (s.base.live a).db) :
    id = m.id ∧ v = m.photoRevealVersion + 1 ∧ announced = true := by
  obtain ⟨hannounced, hid, hv, _⟩ := (r.mem_newReveals h).mp hmem
  exact ⟨hid, hv, hannounced⟩

/-- The new version is in the past once it is announced. -/
theorem past_announced (r : Recording s a db₁ m userId granted announced clock)
    (h : RevealInvariant s) (hannounced : announced = true) :
    (s.base.live a).Past m.id (m.photoRevealVersion + 1) := by
  obtain ⟨n₀, hn₀, hmid, _, _, hsame⟩ := r.origin
  refine ⟨live_createdIds ?_, fun m' hm' hid ↦ ?_⟩
  · rw [hmid]
    exact h.choices.issued n₀ hn₀
  · obtain ⟨n, hn, hnid, _, _, hversion⟩ := r.before hm'
    obtain rfl := Table.eq_of_key_eq hn hn₀ (hnid.symm.trans (hid.trans hmid))
    rw [hversion, hsame, if_pos ⟨hmid.symm, hannounced⟩]

theorem nodup_newReveals (r : Recording s a db₁ m userId granted announced clock)
    (h : RevealInvariant s) : (newReveals s.base.db (s.base.live a).db).Nodup := by
  rw [r.newReveals_eq h]
  split
  · obtain ⟨n₀, hn₀, _, hfirst, hsecond, _⟩ := r.origin
    have hpair : m.user2Id ≠ m.user1Id := by
      rw [hfirst, hsecond]
      exact (h.choices.pair n₀ hn₀).symm
    have hboth : [m.user2Id, m.user1Id].Nodup := by simpa using hpair
    exact (hboth.filter _).map fun u u' heq ↦ congrArg Prod.fst heq
  · exact List.nodup_nil

theorem invariant (r : Recording s a db₁ m userId granted announced clock)
    (h : RevealInvariant s) : RevealInvariant (s.next a) where
  choices := h.choices.next r.enabled
  flags := r.flags h
  recorded c hc := by
    rw [r.consents_eq] at hc
    rcases List.mem_cons.mp hc with rfl | hc
    · obtain ⟨n₀, hn₀, hmid, _⟩ := r.origin
      refine live_createdIds ?_
      change m.id ∈ _
      rw [hmid]
      exact h.choices.issued n₀ hn₀
    · exact live_createdIds (h.recorded c hc)
  sourced n hn u id v hreveal := by
    have hmem : n ∈ (s.base.live a).db.notifications.rows := hn
    rw [r.rows_eq, List.mem_append] at hmem
    rcases hmem with hmem | hmem
    · split at hmem
      · rename_i hannounced
        obtain ⟨u', _, rfl⟩ := List.mem_map.mp hmem
        obtain ⟨hintent, _⟩ := reveal?_eq_some.mp hreveal
        obtain ⟨rfl, rfl⟩ := NotificationIntent.photosRevealed.inj hintent
        exact ⟨rfl, r.past_announced h hannounced⟩
      · cases hmem
    · obtain ⟨hsource, hpast⟩ := h.sourced n hmem u id v hreveal
      exact ⟨hsource, r.past hpast⟩
  received u id v hmem := by
    rcases List.mem_append.mp hmem with hmem | hmem
    · obtain ⟨rfl, rfl, hannounced⟩ := r.received h hmem
      exact r.past_announced h hannounced
    · exact r.past (h.received u id v hmem)
  once := by
    refine List.nodup_append.mpr ⟨r.nodup_newReveals h, h.once, ?_⟩
    rintro ⟨u, id, v⟩ hnew entry hold rfl
    obtain ⟨rfl, rfl, _⟩ := r.received h hnew
    obtain ⟨n₀, hn₀, hmid, _, _, hsame⟩ := r.origin
    have hle := (h.received u m.id _ hold).2 n₀ hn₀ hmid.symm
    omega

theorem revealStep (r : Recording s a db₁ m userId granted announced clock)
    (h : RevealInvariant s) : RevealStep s (s.next a) where
  invariant := r.invariant h
  version n hn m' hm' hid := by
    obtain ⟨n', hn', hnid, _, _, hversion⟩ := r.before hm'
    obtain rfl := Table.eq_of_key_eq hn' hn (hnid.symm.trans hid)
    rw [hversion, r.turns_eq hn]
    simp
  notices n hn m' hm' hid u v := by
    obtain ⟨n', hn', hnid, _, _, hversion⟩ := r.before hm'
    obtain rfl := Table.eq_of_key_eq hn' hn (hnid.symm.trans hid)
    have hcount : (newReveals s.base.db (s.next a).base.db).count (u, n'.id, v) =
        if (u, n'.id, v) ∈ newReveals s.base.db (s.base.live a).db then 1 else 0 :=
      (r.nodup_newReveals h).count
    have hmem : (u, n'.id, v) ∈ newReveals s.base.db (s.base.live a).db ↔
        turns s (s.next a) n' = true ∧ v = m'.photoRevealVersion ∧ n'.isParticipant u = true ∧
          s.base.db.reachable u = true := by
      rw [r.mem_newReveals h, r.turns_eq hn', hversion, Bool.and_eq_true, decide_eq_true_eq]
      by_cases hsame : n'.id = m.id
      · obtain ⟨n₀, hn₀, hmid, hfirst, hsecond, hold⟩ := r.origin
        obtain rfl := Table.eq_of_key_eq hn' hn₀ (hsame.trans hmid)
        have hparticipant : m.isParticipant u = n'.isParticipant u := by
          rw [MatchRecord.isParticipant, MatchRecord.isParticipant, hfirst, hsecond]
        rw [hparticipant, hold]
        constructor
        · rintro ⟨hannounced, _, hv, hu, hreachable⟩
          exact ⟨⟨hsame, hannounced⟩, by rw [hv, if_pos ⟨hsame, hannounced⟩], hu, hreachable⟩
        · rintro ⟨⟨_, hannounced⟩, hv, hu, hreachable⟩
          rw [if_pos ⟨hsame, hannounced⟩] at hv
          exact ⟨hannounced, hsame, hv, hu, hreachable⟩
      · constructor
        · rintro ⟨_, hid', _⟩
          exact absurd hid' hsame
        · rintro ⟨⟨hid', _⟩, _⟩
          exact absurd hid' hsame
    rw [hcount]
    by_cases hin : (u, n'.id, v) ∈ newReveals s.base.db (s.base.live a).db
    · rw [if_pos hin, if_pos (hmem.mp hin)]
    · rw [if_neg hin, if_neg fun h ↦ hin (hmem.mpr h)]

end Recording

theorem recordedConsent_eq_nil (h : ∀ matchId userId consent locked clock,
    a ≠ .service (.recordReveal matchId userId consent locked clock)) (db : Db) :
    recordedConsent db a = [] := by
  unfold recordedConsent
  split
  · exact (h _ _ _ _ _ rfl).elim
  · rfl

theorem RevealInvariant.reveal {matchId userId : Uuid} {consent : PhotoRevealConsent}
    {locked clock : ℤ} (h : RevealInvariant s)
    (henabled : reveals.Enabled s (.service (.recordReveal matchId userId consent locked clock))) :
    RevealStep s (s.next (.service (.recordReveal matchId userId consent locked clock))) := by
  cases hreveal : recordReveal s.base.db matchId userId consent locked clock with
  | error error =>
      refine h.quiet henabled ?_ (by simp only [recordedConsent, hreveal])
      simp only [World.live, World.next, Action.apply, hreveal]
      exact (Steady.refl (T := s.base.clock) _).keepsReveals h.choices.issued
  | ok result =>
      obtain ⟨answer, db'⟩ := result
      have hdb : (s.base.live
          (.service (.recordReveal matchId userId consent locked clock))).db = db' := by
        simp only [World.live, World.next, Action.apply, hreveal]
      have hcases := recordReveal_cases hreveal
      cases hcases with
      | unavailable lockResult _ reason hlock habsent =>
          refine h.quiet henabled ?_ (by simp only [recordedConsent, hreveal])
          rw [hdb]
          exact ((LockOutcome.of_eq hlock).steady (T := s.base.clock)).keepsReveals
            h.choices.issued
      | recorded m db₁ hlock hphotos hstate =>
          have hsteady : Steady s.base.clock s.base.db db₁ := (LockOutcome.of_eq hlock).steady
          obtain ⟨hm, rfl, _⟩ := (LockOutcome.of_eq hlock).mem_of_available
          obtain ⟨hnotifications, haccounts⟩ := (LockOutcome.of_eq hlock).notifications
          have hchoices := h.choices.of_steady hsteady
          have hflags := hsteady.flagged h.flags
          have hconsents : recordedConsent s.base.db
              (.service (.recordReveal m.id userId consent locked clock)) =
              [((m.id, userId), consent.isGranted)] := by
            simp only [recordedConsent, hreveal]
          have hrecording : Recording s (.service (.recordReveal m.id userId consent locked clock))
              db₁ m userId consent.isGranted
              (db₁.revealedWith m.id userId consent.isGranted && !db₁.photosRevealed m.id)
              clock := by
            refine ⟨henabled, hsteady, hnotifications, haccounts, hm, hconsents, ?_, ?_⟩
            · have hnext : (s.next
                  (.service (.recordReveal m.id userId consent locked clock))).consents =
                  ((m.id, userId), consent.isGranted) :: s.consents := by
                change recordedConsent _ _ ++ s.consents = _
                rw [hconsents]
                rfl
              rw [turns, hnext, hchoices.revealedWith_eq hflags hm,
                hchoices.photosRevealed_eq hflags hm]
            · rw [hdb]
              cases hannounce : db₁.revealedWith m.id userId consent.isGranted &&
                !db₁.photosRevealed m.id with
              | false => exact consented_quiet
              | true =>
                  refine consented_announced hm (hchoices.pair m hm) fun u ↦ ?_
                  rw [hnotifications]
                  exact h.freshKey hsteady hm u
          exact hrecording.revealStep h

theorem RevealInvariant.step (h : RevealInvariant s) (henabled : reveals.Enabled s a) :
    RevealStep s (s.next a) := by
  by_cases hreveal : ∃ matchId userId consent locked clock,
      a = .service (.recordReveal matchId userId consent locked clock)
  · obtain ⟨matchId, userId, consent, locked, clock, rfl⟩ := hreveal
    exact h.reveal henabled
  · have hother : ∀ matchId userId consent locked clock,
        a ≠ .service (.recordReveal matchId userId consent locked clock) :=
      fun matchId userId consent locked clock heq ↦
        hreveal ⟨matchId, userId, consent, locked, clock, heq⟩
    refine h.quiet henabled ?_ (recordedConsent_eq_nil hother _)
    cases lifeEffect h.choices henabled with
    | steady _ hsteady => exact hsteady.keepsReveals h.choices.issued
    | created id first second now clock hcreates hissued =>
        exact hcreates.keepsReveals h.choices.issued h.choices.filed
          (henabled.fresh id first second now clock rfl)
    | recorded matchId userId legal cost t sourceId result hcases =>
        exact hcases.keepsReveals h.choices.issued
    | revealed matchId userId consent locked clock answer hcases =>
        exact (hother _ _ _ _ _ rfl).elim

theorem RevealInitial.invariant (h : RevealInitial s) : RevealInvariant s where
  choices := h.base.choices
  flags m hm := by
    rw [h.base.matchInit] at hm
    exact absurd hm (Table.notMem_empty m)
  recorded c hc := by
    rw [h.consents] at hc
    cases hc
  sourced n hn := by
    rw [h.notifications] at hn
    exact absurd hn (Table.notMem_empty n)
  received u id v hmem := by
    rw [h.received] at hmem
    cases hmem
  once := by
    rw [h.received]
    exact List.nodup_nil

theorem revealInvariant_of_reachable (h : reveals.Reachable RevealInitial s) :
    RevealInvariant s := by
  obtain ⟨s₀, as, h₀, hvalid, rfl⟩ := h
  exact hvalid.invariant (I := RevealInvariant) h₀.invariant
    fun s a hinv henabled ↦ (hinv.step henabled).invariant

end Steps

section Answers

variable {s : RevealWorld} {matchId userId : Uuid} {consent : PhotoRevealConsent}
  {locked clock : ℤ}

theorem LockOutcome.approvedPhotos {now : ℤ} {db db' : Db}
    {result : MatchCommandResult MatchRecord} (h : LockOutcome db matchId userId now result db') :
    db'.approvedPhotos = db.approvedPhotos := by
  cases h <;> rfl

theorem participantPhotosReady_iff {db : Db} {first second : Uuid} (hne : first ≠ second) :
    participantPhotosReady db [first, second] = true ↔
      first ∈ db.approvedPhotos ∧ second ∈ db.approvedPhotos := by
  unfold participantPhotosReady
  by_cases hfirst : first ∈ db.approvedPhotos <;> by_cases hsecond : second ∈ db.approvedPhotos <;>
    simp [hfirst, hsecond, hne, List.dedup_cons_of_notMem]

/-- What the answers of a reveal call say. -/
structure RevealAnswers (s : RevealWorld) (matchId userId : Uuid) (consent : PhotoRevealConsent)
    (locked clock : ℤ) : Prop where
  truthful : ∀ answer db',
    recordReveal s.base.db matchId userId consent locked clock = .ok (.available answer, db') →
    ∃ m ∈ s.base.db.matchInit, m.id = matchId ∧ m.isParticipant userId = true ∧
      answer = bothGranted
        (s.next (.service (.recordReveal matchId userId consent locked clock))).consents m ∧
      (consent.isGranted = true →
        m.user1Id ∈ s.base.db.approvedPhotos ∧ m.user2Id ∈ s.base.db.approvedPhotos)
  refused : ∀ m db₁, lockAvailableMatch s.base.db matchId userId locked = (.available m, db₁) →
    (recordReveal s.base.db matchId userId consent locked clock = .error .photoRequired ↔
      consent.isGranted = true ∧
        ¬ (m.user1Id ∈ s.base.db.approvedPhotos ∧ m.user2Id ∈ s.base.db.approvedPhotos))
  withdrawn : ∀ m db₁, lockAvailableMatch s.base.db matchId userId locked = (.available m, db₁) →
    consent = .withdrawn → ∃ answer db',
      recordReveal s.base.db matchId userId consent locked clock = .ok (.available answer, db')

theorem RevealInvariant.answers (h : RevealInvariant s) :
    RevealAnswers s matchId userId consent locked clock where
  truthful answer db' hreveal := by
    have hconsents : recordedConsent s.base.db
        (.service (.recordReveal matchId userId consent locked clock)) =
        [((matchId, userId), consent.isGranted)] := by
      simp only [recordedConsent, hreveal]
    have hnext : (s.next
        (.service (.recordReveal matchId userId consent locked clock))).consents =
        ((matchId, userId), consent.isGranted) :: s.consents := by
      change recordedConsent _ _ ++ s.consents = _
      rw [hconsents]
      rfl
    rw [hnext]
    cases recordReveal_cases hreveal with
    | recorded m db₁ hlock hphotos hstate =>
        have hsteady : Steady s.base.clock s.base.db db₁ := (LockOutcome.of_eq hlock).steady
        obtain ⟨hm, rfl, hparticipant, _⟩ := (LockOutcome.of_eq hlock).mem_of_available
        have hchoices := h.choices.of_steady hsteady
        obtain ⟨n, hn, hcontinues⟩ := hsteady.rows m hm
        refine ⟨n, hn, hcontinues.id.symm, ?_, ?_, fun hgranted ↦ ?_⟩
        · rwa [MatchRecord.isParticipant, ← hcontinues.user1Id, ← hcontinues.user2Id]
        · rw [hchoices.revealedWith_eq (hsteady.flagged h.flags) hm]
          unfold bothGranted
          rw [hcontinues.id, hcontinues.user1Id, hcontinues.user2Id]
        · have hready := (participantPhotosReady_iff (hchoices.pair m hm)).mp (hphotos hgranted)
          rwa [(LockOutcome.of_eq hlock).approvedPhotos, hcontinues.user1Id,
            hcontinues.user2Id] at hready
  refused m db₁ hlock := by
    have hsteady : Steady s.base.clock s.base.db db₁ := (LockOutcome.of_eq hlock).steady
    obtain ⟨hm, rfl, _⟩ := (LockOutcome.of_eq hlock).mem_of_available
    have hready := @participantPhotosReady_iff db₁ _ _
      ((h.choices.of_steady hsteady).pair m hm)
    rw [← (LockOutcome.of_eq hlock).approvedPhotos, ← hready]
    unfold recordReveal
    rw [hlock]
    dsimp only
    by_cases hrefused : (consent.isGranted &&
        !participantPhotosReady db₁ [m.user1Id, m.user2Id]) = true
    · rw [if_pos hrefused]
      simpa using hrefused
    · rw [if_neg hrefused]
      refine ⟨fun herror ↦ ?_, fun hmissing ↦ absurd (by simpa using hmissing) hrefused⟩
      split at herror
      · cases herror
      · split at herror <;> cases herror
  withdrawn m db₁ hlock hconsent := by
    have hsteady : Steady s.base.clock s.base.db db₁ := (LockOutcome.of_eq hlock).steady
    obtain ⟨hm, rfl, hparticipant, _⟩ := (LockOutcome.of_eq hlock).mem_of_available
    have hstored := (h.choices.of_steady hsteady).states m hm userId
    rw [hparticipant] at hstored
    have hsome : (db₁.matchState.find? (m.id, userId)).isNone = false := by
      rw [← Option.not_isSome, ← hstored]
      rfl
    have hgranted : consent.isGranted = false := by
      rw [hconsent]
      rfl
    unfold recordReveal
    rw [hlock]
    dsimp only
    rw [if_neg (by simp [hgranted]), if_neg (by simp [hsome])]
    split
    · exact ⟨_, _, rfl⟩
    · exact ⟨_, _, rfl⟩

/-- The list shows a photo of the partner only when both have consented and
both photos are approved. -/
def Exposes (s : RevealWorld) (tables : PhotoTables) : Prop :=
  ∀ (codec : CursorCodec) (urlForKey : Option String → Option (Option String))
    (base : Uuid → Option Profile) (userId : Uuid) (limit offset : ℕ) (raw : Option (List Char))
    (statement now : ℤ) (answer : Page (List Char) PublicUserMatch),
    urlForKey none = some none →
    list codec urlForKey (tables.profiles base) s.base.db userId limit offset raw statement now =
      .ok answer →
    ∀ item ∈ answer.items, item.otherProfile.photo = none ∧
      (item.photo.isSome = true → ∃ m ∈ s.base.db.matchInit, m.id = item.id ∧
        m.isParticipant userId = true ∧ m.isParticipant item.otherUserId = true ∧
        bothGranted s.consents m = true ∧
        m.user1Id ∈ tables.owners ∧ m.user2Id ∈ tables.owners)

theorem otherPhoto_eq_some {db : Db} {userId : Uuid} {statement : ℤ}
    {row : MatchRecord × Uuid} {profile : Profile} {key : String}
    (h : (userMatchRow db userId statement row profile).otherPhoto = some key) :
    revealedBy db row.1.id userId = true ∧ revealedBy db row.1.id row.2 = true ∧
      userId ∈ db.approvedPhotos ∧ profile.photo = some key := by
  change (if (revealedBy db row.1.id userId && revealedBy db row.1.id row.2 &&
    decide (userId ∈ db.approvedPhotos)) = true then profile.photo else none) = some key at h
  split at h
  · rename_i hshown
    simp only [Bool.and_eq_true, decide_eq_true_eq] at hshown
    exact ⟨hshown.1.1, hshown.1.2, hshown.2, h⟩
  · cases h

theorem pair_of_visibleRow {db : Db} {userId : Uuid} {statement : ℤ} {row : MatchRecord × Uuid}
    (h : row ∈ visibleRows db userId statement) :
    row.1 ∈ db.matchInit ∧ (row.1.user1Id = userId ∧ row.1.user2Id = row.2 ∨
      row.1.user1Id = row.2 ∧ row.1.user2Id = userId) := by
  rw [visibleRows, List.mem_append] at h
  rcases h with h | h
  · obtain ⟨⟨hm, huser, hother⟩, _⟩ := mem_firstBranch.mp h
    exact ⟨hm, Or.inl ⟨huser, hother.symm⟩⟩
  · obtain ⟨⟨hm, huser, hother⟩, _⟩ := mem_secondBranch.mp h
    exact ⟨hm, Or.inr ⟨hother.symm, huser⟩⟩

theorem RevealInvariant.exposes (h : RevealInvariant s) {tables : PhotoTables}
    (htables : s.base.db.approvedPhotos = tables.owners) : Exposes s tables := by
  intro codec urlForKey base userId limit offset raw statement now answer hnone hlist item hitem
  obtain ⟨row, hrow, profile, hprofile, hpublic⟩ := publicRow_of_list hlist hitem
  unfold publicRow at hpublic
  split at hpublic
  · cases hpublic
  rename_i photo hphoto
  obtain rfl := Except.ok.inj hpublic
  refine ⟨rfl, fun hsome ↦ ?_⟩
  have hshown : photo.isSome = true := hsome
  have hkey : (userMatchRow s.base.db userId statement row profile).otherPhoto ≠ none := by
    intro hhidden
    rw [hhidden, hnone] at hphoto
    obtain rfl := Option.some.inj hphoto
    cases hshown
  obtain ⟨key, hkey⟩ := Option.ne_none_iff_exists'.mp hkey
  obtain ⟨hmine, htheirs, hphotos, hobject⟩ := otherPhoto_eq_some hkey
  obtain ⟨_, _, rfl⟩ := Option.map_eq_some_iff.mp hprofile
  have hother : row.2 ∈ tables.owners := tables.mem_owners_of_objectKey hobject
  rw [htables] at hphotos
  obtain ⟨hm, hpair⟩ := pair_of_visibleRow hrow
  have hid : (row.1.projectedAt now).id = row.1.id := by
    simp only [MatchRecord.projectedAt]
    split <;> split <;> rfl
  have hflag (u : Uuid) (hu : row.1.isParticipant u = true)
      (hrevealed : revealedBy s.base.db row.1.id u = true) :
      latest s.consents (row.1.id, u) = true := (h.flags row.1 hm u hu).symm.trans hrevealed
  refine ⟨row.1, hm, hid.symm, ?_⟩
  rcases hpair with ⟨hfirst, hsecond⟩ | ⟨hfirst, hsecond⟩
  all_goals
    have hme : row.1.isParticipant userId = true := by
      simp [MatchRecord.isParticipant, hfirst, hsecond]
    have hpartner : row.1.isParticipant row.2 = true := by
      simp [MatchRecord.isParticipant, hfirst, hsecond]
    refine ⟨hme, hpartner, ?_, ?_, ?_⟩
    · rw [bothGranted, hfirst, hsecond, hflag _ hme hmine, hflag _ hpartner htheirs, Bool.and_self]
    · rwa [hfirst]
    · rwa [hsecond]

/-- Both consents at every moment: the answers tell whether the latest
recorded consents are granted, the version and the notices follow the moments
where they come together, and the list shows photos only then. -/
theorem photo_reveal_needs_both (s : RevealWorld) (h : reveals.Reachable RevealInitial s) :
    (∀ a, reveals.Enabled s a → RevealStep s (s.next a)) ∧
    (∀ u id v, s.received.count (u, id, v) ≤ 1) ∧
    (∀ matchId userId consent locked clock,
      RevealAnswers s matchId userId consent locked clock) ∧
    ∀ tables : PhotoTables, s.base.db.approvedPhotos = tables.owners → Exposes s tables := by
  have hinv := revealInvariant_of_reachable h
  refine ⟨fun a henabled ↦ hinv.step henabled, fun u id v ↦ ?_, fun _ _ _ _ _ ↦ hinv.answers,
    fun tables htables ↦ hinv.exposes htables⟩
  exact List.nodup_iff_count_le_one.mp hinv.once (u, id, v)

end Answers

section Examples

/-- Two accounts with an approved photo each, the second one banned or not. -/
def pairEnvironment (banned : Bool) : Environment where
  accounts := ⟨[⟨1, .user, false, none, false⟩, ⟨2, .user, banned, none, false⟩], by simp⟩
  consents := []
  blocks := []
  approvedPhotos := [1, 2]
  plans := fun _ ↦ freePlan

def unrevealed : RevealWorld := ⟨pairWorld, [], []⟩

/-- The second participant consents, perhaps is banned, and the first one
consents as well. -/
def bothReveal (banned : Bool) : List LifeAction :=
  [.service (.createFromMutualLike 7 1 2 0 0), .service (.environment (pairEnvironment false)),
    .service (.recordReveal 7 2 .granted 0 0), .service (.environment (pairEnvironment banned)),
    .service (.recordReveal 7 1 .granted 0 0)]

theorem revealInitial_unrevealed : RevealInitial unrevealed := ⟨initial_pairWorld, rfl, rfl, rfl⟩

theorem enabled_environment {w : World} (env : Environment) :
    (Action.environment env).Enabled w := ⟨trivial, nofun, nofun, nofun⟩

theorem enabled_recordReveal {w : World} {matchId userId : Uuid} {consent : PhotoRevealConsent}
    {locked : ℤ} (h : w.clock ≤ locked) :
    (Action.recordReveal matchId userId consent locked locked).Enabled w where
  ordered := trivial
  start span hspan := by
    obtain rfl := Option.some.inj hspan
    exact ⟨h, le_rfl⟩
  captured := nofun
  fresh := nofun

theorem valid_bothReveal (banned : Bool) : reveals.Valid unrevealed (bothReveal banned) := by
  obtain ⟨hcreate, _⟩ := valid_bothContinue
  exact ⟨hcreate, enabled_environment _, enabled_recordReveal (by decide), enabled_environment _,
    enabled_recordReveal le_rfl, trivial⟩

theorem reachable_bothReveal (banned : Bool) :
    reveals.Reachable RevealInitial (reveals.exec unrevealed (bothReveal banned)) :=
  ⟨unrevealed, bothReveal banned, revealInitial_unrevealed, valid_bothReveal banned, rfl⟩

theorem photo_reveal_needs_both_bothReveal :
    (reveals.exec unrevealed (bothReveal false)).received = [(2, 7, 1), (1, 7, 1)] ∧
    ∀ u id v, (reveals.exec unrevealed (bothReveal false)).received.count (u, id, v) ≤ 1 :=
  ⟨by decide +kernel, (photo_reveal_needs_both _ (reachable_bothReveal false)).2.1⟩

/-- A banned participant gets no notice of a reveal. -/
theorem banned_participant_unnoticed :
    ¬ ∀ s, reveals.Reachable RevealInitial s → ∀ m ∈ s.base.db.matchInit, ∀ u,
      m.isParticipant u = true → ∀ v, 1 ≤ v → v ≤ m.photoRevealVersion →
      s.received.count (u, m.id, v) = 1 := by
  intro h
  have hrow : (reveals.exec unrevealed (bothReveal true)).base.db.matchInit.rows.all fun m ↦
      m.isParticipant 2 && decide (1 ≤ m.photoRevealVersion) &&
        decide ((reveals.exec unrevealed (bothReveal true)).received.count (2, m.id, 1) = 0) := by
    decide +kernel
  have hsome : (reveals.exec unrevealed (bothReveal true)).base.db.matchInit.rows.length = 1 := by
    decide +kernel
  obtain ⟨m, hm⟩ := List.length_eq_one_iff.mp hsome
  have hmem : m ∈ (reveals.exec unrevealed (bothReveal true)).base.db.matchInit.rows := by
    rw [hm]
    exact List.mem_singleton_self m
  have hcheck := List.all_eq_true.mp hrow m hmem
  simp only [Bool.and_eq_true, decide_eq_true_eq] at hcheck
  obtain ⟨⟨hparticipant, hversion⟩, hcount⟩ := hcheck
  have hone := h _ (reachable_bothReveal true) m hmem 2 hparticipant 1 le_rfl hversion
  omega

end Examples

end Histae.Matches
