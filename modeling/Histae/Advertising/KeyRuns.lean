import Histae.Advertising.Keys

/-!
# Key downloads

The cache holds what the newest completed download brought, and whoever holds
the gate has started the newest download. So a download that follows another
one closely was started for a key that the other one did not bring, and two
such downloads never follow each other closely.
-/

namespace Histae.Advertising

open Relational Systems

variable {κ : Type}

/-- What is known about a download and the one before it. -/
structure Spaces (newer older : Download κ) : Prop where
  order : older.started ≤ newer.started
  missed : newer.started - older.started < keyRefreshCooldown →
    ∃ p, older.completed = some p ∧ listed p.1 newer.id = none
  alternates : newer.started - older.started < keyRefreshCooldown →
    older.unknown = false ∧ newer.unknown = true

/-- The newest completed download. -/
def latestDownload (downloads : List (Download κ)) : Option (Keys κ × ℤ) :=
  downloads.findSome? Download.completed

structure KeyInvariant (s : KeyService κ) : Prop where
  gate : ∀ c ∈ s.calls, ∀ d ∈ s.calls, c.phase.holdsGate = true → d.phase.holdsGate = true → c = d
  ongoing : ∀ c ∈ s.calls, c.phase.holdsGate = true → c.phase ≠ .granted →
    ∃ d ∈ s.downloads.head?, d.completed = none
  latest : latestDownload s.downloads = s.cache.fetchedAt.map fun at_ ↦ (s.cache.keys, at_)
  fetched : ∀ at_ ∈ s.cache.fetchedAt, at_ ≤ s.clock
  failed : ∀ d ∈ s.downloads.head?, d.completed = none → s.cache.failedAt = some d.started
  marked : ∀ d ∈ s.downloads.head?, d.unknown = true →
    ∃ at_ ∈ s.cache.unknownRefreshAt, d.started ≤ at_
  started : ∀ d ∈ s.downloads.head?, d.started ≤ s.clock ∧ ∀ p ∈ d.completed, d.started ≤ p.2
  spaced : s.downloads.IsChain Spaces

section Steps

variable {s : KeyService κ} {a : KeyStep κ} {call : KeyCall κ}

theorem keyInvariant_idle (clock : ℤ) : KeyInvariant (KeyService.idle clock : KeyService κ) where
  gate c hc := absurd hc (Table.notMem_empty c)
  ongoing c hc := absurd hc (Table.notMem_empty c)
  latest := rfl
  fetched := nofun
  failed := nofun
  marked := nofun
  started := nofun
  spaced := List.isChain_nil

/-- Fewer calls, or calls that do not hold the gate, at a later instant. -/
theorem KeyInvariant.wait (h : KeyInvariant s) {now : ℤ} (hclock : s.clock ≤ now)
    {calls : Table (KeyCall.callId : KeyCall κ → ℕ)} {answers : List (KeyAnswer κ)}
    (hcalls : ∀ c ∈ calls, c ∈ s.calls ∨ c.phase.holdsGate = false) :
    KeyInvariant { s with clock := now, calls, answers } where
  gate c hc d hd hcgate hdgate := by
    rcases hcalls c hc with hc | hc
    · rcases hcalls d hd with hd | hd
      · exact h.gate c hc d hd hcgate hdgate
      · rw [hdgate] at hd
        cases hd
    · rw [hcgate] at hc
      cases hc
  ongoing c hc hgate hgranted := by
    rcases hcalls c hc with hc | hc
    · exact h.ongoing c hc hgate hgranted
    · rw [hgate] at hc
      cases hc
  latest := h.latest
  fetched at_ hat := (h.fetched at_ hat).trans hclock
  failed := h.failed
  marked := h.marked
  started d hd := ⟨(h.started d hd).1.trans hclock, (h.started d hd).2⟩
  spaced := h.spaced

theorem mem_leave {c : KeyCall κ} {callId : ℕ} : c ∈ s.leave callId ↔ c ∈ s.calls ∧ c.callId ≠ callId := by
  unfold KeyService.leave
  rw [Table.mem_delete]
  simp

theorem mem_move (hcall : call ∈ s.calls) {phase : KeyPhase κ} {c : KeyCall κ} :
    c ∈ s.move call.callId phase ↔ c = call.withPhase phase ∨ c ∈ s.calls ∧ c.callId ≠ call.callId :=
  Table.mem_modify_key (f := KeyCall.withPhase phase) (fun _ ↦ rfl) hcall

/-- The call that holds the gate moves on; no other call holds it. -/
theorem KeyInvariant.others (h : KeyInvariant s) (hcall : call ∈ s.calls)
    (hgate : call.phase.holdsGate = true) :
    ∀ c ∈ s.calls, c.callId ≠ call.callId → c.phase.holdsGate = false := by
  intro c hc hne
  by_contra hholds
  exact hne (congrArg KeyCall.callId (h.gate c hc call hcall (by simpa using hholds) hgate))

theorem gate_of_others {calls : Table (KeyCall.callId : KeyCall κ → ℕ)} (holder : KeyCall κ)
    (h : ∀ c ∈ calls, c = holder ∨ c.phase.holdsGate = false) :
    ∀ c ∈ calls, ∀ d ∈ calls, c.phase.holdsGate = true → d.phase.holdsGate = true → c = d := by
  intro c hc d hd hcgate hdgate
  rcases h c hc with rfl | hc'
  · rcases h d hd with rfl | hd'
    · rfl
    · rw [hdgate] at hd'
      cases hd'
  · rw [hcgate] at hc'
    cases hc'

/-- What the readings under the lock have excluded when a download starts. -/
structure Refreshes (cache : KeyCache κ) (id : UInt64) (r : CheckReadings) (unknown : Bool) :
    Prop where
  stale : elapsedBelow keyCacheTtl r.key cache.fetchedAt = true → listed cache.keys id = none
  cooled : elapsedBelow keyRefreshCooldown r.failed cache.failedAt = false
  unlisted : unknown = (listed cache.keys id).isNone
  rare : elapsedBelow keyCacheTtl r.fetched cache.fetchedAt = true → unknown = true →
    elapsedBelow keyRefreshCooldown r.unknown cache.unknownRefreshAt = false

theorem refreshes_of_check {cache : KeyCache κ} {id : UInt64} {r : CheckReadings} {unknown : Bool}
    (h : cache.check id r = .refresh unknown) : Refreshes cache id r unknown := by
  unfold KeyCache.check at h
  split at h
  · cases h
  · rename_i hkey
    split at h
    · cases h
    · rename_i hcooled
      dsimp only at h
      split at h
      · cases h
      · rename_i hrare
        obtain rfl := Checked.refresh.inj h
        refine ⟨fun hfresh ↦ ?_, by simpa using hcooled, rfl, fun hfresh hunknown ↦ ?_⟩
        · unfold KeyCache.freshKey at hkey
          rwa [if_pos hfresh] at hkey
        · rw [hfresh, hunknown] at hrare
          simpa using hrare

theorem elapsedBelow_some {bound now at_ : ℤ} :
    elapsedBelow bound now (some at_) = true ↔ now - at_ < bound := by
  simp [elapsedBelow]

/-- A download that follows the newest one closely. -/
theorem KeyInvariant.spaces (h : KeyInvariant s) {id : UInt64} {r : CheckReadings} {unknown : Bool}
    (hclock : s.clock ≤ r.key) (hordered : r.Ordered) (hrefreshes : Refreshes s.cache id r unknown)
    {d : Download κ} (hd : d ∈ s.downloads.head?) : Spaces ⟨r.started, id, unknown, none⟩ d := by
  have hfailed := hordered.failed
  have hfetched := hordered.fetched
  have hunknown := hordered.unknown
  have hstarted := hordered.started
  obtain ⟨hbefore, hcompletes⟩ := h.started d hd
  have httl : keyRefreshCooldown ≤ keyCacheTtl := by decide
  have hclose : r.started - d.started < keyRefreshCooldown →
      (∃ p, d.completed = some p ∧ listed p.1 id = none) ∧ d.unknown = false ∧ unknown = true := by
    intro hclose
    cases hcompleted : d.completed with
    | none =>
        have hcooled := hrefreshes.cooled
        rw [h.failed d hd hcompleted] at hcooled
        have hnot := mt elapsedBelow_some.mpr (Bool.eq_false_iff.mp hcooled)
        omega
    | some p =>
        have hlatest : some p = s.cache.fetchedAt.map fun at_ ↦ (s.cache.keys, at_) := by
          rw [← h.latest, ← hcompleted]
          unfold latestDownload
          cases hlist : s.downloads with
          | nil => rw [hlist] at hd; cases hd
          | cons e rest =>
              rw [hlist] at hd
              obtain rfl := Option.some.inj hd
              rw [List.findSome?_cons, hcompleted]
        cases hat : s.cache.fetchedAt with
        | none => rw [hat] at hlatest; cases hlatest
        | some at_ =>
            rw [hat] at hlatest
            obtain rfl := Option.some.inj hlatest
            have hfinished : d.started ≤ at_ := hcompletes _ hcompleted
            have hfresh {now : ℤ} (hnow : now ≤ r.started) :
                elapsedBelow keyCacheTtl now s.cache.fetchedAt = true := by
              rw [hat]
              exact elapsedBelow_some.mpr (by omega)
            have hmissed := hrefreshes.stale (hfresh (by omega))
            have hisunknown : unknown = true := by
              rw [hrefreshes.unlisted, hmissed]
              rfl
            refine ⟨⟨_, rfl, hmissed⟩, ?_, hisunknown⟩
            by_contra hmarked
            obtain ⟨mark, hmark, hle⟩ := h.marked d hd (by simpa using hmarked)
            have hrare := hrefreshes.rare (hfresh (by omega)) hisunknown
            rw [Option.mem_def.mp hmark] at hrare
            have hnot := mt elapsedBelow_some.mpr (Bool.eq_false_iff.mp hrare)
            omega
  exact ⟨by dsimp only; omega, fun hlt ↦ (hclose hlt).1, fun hlt ↦ (hclose hlt).2⟩

theorem mem_completed {keys : Keys κ} {now : ℤ} {d : Download κ}
    (hd : d ∈ (s.completed keys now).head?) :
    ∃ e ∈ s.downloads.head?, d = { e with completed := some (keys, now) } := by
  unfold KeyService.completed at hd
  cases hlist : s.downloads with
  | nil => rw [hlist] at hd; cases hd
  | cons e rest =>
      rw [hlist] at hd
      exact ⟨e, rfl, (Option.some.inj hd).symm⟩

theorem KeyInvariant.next (h : KeyInvariant s) (henabled : (keyService κ).Enabled s a) :
    KeyInvariant ((keyService κ).next s a) := by
  have heffect := effect_of_enabled henabled
  generalize (keyService κ).next s a = s' at heffect
  cases heffect with
  | called callId id calls hinsert =>
      refine h.wait (le_refl _) fun c hc ↦ ?_
      rcases (Table.mem_insert hinsert).mp hc with rfl | hc
      · exact Or.inr rfl
      · exact Or.inl hc
  | ticked now hclock => exact h.wait hclock fun c hc ↦ Or.inl hc
  | answered a call now result ha hcall hclock hkey =>
      exact h.wait hclock fun c hc ↦ Or.inl (mem_leave.mp hc).1
  | left callId call => exact h.wait (le_refl _) fun c hc ↦ Or.inl (mem_leave.mp hc).1
  | waited a call now phase ha hcall hclock hphase =>
      refine h.wait hclock fun c hc ↦ ?_
      rcases (mem_move hcall).mp hc with rfl | ⟨hc, _⟩
      · exact Or.inr hphase
      · exact Or.inl hc
  | granted callId call hcall hfree =>
      have hothers : ∀ c ∈ s.move call.callId .granted,
          c = call.withPhase .granted ∨ c.phase.holdsGate = false := by
        intro c hc
        rcases (mem_move hcall).mp hc with rfl | ⟨hc, _⟩
        · exact Or.inl rfl
        · exact Or.inr (hfree c hc)
      exact { h with
        gate := gate_of_others _ hothers
        ongoing := by
          intro c hc hgate hgranted
          rcases hothers c hc with rfl | hno
          · exact absurd rfl hgranted
          · rw [hgate] at hno
            cases hno }
  | refreshed callId call r unknown hcall hphase hclock hordered hcheck =>
      have hgate : call.phase.holdsGate = true := by rw [hphase]; rfl
      have hrefreshes := refreshes_of_check hcheck
      have hfailed := hordered.failed
      have hfetched := hordered.fetched
      have hread := hordered.unknown
      have hstarted := hordered.started
      have hmarked := hordered.marked
      refine ⟨?_, ?_, ?_, ?_, ?_, ?_, ?_, ?_⟩
      · refine gate_of_others (call.withPhase .downloading) fun c hc ↦ ?_
        rcases (mem_move hcall).mp hc with rfl | ⟨hc, hne⟩
        · exact Or.inl rfl
        · exact Or.inr (h.others hcall hgate c hc hne)
      · exact fun c hc _ _ ↦ ⟨_, rfl, rfl⟩
      · exact h.latest
      · intro at_ hat
        have hle := h.fetched at_ hat
        dsimp only
        omega
      · intro d hd _
        obtain rfl := Option.some.inj hd
        rfl
      · intro d hd hunknown
        obtain rfl := Option.some.inj hd
        have hunknown : unknown = true := hunknown
        refine ⟨r.marked, ?_, hmarked⟩
        simp [KeyCache.refreshing, hunknown]
      · intro d hd
        obtain rfl := Option.some.inj hd
        exact ⟨hmarked, nofun⟩
      · exact List.isChain_cons.mpr ⟨fun d hd ↦ h.spaces hclock hordered hrefreshes hd, h.spaced⟩
  | downloaded callId document call keys hcall hphase =>
      have hgate : call.phase.holdsGate = true := by rw [hphase]; rfl
      have hongoing := h.ongoing call hcall hgate (by rw [hphase]; exact nofun)
      exact { h with
        gate := by
          refine gate_of_others (call.withPhase (.downloaded keys)) fun c hc ↦ ?_
          rcases (mem_move hcall).mp hc with rfl | ⟨hc, hne⟩
          · exact Or.inl rfl
          · exact Or.inr (h.others hcall hgate c hc hne)
        ongoing := fun _ _ _ _ ↦ hongoing }
  | installed callId call keys now hcall hphase hclock =>
      have hgate : call.phase.holdsGate = true := by rw [hphase]; rfl
      obtain ⟨d, hd, hpending⟩ := h.ongoing call hcall hgate (by rw [hphase]; exact nofun)
      obtain ⟨rest, hlist⟩ : ∃ rest, s.downloads = d :: rest := by
        cases hlist : s.downloads with
        | nil => rw [hlist] at hd; cases hd
        | cons e rest =>
            rw [hlist] at hd
            exact ⟨rest, by rw [Option.some.inj hd]⟩
      have hcompleted : s.completed keys now = { d with completed := some (keys, now) } :: rest := by
        unfold KeyService.completed
        rw [hlist]
      have hnone : ∀ c ∈ s.leave call.callId, c.phase.holdsGate = false := by
        intro c hc
        obtain ⟨hc, hne⟩ := mem_leave.mp hc
        exact h.others hcall hgate c hc hne
      refine ⟨?_, ?_, ?_, ?_, ?_, ?_, ?_, ?_⟩
      · intro c hc e he hcgate
        rw [hnone c hc] at hcgate
        cases hcgate
      · intro c hc hcgate
        rw [hnone c hc] at hcgate
        cases hcgate
      · change latestDownload (s.completed keys now) = some (keys, now)
        rw [hcompleted]
        rfl
      · intro at_ hat
        exact le_of_eq (Option.some.inj hat).symm
      · intro e he hpending'
        obtain ⟨_, _, rfl⟩ := mem_completed he
        cases hpending'
      · intro e he hunknown
        obtain ⟨f, hf, rfl⟩ := mem_completed he
        exact h.marked f hf hunknown
      · intro e he
        obtain ⟨f, hf, rfl⟩ := mem_completed he
        have hstarted := (h.started f hf).1.trans hclock
        refine ⟨hstarted, fun p hp ↦ ?_⟩
        obtain rfl := Option.some.inj hp
        exact hstarted
      · have hspaced := h.spaced
        rw [hlist] at hspaced
        change (s.completed keys now).IsChain Spaces
        rw [hcompleted]
        obtain ⟨hhead, hrest⟩ := List.isChain_cons.mp hspaced
        refine List.isChain_cons.mpr ⟨fun e he ↦ ?_, hrest⟩
        have hspaces := hhead e he
        exact ⟨hspaces.order, hspaces.missed, hspaces.alternates⟩

theorem keyInvariant_exec {clock : ℤ} {as : List (KeyStep κ)}
    (hvalid : (keyService κ).Valid (.idle clock) as) :
    KeyInvariant ((keyService κ).exec (.idle clock) as) :=
  hvalid.invariant (I := KeyInvariant) (keyInvariant_idle clock) fun _ _ h henabled ↦ h.next henabled

/-- Of three downloads in a row, the last starts a cooldown after the first. -/
theorem far_of_spaces {c d e : Download κ} (h : Spaces c d) (h' : Spaces d e) :
    keyRefreshCooldown ≤ c.started - e.started := by
  have horder := h.order
  have horder' := h'.order
  by_contra hclose
  have hfirst := (h.alternates (by omega)).1
  have hsecond := (h'.alternates (by omega)).2
  rw [hfirst] at hsecond
  cases hsecond

/-- The newest download, the one before and the rest, which are long past. -/
theorem spread {downloads : List (Download κ)} (h : downloads.IsChain Spaces) {c : Download κ}
    (hc : c ∈ downloads.head?) :
    downloads = [c] ∨ ∃ d rest, downloads = c :: d :: rest ∧ Spaces c d ∧ d.started ≤ c.started ∧
      ∀ e ∈ rest, keyRefreshCooldown ≤ c.started - e.started := by
  obtain ⟨tail, rfl⟩ := List.head?_eq_some_iff.mp hc
  cases tail with
  | nil => exact Or.inl rfl
  | cons d rest =>
      obtain ⟨hhead, htail⟩ := List.isChain_cons.mp h
      have hspaces := hhead d rfl
      refine Or.inr ⟨d, rest, rfl, hspaces, hspaces.order, ?_⟩
      cases rest with
      | nil => exact fun e he ↦ absurd he List.not_mem_nil
      | cons e rest =>
          obtain ⟨hhead', htail'⟩ := List.isChain_cons.mp htail
          have hfar := far_of_spaces hspaces (hhead' e rfl)
          have hsorted : (e :: rest).Pairwise fun x y ↦ y.started ≤ x.started := by
            have htrans : IsTrans (Download κ) fun x y ↦ y.started ≤ x.started :=
              ⟨fun _ _ _ hxy hyz ↦ hyz.trans hxy⟩
            exact (htail'.imp fun _ _ hxy ↦ hxy.order).pairwise
          intro f hf
          rcases List.mem_cons.mp hf with rfl | hf
          · exact hfar
          · have hle := (List.pairwise_cons.mp hsorted).1 f hf
            omega

theorem pairwise_missed {downloads : List (Download κ)} (h : downloads.IsChain Spaces) :
    downloads.Pairwise fun newer older ↦ newer.started - older.started < keyRefreshCooldown →
      ∃ p, older.completed = some p ∧ listed p.1 newer.id = none := by
  induction downloads with
  | nil => exact List.Pairwise.nil
  | cons c tail ih =>
      refine List.pairwise_cons.mpr ⟨fun e he hclose ↦ ?_, ih (List.isChain_cons.mp h).2⟩
      rcases spread h (c := c) rfl with hone | ⟨d, rest, hlist, hspaces, _, hfar⟩
      · rw [(List.cons.inj hone).2] at he
        cases he
      · rw [(List.cons.inj hlist).2] at he
        rcases List.mem_cons.mp he with rfl | he
        · exact hspaces.missed hclose
        · have hlong := hfar e he
          omega

theorem withinBudget_downloads {downloads : List (Download κ)} (h : downloads.IsChain Spaces) :
    WithinBudget Download.started keyRefreshCooldown (fun _ ↦ true) 2 downloads := by
  induction downloads with
  | nil => exact withinBudget_nil
  | cons c tail ih =>
      refine (ih (List.isChain_cons.mp h).2).cons ?_ fun _ ↦ ?_
      · intro e he
        rcases spread h (c := c) rfl with hone | ⟨d, rest, hlist, _, horder, hfar⟩
        · rw [(List.cons.inj hone).2] at he
          cases he
        · rw [(List.cons.inj hlist).2] at he
          rcases List.mem_cons.mp he with rfl | he
          · exact horder
          · have hlong := hfar e he
            have hpos : 0 < keyRefreshCooldown := by decide
            omega
      · rcases spread h (c := c) rfl with hone | ⟨d, rest, hlist, _, _, hfar⟩
        · rw [(List.cons.inj hone).2]
          exact Nat.zero_lt_two
        · rw [(List.cons.inj hlist).2, List.countP_cons]
          have hzero : (rest.countP fun e ↦ true && decide (c.started - keyRefreshCooldown < e.started)) =
              0 := by
            rw [List.countP_eq_zero]
            intro e he
            have hlong := hfar e he
            simp
            omega
          rw [hzero]
          split <;> omega

/-- A key that a step hands out is listed in the newest completed download,
which is younger than the lifetime of the cache. -/
theorem KeyInvariant.key (h : KeyInvariant s) (henabled : (keyService κ).Enabled s a)
    {answer : KeyAnswer κ} {key : κ} (hanswers : ((keyService κ).next s a).answers = answer :: s.answers)
    (hkey : answer.result = .ok key) :
    ∃ p ∈ latestDownload ((keyService κ).next s a).downloads, listed p.1 answer.id = some key ∧
      p.2 ≤ answer.at_ ∧ answer.at_ - p.2 < keyCacheTtl := by
  have heffect := effect_of_enabled henabled
  generalize (keyService κ).next s a = s' at heffect hanswers
  cases heffect with
  | called => exact absurd hanswers (List.cons_ne_self _ _).symm
  | ticked => exact absurd hanswers (List.cons_ne_self _ _).symm
  | left => exact absurd hanswers (List.cons_ne_self _ _).symm
  | waited => exact absurd hanswers (List.cons_ne_self _ _).symm
  | granted => exact absurd hanswers (List.cons_ne_self _ _).symm
  | refreshed => exact absurd hanswers (List.cons_ne_self _ _).symm
  | downloaded => exact absurd hanswers (List.cons_ne_self _ _).symm
  | answered a call now result ha hcall hclock hfresh =>
      obtain ⟨rfl, _⟩ := List.cons.inj hanswers
      have hcached := hfresh key hkey
      unfold KeyCache.freshKey at hcached
      split at hcached
      · rename_i helapsed
        change ∃ p ∈ latestDownload s.downloads, _
        rw [h.latest]
        cases hat : s.cache.fetchedAt with
        | none => rw [hat] at helapsed; cases helapsed
        | some at_ =>
            rw [hat, elapsedBelow_some] at helapsed
            exact ⟨_, rfl, hcached, (h.fetched at_ hat).trans hclock, helapsed⟩
      · cases hcached
  | installed callId call keys now hcall hphase hclock =>
      have hgate : call.phase.holdsGate = true := by rw [hphase]; rfl
      obtain ⟨d, hd, _⟩ := h.ongoing call hcall hgate (by rw [hphase]; exact nofun)
      have hlatest : latestDownload (s.completed keys now) = some (keys, now) := by
        unfold KeyService.completed
        cases hlist : s.downloads with
        | nil => rw [hlist] at hd; cases hd
        | cons e rest => rfl
      obtain ⟨rfl, _⟩ := List.cons.inj hanswers
      refine ⟨(keys, now), hlatest, ?_, le_refl _, ?_⟩
      · dsimp only at hkey ⊢
        split at hkey
        · rename_i k hlisted
          rw [hlisted, Except.ok.inj hkey]
        · cases hkey
      · dsimp only
        rw [sub_self]
        decide

/-- Only an installed download changes the keys and their age. -/
theorem cache_kept (henabled : (keyService κ).Enabled s a)
    (ha : ∀ callId now, a ≠ .install callId now) :
    ((keyService κ).next s a).cache.keys = s.cache.keys ∧
      ((keyService κ).next s a).cache.fetchedAt = s.cache.fetchedAt := by
  have heffect := effect_of_enabled henabled
  generalize (keyService κ).next s a = s' at heffect
  cases heffect with
  | installed callId call keys now => exact absurd rfl (ha callId now)
  | _ => exact ⟨rfl, rfl⟩

end Steps

/-- The key cache, over every run. -/
theorem key_cache_never_old (clock : ℤ) (as : List (KeyStep κ))
    (hvalid : (keyService κ).Valid (.idle clock) as) :
    (∀ a answer key, (keyService κ).Enabled ((keyService κ).exec (.idle clock) as) a →
      ((keyService κ).next ((keyService κ).exec (.idle clock) as) a).answers =
        answer :: ((keyService κ).exec (.idle clock) as).answers →
      answer.result = .ok key →
      ∃ p ∈ latestDownload ((keyService κ).next ((keyService κ).exec (.idle clock) as) a).downloads,
        listed p.1 answer.id = some key ∧ p.2 ≤ answer.at_ ∧ answer.at_ - p.2 < keyCacheTtl) ∧
    (∀ c ∈ ((keyService κ).exec (.idle clock) as).calls,
      ∀ d ∈ ((keyService κ).exec (.idle clock) as).calls,
        c.phase.inFlight = true → d.phase.inFlight = true → c = d) ∧
    ((keyService κ).exec (.idle clock) as).downloads.Pairwise (fun newer older ↦
      newer.started - older.started < keyRefreshCooldown →
        ∃ p, older.completed = some p ∧ listed p.1 newer.id = none) ∧
    WithinBudget Download.started keyRefreshCooldown (fun _ ↦ true) 2
      ((keyService κ).exec (.idle clock) as).downloads ∧
    ∀ a, (keyService κ).Enabled ((keyService κ).exec (.idle clock) as) a →
      (∀ callId now, a ≠ .install callId now) →
      ((keyService κ).next ((keyService κ).exec (.idle clock) as) a).cache.keys =
          ((keyService κ).exec (.idle clock) as).cache.keys ∧
        ((keyService κ).next ((keyService κ).exec (.idle clock) as) a).cache.fetchedAt =
          ((keyService κ).exec (.idle clock) as).cache.fetchedAt := by
  have hinvariant := keyInvariant_exec hvalid
  generalize (keyService κ).exec (.idle clock) as = s at hinvariant
  have hgate {phase : KeyPhase κ} (h : phase.inFlight = true) : phase.holdsGate = true := by
    cases phase with
    | downloading => rfl
    | _ => cases h
  exact ⟨fun a answer key henabled hanswers hkey ↦ hinvariant.key henabled hanswers hkey,
    fun c hc d hd hcflight hdflight ↦ hinvariant.gate c hc d hd (hgate hcflight) (hgate hdflight),
    pairwise_missed hinvariant.spaced, withinBudget_downloads hinvariant.spaced,
    fun a henabled ha ↦ cache_kept henabled ha⟩

section Download

def checkedAt (now : ℤ) : CheckReadings := ⟨now, now, now, now, now, now⟩

/-- A call finds the cache empty and downloads one key. -/
def firstDownload : List (KeyStep ℕ) :=
  [.call 1 7, .look 1 0, .enqueue 1, .acquire 1, .check 1 (checkedAt 1), .finish 1 (some [(7, 42)]),
    .install 1 2]

theorem key_cache_never_old_firstDownload :
    ((keyService ℕ).exec (.idle 0) firstDownload).answers.map KeyAnswer.result = [.ok 42] ∧
      WithinBudget Download.started keyRefreshCooldown (fun _ ↦ true) 2
        ((keyService ℕ).exec (.idle 0) firstDownload).downloads := by
  have hvalid : (keyService ℕ).Valid (.idle 0) firstDownload := by
    refine ⟨rfl, ⟨1, _, rfl, rfl, rfl, le_refl _⟩, ⟨1, _, rfl, rfl, rfl⟩, ⟨1, _, rfl, rfl, rfl, ?_⟩,
      ⟨1, _, rfl, rfl, rfl, ?_, ?_⟩, ⟨1, _, rfl, rfl, rfl⟩, ⟨1, _, rfl, rfl, ⟨_, rfl⟩, ?_⟩, trivial⟩
    · decide
    · decide
    · exact ⟨le_refl _, le_refl _, le_refl _, le_refl _, le_refl _⟩
    · decide
  exact ⟨rfl, (key_cache_never_old 0 firstDownload hvalid).2.2.2.1⟩

end Download

end Histae.Advertising
