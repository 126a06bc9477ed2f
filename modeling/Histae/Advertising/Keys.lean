import Histae.Relational.Table
import Histae.Shared.Time
import Histae.Systems.Run
import Histae.Systems.SlidingWindow

/-!
# The verification keys of AdMob

The key cache of `AdMobVerifier` and the calls of `key` in flight. A call looks
into the cache, joins the bounded queue, waits for the gate, decides under the
lock of the cache whether to download, and installs what it has downloaded. It
may be cancelled wherever it waits. The state also records the downloads that
were started, the newest first, and the answers.
-/

namespace Histae.Advertising

open Relational Systems

def keyCacheTtl : ℤ := hours 24

def keyRefreshCooldown : ℤ := seconds 30

def maxKeyRefreshWaiters : ℕ := 32

inductive KeyError
  | unavailable
  | keyIdUnknown
  deriving DecidableEq

section Cache

variable {κ : Type}

abbrev Keys (κ : Type) := Table (Prod.fst : UInt64 × κ → UInt64)

structure KeyCache (κ : Type) where
  keys : Keys κ
  fetchedAt : Option ℤ
  failedAt : Option ℤ
  unknownRefreshAt : Option ℤ

def KeyCache.default : KeyCache κ := ⟨∅, none, none, none⟩

def listed (keys : Keys κ) (id : UInt64) : Option κ := (keys.find? id).map Prod.snd

/-- The instant, if there is one, has elapsed for less than `bound`. -/
def elapsedBelow (bound now : ℤ) (at_ : Option ℤ) : Bool := at_.any fun t ↦ decide (now - t < bound)

def KeyCache.freshKey (cache : KeyCache κ) (id : UInt64) (now : ℤ) : Option κ :=
  if elapsedBelow keyCacheTtl now cache.fetchedAt then listed cache.keys id else none

/-- The readings of the clock under the lock, in their order. -/
structure CheckReadings where
  key : ℤ
  failed : ℤ
  fetched : ℤ
  unknown : ℤ
  started : ℤ
  marked : ℤ

structure CheckReadings.Ordered (r : CheckReadings) : Prop where
  failed : r.key ≤ r.failed
  fetched : r.failed ≤ r.fetched
  unknown : r.fetched ≤ r.unknown
  started : r.unknown ≤ r.started
  marked : r.started ≤ r.marked

/-- An answer, with the last reading taken for it, or a download. -/
inductive Checked (κ : Type)
  | answer (at_ : ℤ) (result : Except KeyError κ)
  | refresh (unknown : Bool)

/-- What `key` decides at the gate. -/
def KeyCache.check (cache : KeyCache κ) (id : UInt64) (r : CheckReadings) : Checked κ :=
  match cache.freshKey id r.key with
  | some key => .answer r.key (.ok key)
  | none =>
      if elapsedBelow keyRefreshCooldown r.failed cache.failedAt then
        .answer r.failed (.error .unavailable)
      else
        let fresh := elapsedBelow keyCacheTtl r.fetched cache.fetchedAt
        let unknown := (listed cache.keys id).isNone
        if fresh && unknown && elapsedBelow keyRefreshCooldown r.unknown cache.unknownRefreshAt then
          .answer r.unknown (.error .keyIdUnknown)
        else .refresh unknown

def KeyCache.refreshing (cache : KeyCache κ) (unknown : Bool) (r : CheckReadings) : KeyCache κ :=
  { cache with
    failedAt := some r.started
    unknownRefreshAt := if unknown then some r.marked else cache.unknownRefreshAt }

def KeyCache.installed (cache : KeyCache κ) (keys : Keys κ) (now : ℤ) : KeyCache κ :=
  { cache with keys, fetchedAt := some now, failedAt := none }

/-- The keys of a document whose entries have all been read: every identifier
once, and at least one. -/
def keysOf (entries : List (UInt64 × κ)) : Option (Keys κ) :=
  (entries.foldlM (fun (keys : Keys κ) entry ↦ keys.insert? entry) ∅).filter
    fun keys ↦ !keys.rows.isEmpty

end Cache

section Calls

variable {κ : Type}

inductive KeyPhase (κ : Type)
  | begun
  | missed
  | queued
  | granted
  | downloading
  | downloaded (keys : Keys κ)

structure KeyCall (κ : Type) where
  callId : ℕ
  id : UInt64
  phase : KeyPhase κ

/-- A download with the instant it was started and the identifier it was
started for, which was `unknown` or in the cache; and what it brought, if its
keys were installed. -/
structure Download (κ : Type) where
  started : ℤ
  id : UInt64
  unknown : Bool
  completed : Option (Keys κ × ℤ)

structure KeyAnswer (κ : Type) where
  id : UInt64
  result : Except KeyError κ
  at_ : ℤ

structure KeyService (κ : Type) where
  cache : KeyCache κ
  clock : ℤ
  calls : Table (KeyCall.callId : KeyCall κ → ℕ)
  downloads : List (Download κ)
  answers : List (KeyAnswer κ)

def KeyService.idle (clock : ℤ) : KeyService κ := ⟨.default, clock, ∅, [], []⟩

inductive KeyStep (κ : Type)
  | call (callId : ℕ) (id : UInt64)
  | look (callId : ℕ) (now : ℤ)
  | enqueue (callId : ℕ)
  | timeout (callId : ℕ)
  | acquire (callId : ℕ)
  | check (callId : ℕ) (r : CheckReadings)
  | finish (callId : ℕ) (document : Option (List (UInt64 × κ)))
  | install (callId : ℕ) (now : ℤ)
  | cancel (callId : ℕ)
  | tick (now : ℤ)

/-- The call holds the permit of the gate. -/
def KeyPhase.holdsGate : KeyPhase κ → Bool
  | .granted | .downloading | .downloaded _ => true
  | _ => false

def KeyPhase.holdsPermit : KeyPhase κ → Bool
  | .queued => true
  | phase => phase.holdsGate

def KeyPhase.inFlight : KeyPhase κ → Bool
  | .downloading => true
  | _ => false

def KeyCall.withPhase (phase : KeyPhase κ) (call : KeyCall κ) : KeyCall κ := { call with phase }

namespace KeyService

variable (s : KeyService κ)

def move (callId : ℕ) (phase : KeyPhase κ) : Table (KeyCall.callId : KeyCall κ → ℕ) :=
  s.calls.modify (fun c ↦ c.callId = callId) (KeyCall.withPhase phase) fun _ ↦ rfl

def leave (callId : ℕ) : Table (KeyCall.callId : KeyCall κ → ℕ) :=
  s.calls.delete fun c ↦ c.callId = callId

def answer (call : KeyCall κ) (now : ℤ) (result : Except KeyError κ) : KeyService κ :=
  { s with
    clock := now
    calls := s.leave call.callId
    answers := ⟨call.id, result, now⟩ :: s.answers }

/-- The newest download has completed. -/
def completed (keys : Keys κ) (now : ℤ) : List (Download κ) :=
  match s.downloads with
  | [] => []
  | d :: rest => { d with completed := some (keys, now) } :: rest

/-- The next stretch of a call without an await. -/
def advance (call : KeyCall κ) : KeyStep κ → KeyService κ
  | .look _ now =>
      match s.cache.freshKey call.id now with
      | some key => s.answer call now (.ok key)
      | none => { s with clock := now, calls := s.move call.callId .missed }
  | .enqueue _ =>
      if s.calls.count (fun c ↦ c.phase.holdsPermit) < maxKeyRefreshWaiters then
        { s with calls := s.move call.callId .queued }
      else s.answer call s.clock (.error .unavailable)
  | .timeout _ => s.answer call s.clock (.error .unavailable)
  | .acquire _ => { s with calls := s.move call.callId .granted }
  | .check _ r =>
      match s.cache.check call.id r with
      | .answer at_ result => s.answer call at_ result
      | .refresh unknown =>
          { s with
            cache := s.cache.refreshing unknown r
            clock := r.marked
            calls := s.move call.callId .downloading
            downloads := ⟨r.started, call.id, unknown, none⟩ :: s.downloads }
  | .finish _ document =>
      match document.bind keysOf with
      | none => s.answer call s.clock (.error .unavailable)
      | some keys => { s with calls := s.move call.callId (.downloaded keys) }
  | .install _ now =>
      match call.phase with
      | .downloaded keys =>
          { s.answer call now
              (match listed keys call.id with
              | some key => .ok key
              | none => .error .keyIdUnknown) with
            cache := s.cache.installed keys now
            downloads := s.completed keys now }
      | _ => s
  | .cancel _ => { s with calls := s.leave call.callId }
  | .call _ _ => s
  | .tick _ => s

end KeyService

def KeyStep.callId : KeyStep κ → Option ℕ
  | .call _ _ | .tick _ => none
  | .look c _ | .enqueue c | .timeout c | .acquire c | .check c _ | .finish c _ | .install c _
  | .cancel c => some c

/-- The step fits the phase of its call, and the clock does not go back. -/
def KeyStep.Fits (s : KeyService κ) (call : KeyCall κ) : KeyStep κ → Prop
  | .look _ now => call.phase = .begun ∧ s.clock ≤ now
  | .enqueue _ => call.phase = .missed
  | .timeout _ => call.phase = .queued
  | .acquire _ => call.phase = .queued ∧ ∀ c ∈ s.calls, c.phase.holdsGate = false
  | .check _ r => call.phase = .granted ∧ s.clock ≤ r.key ∧ r.Ordered
  | .finish _ _ => call.phase = .downloading
  | .install _ now => (∃ keys, call.phase = .downloaded keys) ∧ s.clock ≤ now
  | .cancel _ => True
  | .call _ _ => False
  | .tick _ => False

def KeyStep.Enabled (s : KeyService κ) : KeyStep κ → Prop
  | .call callId _ => s.calls.find? callId = none
  | .tick now => s.clock ≤ now
  | a => ∃ callId call, a.callId = some callId ∧ s.calls.find? callId = some call ∧ a.Fits s call

def KeyService.next (s : KeyService κ) (a : KeyStep κ) : KeyService κ :=
  match a with
  | .call callId id => { s with calls := (s.calls.insert? ⟨callId, id, .begun⟩).getD s.calls }
  | .tick now => { s with clock := now }
  | a =>
      match a.callId.bind s.calls.find? with
      | none => s
      | some call => s.advance call a

def keyService (κ : Type) : System (KeyService κ) (KeyStep κ) := ⟨KeyStep.Enabled, KeyService.next⟩

section Effects

variable {s : KeyService κ} {a : KeyStep κ} {call : KeyCall κ}

/-- Everything a step can do. -/
inductive KeyEffect (s : KeyService κ) : KeyStep κ → KeyService κ → Prop
  | called (callId : ℕ) (id : UInt64) (calls : Table (KeyCall.callId : KeyCall κ → ℕ))
      (hinsert : s.calls.insert? ⟨callId, id, .begun⟩ = some calls) :
      KeyEffect s (.call callId id) { s with calls }
  | ticked (now : ℤ) (hclock : s.clock ≤ now) : KeyEffect s (.tick now) { s with clock := now }
  | answered (a : KeyStep κ) (call : KeyCall κ) (now : ℤ) (result : Except KeyError κ)
      (ha : ∀ callId now, a ≠ .install callId now) (hcall : call ∈ s.calls) (hclock : s.clock ≤ now)
      (hkey : ∀ key, result = .ok key → s.cache.freshKey call.id now = some key) :
      KeyEffect s a (s.answer call now result)
  | left (callId : ℕ) (call : KeyCall κ) :
      KeyEffect s (.cancel callId) { s with calls := s.leave call.callId }
  | waited (a : KeyStep κ) (call : KeyCall κ) (now : ℤ) (phase : KeyPhase κ)
      (ha : ∀ callId now, a ≠ .install callId now) (hcall : call ∈ s.calls) (hclock : s.clock ≤ now)
      (hphase : phase.holdsGate = false) :
      KeyEffect s a { s with clock := now, calls := s.move call.callId phase }
  | granted (callId : ℕ) (call : KeyCall κ) (hcall : call ∈ s.calls)
      (hfree : ∀ c ∈ s.calls, c.phase.holdsGate = false) :
      KeyEffect s (.acquire callId) { s with calls := s.move call.callId .granted }
  | refreshed (callId : ℕ) (call : KeyCall κ) (r : CheckReadings) (unknown : Bool)
      (hcall : call ∈ s.calls) (hphase : call.phase = .granted) (hclock : s.clock ≤ r.key)
      (hordered : r.Ordered) (hcheck : s.cache.check call.id r = .refresh unknown) :
      KeyEffect s (.check callId r)
        { s with
          cache := s.cache.refreshing unknown r
          clock := r.marked
          calls := s.move call.callId .downloading
          downloads := ⟨r.started, call.id, unknown, none⟩ :: s.downloads }
  | downloaded (callId : ℕ) (document : Option (List (UInt64 × κ))) (call : KeyCall κ)
      (keys : Keys κ) (hcall : call ∈ s.calls) (hphase : call.phase = .downloading) :
      KeyEffect s (.finish callId document)
        { s with calls := s.move call.callId (.downloaded keys) }
  | installed (callId : ℕ) (call : KeyCall κ) (keys : Keys κ) (now : ℤ) (hcall : call ∈ s.calls)
      (hphase : call.phase = .downloaded keys) (hclock : s.clock ≤ now) :
      KeyEffect s (.install callId now)
        { s.answer call now
            (match listed keys call.id with
            | some key => .ok key
            | none => .error .keyIdUnknown) with
          cache := s.cache.installed keys now
          downloads := s.completed keys now }

theorem check_answer {cache : KeyCache κ} {id : UInt64} {r : CheckReadings} {at_ : ℤ}
    {result : Except KeyError κ} (h : cache.check id r = .answer at_ result) (hordered : r.Ordered) :
    r.key ≤ at_ ∧ ∀ key, result = .ok key → cache.freshKey id at_ = some key := by
  have hfailed := hordered.failed
  have hfetched := hordered.fetched
  have hunknown := hordered.unknown
  unfold KeyCache.check at h
  split at h
  · rename_i key hfresh
    obtain ⟨rfl, rfl⟩ := Checked.answer.inj h
    refine ⟨le_refl _, fun k hk ↦ ?_⟩
    rw [hfresh, Except.ok.inj hk]
  · split at h
    · obtain ⟨rfl, rfl⟩ := Checked.answer.inj h
      exact ⟨hfailed, nofun⟩
    · dsimp only at h
      split at h
      · obtain ⟨rfl, rfl⟩ := Checked.answer.inj h
        exact ⟨by omega, nofun⟩
      · cases h

theorem effect_advance (hcall : call ∈ s.calls) (hfits : a.Fits s call) :
    KeyEffect s a (s.advance call a) := by
  cases a with
  | call callId id => exact hfits.elim
  | tick now => exact hfits.elim
  | look callId now =>
      unfold KeyService.advance
      dsimp only
      split
      · rename_i key hfresh
        refine .answered _ call now _ nofun hcall hfits.2 fun k hk ↦ ?_
        rw [hfresh, Except.ok.inj hk]
      · exact .waited _ call now .missed nofun hcall hfits.2 rfl
  | enqueue callId =>
      unfold KeyService.advance
      dsimp only
      split
      · exact .waited _ call s.clock .queued nofun hcall (le_refl _) rfl
      · exact .answered _ call s.clock _ nofun hcall (le_refl _) nofun
  | timeout callId => exact .answered _ call s.clock _ nofun hcall (le_refl _) nofun
  | acquire callId => exact .granted callId call hcall hfits.2
  | check callId r =>
      obtain ⟨hphase, hclock, hordered⟩ := hfits
      unfold KeyService.advance
      dsimp only
      split
      · rename_i at_ result hcheck
        obtain ⟨hlate, hkey⟩ := check_answer hcheck hordered
        exact .answered _ call at_ result nofun hcall (hclock.trans hlate) hkey
      · rename_i unknown hcheck
        exact .refreshed callId call r unknown hcall hphase hclock hordered hcheck
  | finish callId document =>
      unfold KeyService.advance
      dsimp only
      split
      · exact .answered _ call s.clock _ nofun hcall (le_refl _) nofun
      · rename_i keys _
        exact .downloaded callId document call keys hcall hfits
  | install callId now =>
      obtain ⟨⟨keys, hphase⟩, hclock⟩ := hfits
      unfold KeyService.advance
      dsimp only
      rw [hphase]
      exact .installed callId call keys now hcall hphase hclock
  | cancel callId => exact .left callId call

theorem effect_of_enabled (h : (keyService κ).Enabled s a) :
    KeyEffect s a ((keyService κ).next s a) := by
  change KeyStep.Enabled s a at h
  change KeyEffect s a (s.next a)
  have hadvance (h : ∃ callId call,
      a.callId = some callId ∧ s.calls.find? callId = some call ∧ a.Fits s call)
      (hnext : s.next a = match a.callId.bind s.calls.find? with
        | none => s
        | some call => s.advance call a) : KeyEffect s a (s.next a) := by
    obtain ⟨callId, call, ha, hfind, hfits⟩ := h
    have hbind : a.callId.bind s.calls.find? = some call := by
      rw [ha]
      exact hfind
    rw [hnext, hbind]
    exact effect_advance (Table.find?_eq_some_iff.mp hfind).1 hfits
  cases a with
  | call callId id =>
      obtain ⟨calls, hinsert⟩ : ∃ calls, s.calls.insert? ⟨callId, id, .begun⟩ = some calls := by
        rw [← Option.ne_none_iff_exists', Ne, Table.insert?_eq_none_iff, not_not]
        exact h
      unfold KeyService.next
      dsimp only
      rw [hinsert]
      exact .called callId id calls hinsert
  | tick now => exact .ticked now h
  | look callId now => exact hadvance h rfl
  | enqueue callId => exact hadvance h rfl
  | timeout callId => exact hadvance h rfl
  | acquire callId => exact hadvance h rfl
  | check callId r => exact hadvance h rfl
  | finish callId document => exact hadvance h rfl
  | install callId now => exact hadvance h rfl
  | cancel callId => exact hadvance h rfl

end Effects

end Calls

end Histae.Advertising
