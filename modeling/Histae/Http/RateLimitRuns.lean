import Histae.Http.RateLimit

/-!
# What the rate limiter answers

Both backends keep, for each pair of a name and an identity, the window that
the pair opened last. In memory, the sweep takes entries of windows that have
ended. What remains of a window is cut to milliseconds before it is rounded up
to seconds, so that less than a millisecond beyond whole seconds is lost.
-/

namespace Histae.Http

open Systems Text

section Keys

theorem hexDigit_inj {m n : ℕ} (hm : m < 16) (hn : n < 16) (h : hexDigit m = hexDigit n) : m = n := by
  have hall : ∀ i j : Fin 16, hexDigit i.1 = hexDigit j.1 → i.1 = j.1 := by decide
  exact hall ⟨m, hm⟩ ⟨n, hn⟩ h

theorem hexByte_inj {b b' : UInt8} (h : hexByte b = hexByte b') : b = b' := by
  have hb := b.toNat_lt
  have hb' := b'.toNat_lt
  simp only [hexByte, List.cons.injEq, and_true] at h
  have hhigh := hexDigit_inj (by omega) (by omega) h.1
  have hlow := hexDigit_inj (by omega) (by omega) h.2
  apply UInt8.toNat_inj.mp
  omega

theorem length_hex (bytes : List UInt8) : (bytes.flatMap hexByte).length = 2 * bytes.length := by
  induction bytes with
  | nil => rfl
  | cons b bytes ih =>
      rw [List.flatMap_cons, List.length_append, ih, List.length_cons, hexByte]
      simp only [List.length_cons, List.length_nil]
      omega

theorem hex_inj {bytes bytes' : List UInt8} (h : bytes.flatMap hexByte = bytes'.flatMap hexByte) :
    bytes = bytes' := by
  induction bytes generalizing bytes' with
  | nil =>
      have hlength := congrArg List.length h
      rw [length_hex, length_hex, List.length_nil] at hlength
      exact (List.length_eq_zero_iff.mp (by omega)).symm
  | cons b bytes ih =>
      cases bytes' with
      | nil =>
          have hlength := congrArg List.length h
          rw [length_hex, length_hex, List.length_nil, List.length_cons] at hlength
          omega
      | cons b' bytes' =>
          rw [List.flatMap_cons, List.flatMap_cons] at h
          obtain ⟨hhead, htail⟩ := List.append_inj h rfl
          rw [hexByte_inj hhead, ih htail]

variable (hash : KeyedHash)

/-- No two of the calls have one digest for different inputs. -/
def CollisionFree (calls : List Call) : Prop :=
  ∀ c ∈ calls, ∀ d ∈ calls, hash.digest (hashed c.name c.identity) = hash.digest (hashed d.name d.identity) →
    hashed c.name c.identity = hashed d.name d.identity

instance (calls : List Call) : Decidable (CollisionFree hash calls) :=
  inferInstanceAs (Decidable (∀ c ∈ calls, ∀ d ∈ calls, _ → _))

def Call.key (c : Call) : StorageKey := storageKey hash c.name c.identity

variable {hash} {calls calls' : List Call} {c d : Call}

theorem CollisionFree.subset (h : CollisionFree hash calls) (hsub : calls' ⊆ calls) :
    CollisionFree hash calls' := fun c hc d hd ↦ h c (hsub hc) d (hsub hd)

/-- A key shows its name, and the digest under it the identity. -/
theorem CollisionFree.pair_eq (h : CollisionFree hash calls) (hc : c ∈ calls) (hd : d ∈ calls)
    (hkey : c.key hash = d.key hash) : c.pair = d.pair := by
  have hlength : ∀ e : Call, ((hash.digest (hashed e.name e.identity)).flatMap hexByte).length = 64 := by
    intro e
    rw [length_hex, hash.length_digest]
  have hrest : c.name ++ 58 :: (hash.digest (hashed c.name c.identity)).flatMap hexByte =
      d.name ++ 58 :: (hash.digest (hashed d.name d.identity)).flatMap hexByte := by
    rw [Call.key, Call.key, storageKey, storageKey, List.append_assoc, List.append_assoc] at hkey
    exact List.append_cancel_left hkey
  obtain ⟨hname, hdigest⟩ := List.append_inj' hrest (by
    rw [List.length_cons, List.length_cons, hlength, hlength])
  have hinput := h c hc d hd (hex_inj (List.cons_inj_right 58 |>.mp hdigest))
  rw [hashed, hashed, hname] at hinput
  have hidentity := (List.cons_inj_right 58).mp (List.append_cancel_left hinput)
  rw [Call.pair, Call.pair, hname, hidentity]

theorem Call.key_eq_of_pair (h : c.pair = d.pair) : c.key hash = d.key hash := by
  obtain ⟨hname, hidentity⟩ := Prod.mk.inj h
  rw [Call.key, Call.key, hname, hidentity]

end Keys

section Rule

variable {policies : List UInt8 → LimitPolicy} {before : List Call} {c : Call}
  {pair : List UInt8 × List UInt8}

theorem LimitPolicy.window_pos' (policy : LimitPolicy) : 0 < policy.window := by
  have hpos := policy.window_pos
  rw [LimitPolicy.window]
  omega

/-- The window in which a call falls. -/
def callWindow (policies : List UInt8 → LimitPolicy) (before : List Call) (c : Call) : Window :=
  Window.next (policies c.name).window (ownWindow policies c.pair before) c.at_

theorem ownWindow_concat_self :
    ownWindow policies c.pair (before ++ [c]) = some (callWindow policies before c) := by
  rw [ownWindow, ownInstants, List.filter_append, List.map_append]
  have hself : (([c].filter fun d ↦ d.pair = c.pair).map Call.at_) = [c.at_] := by simp
  rw [hself, lastWindow_concat]
  rfl

theorem ownWindow_concat_ne (h : c.pair ≠ pair) :
    ownWindow policies pair (before ++ [c]) = ownWindow policies pair before := by
  have hnone : ([c].filter fun d ↦ d.pair = pair) = [] := by simp [h]
  rw [ownWindow, ownInstants, List.filter_append, hnone, List.append_nil]
  rfl

theorem ownWindow_filter :
    ownWindow policies pair (before.filter fun d ↦ d.pair = pair) = ownWindow policies pair before := by
  rw [ownWindow, ownInstants, List.filter_filter]
  simp only [Bool.and_self]
  rfl

theorem ownWindow_append_of_ne {more : List Call} (h : ∀ d ∈ more, d.pair ≠ pair) :
    ownWindow policies pair (before ++ more) = ownWindow policies pair before := by
  have hnone : (more.filter fun d ↦ d.pair = pair) = [] := by
    rw [List.filter_eq_nil_iff]
    intro d hd
    simpa using h d hd
  rw [ownWindow, ownInstants, List.filter_append, hnone, List.append_nil]
  rfl

theorem ownWindow_start_le {w : Window} {now : ℕ} (h : ownWindow policies pair before = some w)
    (hlatest : ∀ d ∈ before, d.at_ ≤ now) : w.start ≤ now := by
  obtain ⟨d, hd, heq⟩ := List.mem_map.mp (lastWindow_start_mem h)
  rw [← heq]
  exact hlatest d (List.mem_of_mem_filter hd)

theorem ownWindow_count_le {w : Window} (h : ownWindow policies pair before = some w) :
    w.count ≤ before.length := by
  have hcount := lastWindow_count_le h
  rw [ownInstants, List.length_map] at hcount
  exact hcount.trans (List.length_filter_le _ _)

end Rule

section Memory

/-- An entry stands for the window of its pair, or has been swept after it. -/
inductive Mirrors (width latest : ℕ) : Option MemoryEntry → Option Window → Prop
  | absent : Mirrors width latest none none
  | swept (w : Window) (hend : w.start + width ≤ latest) : Mirrors width latest none (some w)
  | kept (w : Window) :
      Mirrors width latest (some ⟨min w.count u64Max, w.start + width⟩) (some w)

variable {width latest now : ℕ} {entry : Option MemoryEntry} {open_ : Option Window}

theorem Mirrors.mono (h : Mirrors width latest entry open_) (hle : latest ≤ now) :
    Mirrors width now entry open_ := by
  cases h with
  | absent => exact .absent
  | swept w hend => exact .swept w (hend.trans hle)
  | kept w => exact .kept w

theorem Mirrors.sweep (h : Mirrors width now entry open_) :
    Mirrors width now (entry.filter fun e ↦ now < e.expiresAt) open_ := by
  cases h with
  | absent => exact .absent
  | swept w hend => exact .swept w hend
  | kept w =>
      by_cases hend : w.start + width ≤ now
      · rw [Option.filter_some_neg (by simpa using hend)]
        exact .swept w hend
      · rw [Option.filter_some_pos (by simpa using hend)]
        exact .kept w

theorem Mirrors.counted (h : Mirrors width now entry open_) :
    MemoryEntry.counted entry width now =
      ⟨min (Window.next width open_ now).count u64Max, (Window.next width open_ now).start + width⟩ := by
  have hone : min 1 u64Max = 1 := by decide
  cases h with
  | absent => simp [MemoryEntry.counted, Window.next]
  | swept w hend => simp [MemoryEntry.counted, Window.next, hend]
  | kept w =>
      by_cases hend : w.start + width ≤ now
      · simp [MemoryEntry.counted, Window.next, hend]
      · simp only [MemoryEntry.counted, Window.next, hend, Option.getD_some, if_false,
          MemoryEntry.mk.injEq, and_true]
        omega

variable {hash : KeyedHash} {policies : List UInt8 → LimitPolicy} {all before : List Call} {c : Call}

theorem MemoryState.entries_sweep (state : MemoryState) (now : ℕ) (key : StorageKey) :
    (state.sweep now).entries key = state.entries key ∨
      (state.sweep now).entries key = (state.entries key).filter fun e ↦ now < e.expiresAt := by
  rw [MemoryState.sweep]
  split_ifs with hdue
  · exact Or.inr rfl
  · exact Or.inl rfl

theorem memoryState_concat :
    memoryState hash policies (before ++ [c]) =
      (enforceMemory hash policies (memoryState hash policies before) c).1 := by
  rw [memoryState, List.foldl_append]
  rfl

/-- The clean-up in the middle of other windows leaves every entry what it stands for. -/
theorem mirrors_memoryState (hfree : CollisionFree hash all) (hsub : before ⊆ all)
    (hsorted : before.Pairwise fun c d ↦ c.at_ ≤ d.at_) {now : ℕ}
    (hlatest : ∀ c ∈ before, c.at_ ≤ now) {d : Call} (hd : d ∈ all) :
    Mirrors (policies d.name).window now ((memoryState hash policies before).entries (d.key hash))
      (ownWindow policies d.pair before) := by
  induction before using List.reverseRecOn generalizing now d with
  | nil => exact .absent
  | append_singleton before c ih =>
      obtain ⟨hbefore, _, hcross⟩ := List.pairwise_append.mp hsorted
      have hc : c ∈ all := hsub (List.mem_append_right _ (List.mem_singleton_self c))
      have hnow : c.at_ ≤ now := hlatest c (List.mem_append_right _ (List.mem_singleton_self c))
      have hold : ∀ e ∈ all, Mirrors (policies e.name).window c.at_
          (((memoryState hash policies before).sweep c.at_).entries (e.key hash))
          (ownWindow policies e.pair before) := by
        intro e he
        have hmirrors := ih (List.append_subset.mp hsub).1 hbefore
          (fun b hb ↦ hcross b hb c (List.mem_singleton_self c)) he
        rcases MemoryState.entries_sweep (memoryState hash policies before) c.at_ (e.key hash) with
          hsame | hswept
        · rw [hsame]
          exact hmirrors
        · rw [hswept]
          exact hmirrors.sweep
      rw [memoryState_concat]
      refine Mirrors.mono ?_ hnow
      simp only [enforceMemory, memoryIncrement]
      by_cases hpair : c.pair = d.pair
      · have hkey : d.key hash = storageKey hash c.name c.identity := Call.key_eq_of_pair hpair.symm
        have hname : d.name = c.name := (Prod.mk.inj hpair).1.symm
        have hcounted := (hold c hc).counted
        rw [hkey, Function.update_self, ← hpair, ownWindow_concat_self, hname]
        rw [Call.key] at hcounted
        rw [hcounted]
        exact .kept _
      · have hkey : d.key hash ≠ storageKey hash c.name c.identity :=
          fun h ↦ hpair (hfree.pair_eq hc hd h.symm)
        rw [Function.update_of_ne hkey, ownWindow_concat_ne hpair]
        exact hold d hd

/-- What is left of the window of a call. -/
def remaining (policies : List UInt8 → LimitPolicy) (before : List Call) (c : Call) : ℕ :=
  (callWindow policies before c).start + (policies c.name).window - c.at_

theorem memoryAnswer_eq (hfree : CollisionFree hash (before ++ [c]))
    (hsorted : (before ++ [c]).Pairwise fun c d ↦ c.at_ ≤ d.at_) :
    memoryAnswer hash policies before c = answer c.errorCode
      (if Admitted policies before c then none
        else some (min (remaining policies before c / 1000000) i64Max : ℕ)) := by
  obtain ⟨hbefore, _, hcross⟩ := List.pairwise_append.mp hsorted
  have hmirrors : Mirrors (policies c.name).window c.at_
      ((memoryState hash policies before).entries (c.key hash))
      (ownWindow policies c.pair before) :=
    mirrors_memoryState hfree (List.subset_append_left before [c]) hbefore
    (fun b hb ↦ hcross b hb c (List.mem_singleton_self c))
    (List.mem_append_right before (List.mem_singleton_self c))
  have hswept : Mirrors (policies c.name).window c.at_
      (((memoryState hash policies before).sweep c.at_).entries (c.key hash))
      (ownWindow policies c.pair before) := by
    rcases MemoryState.entries_sweep (memoryState hash policies before) c.at_ (c.key hash) with
      hsame | hswept
    · rw [hsame]
      exact hmirrors
    · rw [hswept]
      exact hmirrors.sweep
  have hcounted := hswept.counted
  have hmax : (policies c.name).max < u64Max := (policies c.name).max_le.trans_lt (by decide)
  have hle : min (callWindow policies before c).count u64Max ≤ (policies c.name).max ↔
      Admitted policies before c := by
    rw [Admitted, ← callWindow]
    omega
  rw [Call.key] at hcounted
  rw [← callWindow] at hcounted
  simp only [memoryAnswer, enforceMemory, memoryIncrement, hcounted, MemoryEntry.refusal, hle]
  rfl

theorem answer_eq_ok {errorCode : String} {retryAfter : Option ℤ} :
    answer errorCode retryAfter = .ok () ↔ retryAfter = none := by
  cases retryAfter with
  | none => exact iff_of_true rfl rfl
  | some milliseconds => exact iff_of_false (by intro h; cases h) (by intro h; cases h)

theorem memoryAnswer_eq_ok (hfree : CollisionFree hash (before ++ [c]))
    (hsorted : (before ++ [c]).Pairwise fun c d ↦ c.at_ ≤ d.at_) :
    memoryAnswer hash policies before c = .ok () ↔ Admitted policies before c := by
  rw [memoryAnswer_eq hfree hsorted, answer_eq_ok]
  split_ifs with h
  · exact iff_of_true rfl h
  · exact iff_of_false (by intro hnone; cases hnone) h

theorem memoryAnswer_filter (hfree : CollisionFree hash (before ++ [c]))
    (hsorted : (before ++ [c]).Pairwise fun c d ↦ c.at_ ≤ d.at_) :
    memoryAnswer hash policies (before.filter fun d ↦ d.pair = c.pair) c =
      memoryAnswer hash policies before c := by
  have hsublist : ((before.filter fun d ↦ d.pair = c.pair) ++ [c]).Sublist (before ++ [c]) :=
    List.filter_sublist.append (List.Sublist.refl [c])
  have hwindow : callWindow policies (before.filter fun d ↦ d.pair = c.pair) c =
      callWindow policies before c := by
    rw [callWindow, ownWindow_filter]
    rfl
  have hadmitted : Admitted policies (before.filter fun d ↦ d.pair = c.pair) c ↔
      Admitted policies before c := by
    rw [Admitted, ← callWindow, hwindow]
    rfl
  rw [memoryAnswer_eq hfree hsorted,
    memoryAnswer_eq (hfree.subset hsublist.subset) (hsorted.sublist hsublist)]
  simp only [hadmitted, remaining, hwindow]

end Memory

section Redis

variable {hash : KeyedHash} {policies : List UInt8 → LimitPolicy} {server : RedisServer}
  {all before calls : List Call} {c : Call}

def WholeMillis (calls : List Call) : Prop := ∀ c ∈ calls, c.at_ % 1000000 = 0

instance (calls : List Call) : Decidable (WholeMillis calls) :=
  inferInstanceAs (Decidable (∀ c ∈ calls, c.at_ % 1000000 = 0))

/-- No call comes at the very instant at which the window of its pair ends. -/
def OffDeadlines (policies : List UInt8 → LimitPolicy) (calls : List Call) : Prop :=
  ∀ before c, before ++ [c] <+: calls → ∀ w, ownWindow policies c.pair before = some w →
    c.at_ ≠ w.start + (policies c.name).window

/-- The key of a pair holds its window. -/
def redisEntry (policy : LimitPolicy) (open_ : Option Window) : Option RedisEntry :=
  open_.map fun w ↦ ⟨w.count, some (w.start / 1000000 + policy.windowMillis)⟩

theorem redisState_concat :
    redisState hash policies server (before ++ [c]) =
      (enforceRedis hash policies server (redisState hash policies server before) c).1 := by
  rw [redisState, List.foldl_append]
  rfl

/-- A key is served exactly as long as the window in memory is open. -/
theorem serves_redisEntry {policy : LimitPolicy} {w : Window} {at_ : ℕ}
    (hstart : w.start % 1000000 = 0) (hat : at_ % 1000000 = 0)
    (hserver : server.servesAtDeadline = false ∨ at_ ≠ w.start + policy.window) :
    server.serves (at_ / 1000000) ⟨w.count, some (w.start / 1000000 + policy.windowMillis)⟩ = true ↔
      ¬ w.start + policy.window ≤ at_ := by
  rw [LimitPolicy.window] at hserver ⊢
  simp only [RedisServer.serves, Option.all_some, Bool.or_eq_true, decide_eq_true_eq,
    Bool.and_eq_true]
  rcases hserver with hserver | hserver
  · rw [hserver]
    simp only [Bool.false_eq_true, false_and, or_false]
    omega
  · omega

theorem Window.next_start_mod {width t : ℕ} {open_ : Option Window} (ht : t % 1000000 = 0)
    (hopen : ∀ w ∈ open_, w.start % 1000000 = 0) : (Window.next width open_ t).start % 1000000 = 0 := by
  cases open_ with
  | none => exact ht
  | some w =>
      rw [Window.next]
      split_ifs with hend
      · exact ht
      · exact hopen w rfl

theorem Window.next_count_pos {width t : ℕ} {open_ : Option Window} :
    0 < (Window.next width open_ t).count := by
  cases open_ with
  | none => exact Nat.one_pos
  | some w =>
      rw [Window.next]
      split_ifs with hend
      · exact Nat.one_pos
      · exact Nat.succ_pos _

theorem ownWindow_start_mod {pair : List UInt8 × List UInt8} {w : Window} (hwhole : WholeMillis before)
    (h : ownWindow policies pair before = some w) : w.start % 1000000 = 0 := by
  obtain ⟨d, hd, heq⟩ := List.mem_map.mp (lastWindow_start_mem h)
  rw [← heq]
  exact hwhole d (List.mem_of_mem_filter hd)

theorem ownWindow_count_pos {pair : List UInt8 × List UInt8} {w : Window}
    (h : ownWindow policies pair before = some w) : 0 < w.count := by
  induction before using List.reverseRecOn with
  | nil => cases h
  | append_singleton before c ih =>
      by_cases hpair : c.pair = pair
      · subst hpair
        rw [ownWindow_concat_self, Option.some.injEq] at h
        rw [← h]
        exact Window.next_count_pos
      · rw [ownWindow_concat_ne hpair] at h
        exact ih h

theorem fixedWindowScript_fresh {keys : Keyspace} {key : StorageKey} {millis now : ℕ}
    (hlookup : server.lookup keys key now = none) (hmillis : 0 < millis) :
    ∃ ttl, fixedWindowScript server keys key millis now =
      some (Function.update keys key (some ⟨1, some (now + millis)⟩), ⟨1, ttl⟩) := by
  have hincr : server.incr keys key now = some (Function.update keys key (some ⟨1, none⟩), 1) := by
    rw [RedisServer.incr, hlookup]
    rfl
  have hserved : server.lookup (Function.update keys key (some ⟨1, none⟩)) key now =
      some ⟨1, none⟩ := by
    rw [RedisServer.lookup, Function.update_self]
    rfl
  have hpexpire : server.pexpire (Function.update keys key (some ⟨1, none⟩)) key millis now =
      Function.update keys key (some ⟨1, some (now + millis)⟩) := by
    rw [RedisServer.pexpire, hserved]
    simp only [Nat.ne_of_gt hmillis, if_false, Function.update_idem]
  refine ⟨server.pttl (Function.update keys key (some ⟨1, some (now + millis)⟩)) key now, ?_⟩
  rw [fixedWindowScript, hincr, Option.map_some]
  simp only [if_true, hpexpire]

theorem fixedWindowScript_served {keys : Keyspace} {key : StorageKey} {millis now : ℕ}
    {entry : RedisEntry} (hlookup : server.lookup keys key now = some entry)
    (hpos : 0 < entry.value) (hroom : entry.value < i64Max) :
    ∃ ttl, fixedWindowScript server keys key millis now =
      some (Function.update keys key (some { entry with value := entry.value + 1 }),
        ⟨entry.value + 1, ttl⟩) := by
  have hincr : server.incr keys key now =
      some (Function.update keys key (some { entry with value := entry.value + 1 }),
        entry.value + 1) := by
    rw [RedisServer.incr, hlookup, Option.getD_some, if_neg (not_le.mpr hroom)]
  have hnot_first : ¬ entry.value + 1 = 1 := by omega
  refine ⟨server.pttl (Function.update keys key (some { entry with value := entry.value + 1 })) key now, ?_⟩
  rw [fixedWindowScript, hincr, Option.map_some]
  simp only [hnot_first, if_false]

/-- What the script answers and stores, when the key holds the window of the pair. -/
theorem incrementFixedWindow_eq {keys : Keyspace} {key : StorageKey}
    (hkey : keys key = redisEntry (policies c.name) (ownWindow policies c.pair before))
    (hwhole : WholeMillis (before ++ [c])) (hlength : (before ++ [c]).length < 2 ^ 63)
    (hserver : server.servesAtDeadline = false ∨ ∀ w, ownWindow policies c.pair before = some w →
      c.at_ ≠ w.start + (policies c.name).window) :
    ∃ ttl, incrementFixedWindow server keys key (policies c.name) c.at_ =
      some (Function.update keys key
        (redisEntry (policies c.name) (some (callWindow policies before c))),
        ⟨(callWindow policies before c).count, ttl⟩) := by
  have hat : c.at_ % 1000000 = 0 := hwhole c (List.mem_append_right _ (List.mem_singleton_self c))
  have hbefore : WholeMillis before := fun d hd ↦ hwhole d (List.mem_append_left _ hd)
  have hmillis : min (policies c.name).windowMillis u64Max = (policies c.name).windowMillis := by
    have hle := (policies c.name).window_le
    have hlt : (9007199254740991 : ℕ) < u64Max := by decide
    omega
  rw [incrementFixedWindow, hmillis]
  cases hopen : ownWindow policies c.pair before with
  | none =>
      have hlookup : server.lookup keys key (c.at_ / 1000000) = none := by
        rw [RedisServer.lookup, hkey, hopen]
        rfl
      have hwindow : callWindow policies before c = ⟨c.at_, 1⟩ := by
        rw [callWindow, hopen]
        rfl
      rw [hwindow]
      exact fixedWindowScript_fresh hlookup (policies c.name).window_pos
  | some w =>
      have hstart := ownWindow_start_mod hbefore hopen
      have hserves : server.serves (c.at_ / 1000000)
          ⟨w.count, some (w.start / 1000000 + (policies c.name).windowMillis)⟩ = true ↔
            ¬ w.start + (policies c.name).window ≤ c.at_ :=
        serves_redisEntry hstart hat (hserver.imp_right fun h ↦ h w hopen)
      by_cases hend : w.start + (policies c.name).window ≤ c.at_
      · have hlookup : server.lookup keys key (c.at_ / 1000000) = none := by
          rw [RedisServer.lookup, hkey, hopen, redisEntry, Option.map_some, Option.filter_eq_none_iff]
          rintro entry hentry hserved
          obtain rfl := Option.some.inj hentry
          exact hserves.mp hserved hend
        have hwindow : callWindow policies before c = ⟨c.at_, 1⟩ := by
          rw [callWindow, hopen, Window.next, if_pos hend]
        rw [hwindow]
        exact fixedWindowScript_fresh hlookup (policies c.name).window_pos
      · have hlookup : server.lookup keys key (c.at_ / 1000000) =
            some ⟨w.count, some (w.start / 1000000 + (policies c.name).windowMillis)⟩ := by
          rw [RedisServer.lookup, hkey, hopen, redisEntry, Option.map_some]
          exact Option.filter_some_pos (hserves.mpr hend)
        have hwindow : callWindow policies before c = ⟨w.start, w.count + 1⟩ := by
          rw [callWindow, hopen, Window.next, if_neg hend]
        have hcount := ownWindow_count_le hopen
        have hroom : w.count < i64Max := by
          rw [List.length_append, List.length_singleton] at hlength
          rw [i64Max]
          omega
        rw [hwindow]
        exact fixedWindowScript_served hlookup (ownWindow_count_pos hopen) hroom

theorem enforceRedis_eq {keys : Keyspace}
    (hkey : keys (c.key hash) = redisEntry (policies c.name) (ownWindow policies c.pair before))
    (hwhole : WholeMillis (before ++ [c])) (hlength : (before ++ [c]).length < 2 ^ 63)
    (hserver : server.servesAtDeadline = false ∨ ∀ w, ownWindow policies c.pair before = some w →
      c.at_ ≠ w.start + (policies c.name).window) :
    (enforceRedis hash policies server keys c).1 = Function.update keys (c.key hash)
        (redisEntry (policies c.name) (some (callWindow policies before c))) ∧
      ((enforceRedis hash policies server keys c).2 = .ok () ↔ Admitted policies before c) := by
  obtain ⟨ttl, hscript⟩ := incrementFixedWindow_eq hkey hwhole hlength hserver
  rw [Call.key] at hscript
  refine ⟨by simp only [enforceRedis, hscript]; rfl, ?_⟩
  simp only [enforceRedis, hscript, answer_eq_ok]
  rw [Admitted, ← callWindow]
  split_ifs with hmore
  · exact iff_of_false (by intro hnone; cases hnone) (not_le.mpr hmore)
  · exact iff_of_true rfl (not_lt.mp hmore)

/-- In Redis too, the key of a pair holds the window that the pair opened last. -/
theorem redisState_key (hfree : CollisionFree hash all) (hsub : before ⊆ all)
    (hwhole : WholeMillis before) (hlength : before.length < 2 ^ 63)
    (hserver : server.servesAtDeadline = false ∨ OffDeadlines policies before) {d : Call}
    (hd : d ∈ all) :
    redisState hash policies server before (d.key hash) =
      redisEntry (policies d.name) (ownWindow policies d.pair before) := by
  induction before using List.reverseRecOn generalizing d with
  | nil => rfl
  | append_singleton before c ih =>
      have hc : c ∈ all := hsub (List.mem_append_right _ (List.mem_singleton_self c))
      have hshorter : before.length < 2 ^ 63 := by
        rw [List.length_append] at hlength
        omega
      have hold : ∀ e ∈ all, redisState hash policies server before (e.key hash) =
          redisEntry (policies e.name) (ownWindow policies e.pair before) := by
        intro e he
        refine ih (List.append_subset.mp hsub).1 (fun b hb ↦ hwhole b (List.mem_append_left _ hb))
          hshorter (hserver.imp_right fun h b e hstart ↦ ?_) he
        exact h b e (hstart.trans (List.prefix_append before [c]))
      have hstep := enforceRedis_eq (hold c hc) hwhole hlength
        (hserver.imp_right fun h w ↦ h before c (List.prefix_refl _) w)
      rw [redisState_concat, hstep.1]
      by_cases hpair : c.pair = d.pair
      · have hname : d.name = c.name := (Prod.mk.inj hpair).1.symm
        rw [Call.key_eq_of_pair hpair, Function.update_self, ← hpair, ownWindow_concat_self, hname]
      · have hkey : d.key hash ≠ c.key hash := fun h ↦ hpair (hfree.pair_eq hc hd h.symm)
        rw [Function.update_of_ne hkey, ownWindow_concat_ne hpair]
        exact hold d hd

theorem redisAnswer_eq_ok (hfree : CollisionFree hash (before ++ [c]))
    (hwhole : WholeMillis (before ++ [c])) (hlength : (before ++ [c]).length < 2 ^ 63)
    (hserver : server.servesAtDeadline = false ∨ OffDeadlines policies (before ++ [c])) :
    redisAnswer hash policies server before c = .ok () ↔ Admitted policies before c := by
  have hshorter : before.length < 2 ^ 63 := by
    rw [List.length_append] at hlength
    omega
  have hkey : redisState hash policies server before (c.key hash) =
      redisEntry (policies c.name) (ownWindow policies c.pair before) := redisState_key hfree
    (List.subset_append_left before [c]) (fun b hb ↦ hwhole b (List.mem_append_left _ hb)) hshorter
    (hserver.imp_right fun h b e hstart ↦ h b e (hstart.trans (List.prefix_append before [c])))
    (List.mem_append_right before (List.mem_singleton_self c))
  exact (enforceRedis_eq hkey hwhole hlength
    (hserver.imp_right fun h w ↦ h before c (List.prefix_refl _) w)).2

end Redis

section Interval

variable {hash : KeyedHash} {policies : List UInt8 → LimitPolicy} {before rest : List Call}
  {pair : List UInt8 × List UInt8} {a b : ℕ}

/-- A call of the pair between two instants, accepted. -/
def isAcceptedIn (pair : List UInt8 × List UInt8) (a b : ℕ) (x : Call × Except ApiError Unit) : Bool :=
  decide (x.1.pair = pair) && x.2.isOk && decide (a ≤ x.1.at_) && decide (x.1.at_ ≤ b)

theorem isOk_iff {result : Except ApiError Unit} : result.isOk = true ↔ result = .ok () := by
  cases result with
  | ok u => exact iff_of_true rfl rfl
  | error e => exact iff_of_false Bool.false_ne_true (by intro h; cases h)

theorem countP_memoryAnswers (hfree : CollisionFree hash (before ++ rest))
    (hsorted : (before ++ rest).Pairwise fun c d ↦ c.at_ ≤ d.at_) :
    (memoryAnswers hash policies before rest).countP (isAcceptedIn pair a b) =
      (admissions (policies pair.1).window (policies pair.1).max (ownWindow policies pair before)
        (ownInstants pair rest)).countP (admittedIn a b) := by
  induction rest generalizing before with
  | nil => rfl
  | cons c rest ih =>
      have hsplit : before ++ c :: rest = before ++ [c] ++ rest := by
        rw [List.append_assoc, List.singleton_append]
      rw [hsplit] at hfree hsorted
      have hstart : (before ++ [c]).Sublist (before ++ [c] ++ rest) := List.sublist_append_left _ _
      have hok : memoryAnswer hash policies before c = .ok () ↔ Admitted policies before c :=
        memoryAnswer_eq_ok (hfree.subset hstart.subset) (hsorted.sublist hstart)
      rw [memoryAnswers, List.countP_cons, ih hfree hsorted]
      by_cases hpair : c.pair = pair
      · subst hpair
        have hinstants : ownInstants c.pair (c :: rest) = c.at_ :: ownInstants c.pair rest := by
          rw [ownInstants, List.filter_cons_of_pos (by simp)]
          rfl
        have hsame : isAcceptedIn c.pair a b (c, memoryAnswer hash policies before c) =
            admittedIn a b (c.at_, decide ((callWindow policies before c).count ≤ (policies c.name).max)) := by
          rw [Bool.eq_iff_iff]
          simp only [isAcceptedIn, admittedIn, decide_true, Bool.true_and, Bool.and_eq_true, isOk_iff,
            decide_eq_true_eq, hok]
          rfl
        rw [hinstants, admissions, List.countP_cons, ownWindow_concat_self, hsame]
        rfl
      · have hinstants : ownInstants pair (c :: rest) = ownInstants pair rest := by
          rw [ownInstants, List.filter_cons_of_neg (by simpa using hpair)]
          rfl
        have hother : isAcceptedIn pair a b (c, memoryAnswer hash policies before c) = false := by
          simp [isAcceptedIn, hpair]
        rw [hinstants, ownWindow_concat_ne hpair, hother]
        simp

theorem accepted_le (hfree : CollisionFree hash rest)
    (hsorted : rest.Pairwise fun c d ↦ c.at_ ≤ d.at_) (hb : b ≤ a + (policies pair.1).window) :
    (memoryAnswers hash policies [] rest).countP (isAcceptedIn pair a b) ≤
      2 * (policies pair.1).max := by
  have hcount : (memoryAnswers hash policies [] rest).countP (isAcceptedIn pair a b) =
      (admissions (policies pair.1).window (policies pair.1).max none
        (ownInstants pair rest)).countP (admittedIn a b) :=
    countP_memoryAnswers hfree hsorted
  rw [hcount]
  apply countP_admissions_le (policies pair.1).window_pos' hb
  exact List.pairwise_map.mpr (hsorted.filter _)

end Interval

section RetryAfter

variable {hash : KeyedHash} {policies : List UInt8 → LimitPolicy} {before mid : List Call} {c d : Call}
  {e : ApiError} {s : ℕ}

/-- Cut to milliseconds and rounded up to seconds, the duration is not shortened. -/
def RoundsUp (nanoseconds : ℕ) : Prop :=
  nanoseconds < 1000000000 ∨ nanoseconds % 1000000000 = 0 ∨ 1000000 ≤ nanoseconds % 1000000000

instance (nanoseconds : ℕ) : Decidable (RoundsUp nanoseconds) :=
  inferInstanceAs (Decidable (_ ∨ _ ∨ _))

theorem le_retryAfterSeconds_iff {nanoseconds : ℕ} :
    nanoseconds ≤ retryAfterSeconds (nanoseconds / 1000000 : ℕ) * 1000000000 ↔
      RoundsUp nanoseconds := by
  have hmax : (max ((nanoseconds / 1000000 : ℕ) : ℤ) 1).toNat = max (nanoseconds / 1000000) 1 := by
    omega
  rw [retryAfterSeconds, hmax, RoundsUp]
  omega

theorem callWindow_start_le (hsorted : (before ++ [c]).Pairwise fun c d ↦ c.at_ ≤ d.at_) :
    (callWindow policies before c).start ≤ c.at_ := by
  obtain ⟨_, _, hcross⟩ := List.pairwise_append.mp hsorted
  exact Window.start_next_le fun w hw ↦
    ownWindow_start_le hw fun b hb ↦ hcross b hb c (List.mem_singleton_self c)

theorem lt_callWindow_end : c.at_ < (callWindow policies before c).start + (policies c.name).window :=
  Window.lt_end_next (policies c.name).window_pos'

/-- A refused call carries the rest of its window. -/
theorem retryAfter_of_refused (hfree : CollisionFree hash (before ++ [c]))
    (hsorted : (before ++ [c]).Pairwise fun c d ↦ c.at_ ≤ d.at_)
    (hrefused : memoryAnswer hash policies before c = .error e) (hs : e.retryAfter = some s) :
    ¬ Admitted policies before c ∧
      s = retryAfterSeconds (remaining policies before c / 1000000 : ℕ) := by
  rw [memoryAnswer_eq hfree hsorted] at hrefused
  split_ifs at hrefused with hadmitted
  · cases hrefused
  · have hstart : (callWindow policies before c).start ≤ c.at_ := callWindow_start_le hsorted
    have hwindow := (policies c.name).window_le
    have hlimit : (9007199254740991 : ℕ) < i64Max := by decide
    have hmin : min (remaining policies before c / 1000000) i64Max =
        remaining policies before c / 1000000 := by
      have hwidth : (policies c.name).window = (policies c.name).windowMillis * 1000000 := rfl
      rw [remaining]
      omega
    rw [hmin] at hrefused
    obtain rfl := Except.error.inj hrefused
    exact ⟨hadmitted, (Option.some.inj hs).symm⟩

/-- The next call of the pair is accepted once the window has ended. -/
theorem admitted_after_refusal (hrefused : ¬ Admitted policies before c)
    (hmax : 1 ≤ (policies c.name).max) (hmid : ∀ b ∈ mid, b.pair ≠ c.pair) (hpair : d.pair = c.pair) :
    Admitted policies (before ++ c :: mid) d ↔
      (callWindow policies before c).start + (policies c.name).window ≤ d.at_ := by
  have hname : d.name = c.name := (Prod.mk.inj hpair).1
  have hopen : ownWindow policies d.pair (before ++ c :: mid) = some (callWindow policies before c) := by
    have hsplit : before ++ c :: mid = before ++ [c] ++ mid := by
      rw [List.append_assoc, List.singleton_append]
    rw [hsplit, hpair, ownWindow_append_of_ne hmid, ownWindow_concat_self]
  rw [Admitted, hopen, hname, Window.next]
  rw [Admitted, ← callWindow] at hrefused
  split_ifs with hend
  · exact iff_of_true hmax hend
  · refine iff_of_false ?_ hend
    simp only
    omega

/-- The same request later. -/
def Call.again (c : Call) (at_ : ℕ) : Call := { c with at_ := at_ }

theorem CollisionFree.again {at_ : ℕ} (h : CollisionFree hash (before ++ [c])) :
    CollisionFree hash (before ++ [c] ++ [c.again at_]) := by
  have hstored : ∀ x ∈ before ++ [c] ++ [c.again at_],
      ∃ y ∈ before ++ [c], y.name = x.name ∧ y.identity = x.identity := by
    intro x hx
    rcases List.mem_append.mp hx with hx | hx
    · exact ⟨x, hx, rfl, rfl⟩
    · obtain rfl := List.mem_singleton.mp hx
      exact ⟨c, List.mem_append_right _ (List.mem_singleton_self c), rfl, rfl⟩
  intro x hx y hy hdigest
  obtain ⟨x', hx', hxname, hxidentity⟩ := hstored x hx
  obtain ⟨y', hy', hyname, hyidentity⟩ := hstored y hy
  have hsame := h x' hx' y' hy'
  rw [hxname, hxidentity, hyname, hyidentity] at hsame
  exact hsame hdigest

theorem pairwise_again {at_ : ℕ} (h : (before ++ [c]).Pairwise fun c d ↦ c.at_ ≤ d.at_)
    (hle : c.at_ ≤ at_) :
    (before ++ [c] ++ [c.again at_]).Pairwise fun c d ↦ c.at_ ≤ d.at_ := by
  obtain ⟨_, _, hcross⟩ := List.pairwise_append.mp h
  refine List.pairwise_append.mpr ⟨h, List.pairwise_singleton _ _, ?_⟩
  intro x hx y hy
  obtain rfl := List.mem_singleton.mp hy
  rcases List.mem_append.mp hx with hx | hx
  · exact (hcross x hx c (List.mem_singleton_self c)).trans hle
  · obtain rfl := List.mem_singleton.mp hx
    exact hle

/-- Waiting as long as a refusal says is enough, exactly when what is left of
the window survives the rounding. -/
theorem accepted_after_wait_iff (hfree : CollisionFree hash (before ++ [c]))
    (hsorted : (before ++ [c]).Pairwise fun c d ↦ c.at_ ≤ d.at_)
    (hrefused : memoryAnswer hash policies before c = .error e) (hs : e.retryAfter = some s)
    (hmax : 1 ≤ (policies c.name).max) :
    (∀ mid d, CollisionFree hash (before ++ c :: mid ++ [d]) →
      (before ++ c :: mid ++ [d]).Pairwise (fun c d ↦ c.at_ ≤ d.at_) →
      (∀ b ∈ mid, b.pair ≠ c.pair) → d.pair = c.pair → c.at_ + s * 1000000000 ≤ d.at_ →
      memoryAnswer hash policies (before ++ c :: mid) d = .ok ()) ↔
    RoundsUp (remaining policies before c) := by
  obtain ⟨hnot, hseconds⟩ := retryAfter_of_refused hfree hsorted hrefused hs
  have hend : c.at_ < (callWindow policies before c).start + (policies c.name).window :=
    lt_callWindow_end
  have hcovers : remaining policies before c ≤
      retryAfterSeconds (remaining policies before c / 1000000 : ℕ) * 1000000000 ↔
        RoundsUp (remaining policies before c) := le_retryAfterSeconds_iff
  rw [← hseconds] at hcovers
  rw [← hcovers, remaining]
  constructor
  · intro h
    obtain ⟨at_, hat⟩ : ∃ at_, at_ = c.at_ + s * 1000000000 := ⟨_, rfl⟩
    have hfreeAt : CollisionFree hash (before ++ [c] ++ [c.again at_]) := hfree.again
    have hsortedAt := pairwise_again hsorted (hat ▸ Nat.le_add_right c.at_ (s * 1000000000))
    have hnone : ∀ b ∈ ([] : List Call), b.pair ≠ c.pair := fun _ hb ↦ absurd hb List.not_mem_nil
    have hpair : (c.again at_).pair = c.pair := rfl
    have hanswer := h [] (c.again at_) hfreeAt hsortedAt hnone hpair hat.ge
    have hadmitted := (memoryAnswer_eq_ok hfreeAt hsortedAt).mp hanswer
    have hpassed : (callWindow policies before c).start + (policies c.name).window ≤ at_ :=
      (admitted_after_refusal hnot hmax hnone hpair).mp hadmitted
    omega
  · intro hle mid d hfreeAt hsortedAt hmid hpair hwaited
    rw [memoryAnswer_eq_ok hfreeAt hsortedAt, admitted_after_refusal hnot hmax hmid hpair]
    omega

end RetryAfter

section Limiter

variable (hash : KeyedHash) (policies : List UInt8 → LimitPolicy) (server : RedisServer)

theorem rate_limiter_is_fixed_window (calls : List Call) (hfree : CollisionFree hash calls)
    (hsorted : calls.Pairwise fun c d ↦ c.at_ ≤ d.at_) :
    (∀ before c, before ++ [c] <+: calls →
      (memoryAnswer hash policies before c = .ok () ↔ Admitted policies before c) ∧
      memoryAnswer hash policies (before.filter fun d ↦ d.pair = c.pair) c =
        memoryAnswer hash policies before c) ∧
    (WholeMillis calls → calls.length < 2 ^ 63 →
      server.servesAtDeadline = false ∨ OffDeadlines policies calls →
      ∀ before c, before ++ [c] <+: calls →
        (redisAnswer hash policies server before c = .ok () ↔
          memoryAnswer hash policies before c = .ok ())) ∧
    (∀ pair a b, b ≤ a + (policies pair.1).window →
      (memoryAnswers hash policies [] calls).countP (isAcceptedIn pair a b) ≤
        2 * (policies pair.1).max) ∧
    ∀ before c e s, before ++ [c] <+: calls → memoryAnswer hash policies before c = .error e →
      e.retryAfter = some s → 1 ≤ (policies c.name).max →
      ((∀ mid d, CollisionFree hash (before ++ c :: mid ++ [d]) →
        (before ++ c :: mid ++ [d]).Pairwise (fun c d ↦ c.at_ ≤ d.at_) →
        (∀ b ∈ mid, b.pair ≠ c.pair) → d.pair = c.pair → c.at_ + s * 1000000000 ≤ d.at_ →
        memoryAnswer hash policies (before ++ c :: mid) d = .ok ()) ↔
      RoundsUp (remaining policies before c)) := by
  have hfreeAt : ∀ {before c}, before ++ [c] <+: calls → CollisionFree hash (before ++ [c]) :=
    fun hstart ↦ hfree.subset hstart.subset
  have hsortedAt : ∀ {before : List Call} {c : Call}, before ++ [c] <+: calls →
      (before ++ [c]).Pairwise fun (c d : Call) ↦ c.at_ ≤ d.at_ :=
    fun hstart ↦ hsorted.sublist hstart.sublist
  refine ⟨?_, ?_, ?_, ?_⟩
  · intro before c hstart
    exact ⟨memoryAnswer_eq_ok (hfreeAt hstart) (hsortedAt hstart),
      memoryAnswer_filter (hfreeAt hstart) (hsortedAt hstart)⟩
  · intro hwhole hlength hserver before c hstart
    rw [memoryAnswer_eq_ok (hfreeAt hstart) (hsortedAt hstart)]
    exact redisAnswer_eq_ok (hfreeAt hstart) (fun d hd ↦ hwhole d (hstart.subset hd))
      (hstart.length_le.trans_lt hlength)
      (hserver.imp_right fun h b e hinner ↦ h b e (hinner.trans hstart))
  · intro pair a b hb
    exact accepted_le hfree hsorted hb
  · intro before c e s hstart hrefused hs hmax
    exact accepted_after_wait_iff (hfreeAt hstart) (hsortedAt hstart) hrefused hs hmax

end Limiter

section Instances

def exampleHash : KeyedHash := ⟨fun _ ↦ List.replicate 32 0, fun _ ↦ rfl⟩

/-- One call in two seconds. -/
def examplePolicy : LimitPolicy := ⟨1, 2000, by decide, by decide, by decide⟩

def exampleCall (at_ : ℕ) : Call := ⟨[109], [117], "message_rate_limit_exceeded", at_⟩

/-- One and a half seconds are left, and two are announced. -/
theorem rate_limiter_is_fixed_window_halfSecond :
    memoryAnswer exampleHash (fun _ ↦ examplePolicy) [exampleCall 0, exampleCall 500000000]
        (exampleCall 2500000000) = .ok () ∧
      (redisAnswer exampleHash (fun _ ↦ examplePolicy) ⟨true⟩
          [exampleCall 0, exampleCall 500000000] (exampleCall 2500000000) = .ok () ↔
        memoryAnswer exampleHash (fun _ ↦ examplePolicy) [exampleCall 0, exampleCall 500000000]
          (exampleCall 2500000000) = .ok ()) := by
  have hstart : [exampleCall 0, exampleCall 500000000] ++ [exampleCall 2500000000] <+:
      [exampleCall 0, exampleCall 500000000, exampleCall 2500000000] := List.prefix_refl _
  have hoff : OffDeadlines (fun _ ↦ examplePolicy)
      [exampleCall 0, exampleCall 500000000, exampleCall 2500000000] := by
    intro before c hbefore w hopen
    obtain ⟨after, hafter⟩ := hbefore
    rcases before with - | ⟨_, - | ⟨_, - | ⟨_, before⟩⟩⟩
    · cases hopen
    · simp only [List.cons_append, List.nil_append, List.cons.injEq] at hafter
      obtain ⟨rfl, rfl, _⟩ := hafter
      revert w
      decide
    · simp only [List.cons_append, List.nil_append, List.cons.injEq] at hafter
      obtain ⟨rfl, rfl, rfl, _⟩ := hafter
      revert w
      decide
    · have hlength := congrArg List.length hafter
      simp at hlength
  obtain ⟨hrule, hredis, _, hwait⟩ := rate_limiter_is_fixed_window exampleHash
    (fun _ ↦ examplePolicy) ⟨true⟩ [exampleCall 0, exampleCall 500000000, exampleCall 2500000000]
    (by decide) (by decide)
  have hrefused : ∃ e, memoryAnswer exampleHash (fun _ ↦ examplePolicy) [exampleCall 0]
      (exampleCall 500000000) = .error e ∧ e.retryAfter = some 2 := ⟨_, rfl, by decide⟩
  obtain ⟨e, herror, hs⟩ := hrefused
  have haccepted := (hwait [exampleCall 0] (exampleCall 500000000) e 2 ⟨_, rfl⟩ herror hs
    (by decide)).mpr (by decide) [] (exampleCall 2500000000) (by decide) (by decide) (by decide) rfl
    (by decide)
  exact ⟨haccepted, hredis (by decide) (by decide) (Or.inr hoff) _ _ hstart⟩

/-- A call that comes one second and half a millisecond before the window ends
is told to wait one second, and is then refused again. -/
theorem retryAfter_one_second_too_short :
    ∃ e, memoryAnswer exampleHash (fun _ ↦ examplePolicy) [exampleCall 0] (exampleCall 999500000) =
        .error e ∧ e.retryAfter = some 1 ∧
      memoryAnswer exampleHash (fun _ ↦ examplePolicy) [exampleCall 0, exampleCall 999500000]
        (exampleCall (999500000 + 1 * 1000000000)) ≠ .ok () := by
  refine ⟨_, rfl, by decide, ?_⟩
  intro h
  cases h

end Instances

end Histae.Http
