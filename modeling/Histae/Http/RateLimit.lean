import Histae.Systems.FixedWindow
import Histae.Text.Json

/-!
# The rate limiter

`enforce` counts a call under the name of the limit and a digest of the
identity. In memory, an entry carries its count and the instant at which it
expires; every 256 operations the expired entries of all keys are dropped.
With Redis, a script increments a key and gives it a time to live when it has
just appeared. Instants are nanoseconds of the process clock, text is UTF-8.
-/

namespace Histae.Http

open Systems Text

/-- The policies that `limit` and `duration` admit, and those without any call. -/
structure LimitPolicy where
  max : ℕ
  windowMillis : ℕ
  max_le : max ≤ 9007199254740991
  window_pos : 0 < windowMillis
  window_le : windowMillis ≤ 9007199254740991

def LimitPolicy.window (policy : LimitPolicy) : ℕ := policy.windowMillis * 1000000

structure ApiError where
  status : ℕ
  code : String
  message : String
  retryAfter : Option ℕ
  deriving DecidableEq

def u64Max : ℕ := 2 ^ 64 - 1

def i64Max : ℕ := 2 ^ 63 - 1

def unavailable : ApiError where
  status := 503
  code := "rate_limit_unavailable"
  message := "Request protection is temporarily unavailable."
  retryAfter := none

section StorageKey

abbrev StorageKey := List UInt8

def hexByte (b : UInt8) : List UInt8 := [hexDigit (b.toNat / 16), hexDigit (b.toNat % 16)]

/-- HMAC-SHA256 under the key of the limiter. -/
structure KeyedHash where
  digest : List UInt8 → List UInt8
  length_digest : ∀ input, (digest input).length = 32

def hashed (name identity : List UInt8) : List UInt8 := name ++ 58 :: identity

def storageKey (hash : KeyedHash) (name identity : List UInt8) : StorageKey :=
  utf8 "histae:rate-limit:".toList ++ name ++ 58 ::
    (hash.digest (hashed name identity)).flatMap hexByte

end StorageKey

section Memory

structure MemoryEntry where
  count : ℕ
  expiresAt : ℕ
  deriving DecidableEq

structure MemoryState where
  entries : StorageKey → Option MemoryEntry
  operationsSinceSweep : ℕ

def MemoryState.default : MemoryState := ⟨fun _ ↦ none, 0⟩

def MemoryState.sweep (state : MemoryState) (now : ℕ) : MemoryState :=
  if 256 ≤ state.operationsSinceSweep + 1 then
    ⟨fun key ↦ (state.entries key).filter fun entry ↦ now < entry.expiresAt, 0⟩
  else { state with operationsSinceSweep := state.operationsSinceSweep + 1 }

/-- The entry once the call is counted in it. -/
def MemoryEntry.counted (stored : Option MemoryEntry) (window now : ℕ) : MemoryEntry :=
  let entry := stored.getD ⟨0, now + window⟩
  let entry := if entry.expiresAt ≤ now then ⟨0, now + window⟩ else entry
  { entry with count := min (entry.count + 1) u64Max }

/-- The milliseconds left in the window, when the call is one too many. -/
def MemoryEntry.refusal (entry : MemoryEntry) (policy : LimitPolicy) (now : ℕ) : Option ℤ :=
  if entry.count ≤ policy.max then none
  else some (min ((entry.expiresAt - now) / 1000000) i64Max : ℕ)

def memoryIncrement (state : MemoryState) (key : StorageKey) (policy : LimitPolicy) (now : ℕ) :
    MemoryState × Option ℤ :=
  let state := state.sweep now
  let entry := MemoryEntry.counted (state.entries key) policy.window now
  ({ state with entries := Function.update state.entries key (some entry) },
    entry.refusal policy now)

end Memory

section Redis

/-- A key of the server, with the millisecond until which it lives. -/
structure RedisEntry where
  value : ℕ
  deadline : Option ℕ

abbrev Keyspace := StorageKey → Option RedisEntry

/-- A key is served until its deadline and no longer after it. At the very
millisecond of the deadline, either may be the case. -/
structure RedisServer where
  servesAtDeadline : Bool

variable (server : RedisServer)

def RedisServer.serves (now : ℕ) (entry : RedisEntry) : Bool :=
  entry.deadline.all fun deadline ↦
    now < deadline || (server.servesAtDeadline && decide (now = deadline))

def RedisServer.lookup (keys : Keyspace) (key : StorageKey) (now : ℕ) : Option RedisEntry :=
  (keys key).filter (server.serves now)

/-- Counters of the server are signed 64-bit integers. -/
def RedisServer.incr (keys : Keyspace) (key : StorageKey) (now : ℕ) : Option (Keyspace × ℕ) :=
  let entry := (server.lookup keys key now).getD ⟨0, none⟩
  if i64Max ≤ entry.value then none
  else some (Function.update keys key (some { entry with value := entry.value + 1 }), entry.value + 1)

def RedisServer.pexpire (keys : Keyspace) (key : StorageKey) (millis now : ℕ) : Keyspace :=
  match server.lookup keys key now with
  | none => keys
  | some entry =>
      if millis = 0 then Function.update keys key none
      else Function.update keys key (some { entry with deadline := some (now + millis) })

def RedisServer.pttl (keys : Keyspace) (key : StorageKey) (now : ℕ) : ℤ :=
  match server.lookup keys key now with
  | none => -2
  | some entry =>
      match entry.deadline with
      | none => -1
      | some deadline => (deadline - now : ℕ)

structure FixedWindowIncrement where
  count : ℕ
  ttlMillis : ℤ

/-- `FIXED_WINDOW_SCRIPT`. -/
def fixedWindowScript (keys : Keyspace) (key : StorageKey) (millis now : ℕ) :
    Option (Keyspace × FixedWindowIncrement) :=
  (server.incr keys key now).map fun (keys, current) ↦
    let keys := if current = 1 then server.pexpire keys key millis now else keys
    (keys, ⟨current, server.pttl keys key now⟩)

def incrementFixedWindow (keys : Keyspace) (key : StorageKey) (policy : LimitPolicy) (now : ℕ) :
    Option (Keyspace × FixedWindowIncrement) :=
  fixedWindowScript server keys key (min policy.windowMillis u64Max) (now / 1000000)

end Redis

section Enforce

structure Call where
  name : List UInt8
  identity : List UInt8
  errorCode : String
  at_ : ℕ

def Call.pair (c : Call) : List UInt8 × List UInt8 := (c.name, c.identity)

def retryAfterSeconds (milliseconds : ℤ) : ℕ :=
  let positive := (max milliseconds 1).toNat
  max ((positive + 999) / 1000) 1

def answer (errorCode : String) (retryAfter : Option ℤ) : Except ApiError Unit :=
  match retryAfter with
  | none => .ok ()
  | some milliseconds => .error
      { status := 429
        code := errorCode
        message := "Too many requests were sent. Please try again later."
        retryAfter := some (retryAfterSeconds milliseconds) }

variable (hash : KeyedHash) (policies : List UInt8 → LimitPolicy)

def enforceMemory (state : MemoryState) (c : Call) : MemoryState × Except ApiError Unit :=
  let incremented :=
    memoryIncrement state (storageKey hash c.name c.identity) (policies c.name) c.at_
  (incremented.1, answer c.errorCode incremented.2)

def enforceRedis (server : RedisServer) (keys : Keyspace) (c : Call) :
    Keyspace × Except ApiError Unit :=
  match incrementFixedWindow server keys (storageKey hash c.name c.identity) (policies c.name) c.at_ with
  | none => (keys, .error unavailable)
  | some (keys, result) =>
      (keys, answer c.errorCode
        (if (policies c.name).max < result.count then some result.ttlMillis else none))

def memoryState (calls : List Call) : MemoryState :=
  calls.foldl (fun state c ↦ (enforceMemory hash policies state c).1) MemoryState.default

def redisState (server : RedisServer) (calls : List Call) : Keyspace :=
  calls.foldl (fun keys c ↦ (enforceRedis hash policies server keys c).1) fun _ ↦ none

/-- The answer to `c` after `before`. -/
def memoryAnswer (before : List Call) (c : Call) : Except ApiError Unit :=
  (enforceMemory hash policies (memoryState hash policies before) c).2

def redisAnswer (server : RedisServer) (before : List Call) (c : Call) : Except ApiError Unit :=
  (enforceRedis hash policies server (redisState hash policies server before) c).2

/-- The calls of a run, each with its answer. -/
def memoryAnswers : List Call → List Call → List (Call × Except ApiError Unit)
  | _, [] => []
  | before, c :: rest =>
      (c, memoryAnswer hash policies before c) :: memoryAnswers (before ++ [c]) rest

end Enforce

section Rule

variable (policies : List UInt8 → LimitPolicy)

/-- The instants of the calls of one pair. -/
def ownInstants (pair : List UInt8 × List UInt8) (calls : List Call) : List ℕ :=
  (calls.filter fun c ↦ c.pair = pair).map Call.at_

/-- The window that the pair opened last. -/
def ownWindow (pair : List UInt8 × List UInt8) (calls : List Call) : Option Window :=
  lastWindow (policies pair.1).window (ownInstants pair calls)

/-- Each pair has its own windows; the first `max` calls of a window are accepted. -/
def Admitted (before : List Call) (c : Call) : Prop :=
  (Window.next (policies c.name).window (ownWindow policies c.pair before) c.at_).count ≤
    (policies c.name).max

instance (before : List Call) (c : Call) : Decidable (Admitted policies before c) :=
  inferInstanceAs (Decidable (_ ≤ _))

end Rule

end Histae.Http
