import Histae.Matches.Cursor
import Histae.Systems.Run
import Histae.Relational.Table

/-!
# Event streams

An event is published to every server instance through Redis, or without Redis
to the instance that emits it. On an instance it passes the connection of the
subscription, the queue of the relay and the ring of the hub, where every
stream reads at its own position. The queue and the ring are bounded: a full
queue drops what arrives, and the ring forgets its oldest event, which a stream
notices when it reads next.
-/

namespace Histae.Notifications

open Relational Systems

variable {δ : Type}

inductive MobileEventType
  | matchCreated
  | matchUpdated
  | matchesInvalidated
  | messageCreated
  | messageRead
  | subscriptionUpdated
  deriving DecidableEq

def MobileEventType.asStr : MobileEventType → String
  | .matchCreated => "match.created"
  | .matchUpdated => "match.updated"
  | .matchesInvalidated => "matches.invalidated"
  | .messageCreated => "message.created"
  | .messageRead => "message.read"
  | .subscriptionUpdated => "subscription.updated"

structure MobileEvent (δ : Type) where
  id : List Char
  userId : List Char
  kind : MobileEventType
  occurredAt : List Char
  data : List (List Char × δ)
  deriving DecidableEq

/-- The texts of identifiers and instants, and of whole events. -/
structure EventCodec (δ : Type) where
  hyphenated : Uuid → List Char
  toRfc3339 : ℤ → List Char
  toString : MobileEvent δ → Option (List Char)
  fromStr : List Char → Option (MobileEvent δ)

structure EventCodec.Lawful (c : EventCodec δ) : Prop where
  hyphenated_injective : Function.Injective c.hyphenated
  hyphenated_ne_nil : ∀ id, c.hyphenated id ≠ []
  toRfc3339_ne_nil : ∀ now, c.toRfc3339 now ≠ []
  fromStr : ∀ event, ∃ text, c.toString event = some text ∧ c.fromStr text = some event

def parseEvent (c : EventCodec δ) (value : List Char) : Option (MobileEvent δ) :=
  (c.fromStr value).filter fun event ↦
    event.id ≠ [] && event.userId ≠ [] && event.occurredAt ≠ []

/-- What `emit` publishes to one recipient. -/
structure Emission (δ : Type) where
  userId : Uuid
  id : Uuid
  kind : MobileEventType
  now : ℤ
  data : List (List Char × δ)
  deriving DecidableEq

def Emission.event (c : EventCodec δ) (e : Emission δ) : MobileEvent δ where
  id := c.hyphenated e.id
  userId := c.hyphenated e.userId
  kind := e.kind
  occurredAt := c.toRfc3339 e.now
  data := e.data

def broadcastCapacity : ℕ := 128

def redisRelayCapacity : ℕ := 256

inductive Received (δ : Type)
  | empty
  | lagged
  | event (event : MobileEvent δ)

/-- `recv` of a receiver that has read the first `next` events of the ring. -/
def recv (sent : List (MobileEvent δ)) (next : ℕ) : Received δ :=
  if broadcastCapacity < sent.length - next then .lagged
  else
    match sent[next]? with
    | none => .empty
    | some event => .event event

inductive StreamItem (δ : Type)
  | connected
  | heartbeat
  | mobile (event : MobileEvent δ)
  deriving DecidableEq

def StreamItem.event? : StreamItem δ → Option (MobileEvent δ)
  | .mobile event => some event
  | _ => none

/-- An open stream and what it has written, with the instants. The last three
fields are kept for the statements: how many events had been published when the
stream subscribed, which of them were on their way to its hub, and when its
access token expires. -/
structure StreamState (δ : Type) where
  id : ℕ
  hub : ℕ
  userId : Uuid
  expiry : ℕ
  connected : Bool
  next : ℕ
  written : List (ℕ × StreamItem δ)
  since : ℕ
  ahead : List (MobileEvent δ)
  access : ℕ

namespace StreamState

variable (t : StreamState δ)

def write (now : ℕ) (item : StreamItem δ) : StreamState δ :=
  { t with written := t.written ++ [(now, item)] }

def events : List (MobileEvent δ) := t.written.filterMap fun w ↦ w.2.event?

/-- One round of the loop of a stream, `none` when the stream ends. `check` is
the answer of the session check when it is due. -/
def poll (c : EventCodec δ) (sent : List (MobileEvent δ)) (now : ℕ) (check : Option Bool)
    (beat : Bool) : Option (StreamState δ) :=
  if t.connected = false then some { t.write now .connected with connected := true }
  else if t.expiry ≤ now then none
  else
    match check with
    | some false => none
    | some true => some t
    | none =>
        if beat then some (t.write now .heartbeat)
        else
          match recv sent t.next with
          | .empty => some t
          | .lagged => none
          | .event event =>
              if event.userId = c.hyphenated t.userId then
                some { t.write now (.mobile event) with next := t.next + 1 }
              else some { t with next := t.next + 1 }

end StreamState

/-- A server instance: the connection of its subscription, the queue of its
relay and everything its hub has sent. -/
structure Hub (δ : Type) where
  id : ℕ
  stopping : Bool
  subscribed : Bool
  socket : List (List Char)
  queue : List (List Char)
  sent : List (MobileEvent δ)

namespace Hub

variable (h : Hub δ)

def start (id : ℕ) (redis : Bool) : Hub δ := ⟨id, false, redis, [], [], []⟩

/-- A message of the subscription; a full queue drops it. -/
def forward : Hub δ :=
  match h.socket with
  | [] => h
  | message :: socket =>
      if h.queue.length < redisRelayCapacity then
        { h with socket, queue := h.queue ++ [message] }
      else { h with socket }

/-- The end of the subscription; nobody subscribes again. -/
def interrupt : Hub δ := { h with subscribed := false, socket := [] }

def shutdown : Hub δ := { h with stopping := true }

/-- The events on their way to the hub. -/
def underway (c : EventCodec δ) : List (MobileEvent δ) :=
  (h.queue ++ h.socket).filterMap (parseEvent c)

end Hub

/-- The relay hands a message to the hub, or drops what it cannot read. -/
def Hub.relay (c : EventCodec δ) (h : Hub δ) : Hub δ :=
  match h.queue with
  | [] => h
  | message :: queue =>
      match parseEvent c message with
      | some event => { h with queue, sent := h.sent ++ [event] }
      | none => { h with queue }

structure Realtime (δ : Type) where
  clock : ℕ
  published : List (MobileEvent δ)
  hubs : Table (Hub.id : Hub δ → ℕ)
  streams : Table (StreamState.id : StreamState δ → ℕ)

/-- Whether Redis is enabled, and the last instant that the clock can hold. -/
structure RealtimeConfig where
  redis : Bool
  lastInstant : ℕ

def nanosPerSecond : ℕ := 1000000000

/-- The instant of the expiry, or at once when the clock cannot hold it. -/
def RealtimeConfig.expiry (cfg : RealtimeConfig) (now accessExpiresAtSeconds : ℕ) : ℕ :=
  let untilExpiry := accessExpiresAtSeconds * nanosPerSecond - now
  if now + untilExpiry ≤ cfg.lastInstant then now + untilExpiry else now

inductive RealtimeStep (δ : Type)
  | connect (hub : ℕ)
  | publish (hub : ℕ) (emission : Emission δ)
  | forward (hub : ℕ)
  | relay (hub : ℕ)
  | interrupt (hub : ℕ)
  | subscribe (stream hub : ℕ) (userId : Uuid) (access now : ℕ)
  | poll (stream now : ℕ) (check : Option Bool) (beat : Bool)
  | leave (stream : ℕ)
  | shutdown (hub : ℕ)
  | stop (hub : ℕ)

/-- What a publication does to an instance. -/
def Hub.publish (c : EventCodec δ) (cfg : RealtimeConfig) (origin : ℕ) (event : MobileEvent δ)
    (h : Hub δ) : Hub δ :=
  if cfg.redis then
    match c.toString event with
    | some encoded => if h.subscribed then { h with socket := h.socket ++ [encoded] } else h
    | none => h
  else if h.id = origin then { h with sent := h.sent ++ [event] }
  else h

theorem Hub.id_publish (c : EventCodec δ) (cfg : RealtimeConfig) (origin : ℕ)
    (event : MobileEvent δ) (h : Hub δ) : (h.publish c cfg origin event).id = h.id := by
  unfold Hub.publish
  split
  · split
    · split <;> rfl
    · rfl
  · split <;> rfl

theorem Hub.id_forward (h : Hub δ) : h.forward.id = h.id := by
  unfold Hub.forward
  split
  · rfl
  · split <;> rfl

theorem Hub.id_relay (c : EventCodec δ) (h : Hub δ) : (h.relay c).id = h.id := by
  unfold Hub.relay
  split
  · rfl
  · split <;> rfl

namespace Realtime

variable (s : Realtime δ)

def start : Realtime δ := ⟨0, [], ∅, ∅⟩

def modifyHub (id : ℕ) (f : Hub δ → Hub δ) (hf : ∀ h, (f h).id = h.id) : Realtime δ :=
  { s with hubs := s.hubs.modify (fun h ↦ h.id = id) f hf }

def endStream (id : ℕ) : Realtime δ := { s with streams := s.streams.delete fun t ↦ t.id = id }

/-- `event_stream`, with the receiver that `subscribe` has made. -/
def subscribe (c : EventCodec δ) (cfg : RealtimeConfig) (stream : ℕ) (h : Hub δ) (userId : Uuid)
    (access now : ℕ) : Realtime δ :=
  let opened : StreamState δ :=
    { id := stream, hub := h.id, userId, expiry := cfg.expiry now access, connected := false,
      next := h.sent.length, written := [], since := s.published.length, ahead := h.underway c,
      access }
  { s with clock := now, streams := (s.streams.insert? opened).getD s.streams }

def keepStream (t' : StreamState δ) : Realtime δ :=
  { s with
    streams := s.streams.modify (fun t ↦ t.id = t'.id) (fun t ↦ { t' with id := t.id })
      fun _ ↦ rfl }

def poll (c : EventCodec δ) (t : StreamState δ) (h : Hub δ) (now : ℕ) (check : Option Bool)
    (beat : Bool) : Realtime δ :=
  let s := { s with clock := now }
  match if h.stopping then none else t.poll c h.sent now check beat with
  | none => s.endStream t.id
  | some t' => s.keepStream t'

end Realtime

/-- The event streams of all the instances. -/
def realtimeService (c : EventCodec δ) (cfg : RealtimeConfig) :
    System (Realtime δ) (RealtimeStep δ) where
  Enabled s
    | .connect hub => s.hubs.find? hub = none
    | .publish hub _ | .forward hub | .relay hub | .interrupt hub | .shutdown hub | .stop hub =>
        (s.hubs.find? hub).isSome = true
    | .subscribe stream hub _ _ now =>
        (s.hubs.find? hub).isSome = true ∧ s.streams.find? stream = none ∧ s.clock ≤ now
    | .poll stream now _ _ => s.clock ≤ now ∧
        ((s.streams.find? stream).any fun t ↦ (s.hubs.find? t.hub).isSome) = true
    | .leave stream => (s.streams.find? stream).isSome = true
  next s
    | .connect hub => { s with hubs := (s.hubs.insert? (.start hub cfg.redis)).getD s.hubs }
    | .publish hub emission =>
        { s with
          published := s.published ++ [emission.event c]
          hubs := s.hubs.modify (fun _ ↦ true) (Hub.publish c cfg hub (emission.event c))
            (Hub.id_publish c cfg hub (emission.event c)) }
    | .forward hub => s.modifyHub hub Hub.forward Hub.id_forward
    | .relay hub => s.modifyHub hub (Hub.relay c) (Hub.id_relay c)
    | .interrupt hub => s.modifyHub hub Hub.interrupt fun _ ↦ rfl
    | .subscribe stream hub userId access now =>
        match s.hubs.find? hub with
        | none => s
        | some h => s.subscribe c cfg stream h userId access now
    | .poll stream now check beat =>
        match s.streams.find? stream with
        | none => s
        | some t =>
            match s.hubs.find? t.hub with
            | none => s
            | some h => s.poll c t h now check beat
    | .leave stream => s.endStream stream
    | .shutdown hub => s.modifyHub hub Hub.shutdown fun _ ↦ rfl
    | .stop hub =>
        { s with
          hubs := s.hubs.delete fun h ↦ h.id = hub
          streams := s.streams.delete fun t ↦ t.hub = hub }

end Histae.Notifications
