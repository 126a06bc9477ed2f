import Histae.Notifications.EventStreams

/-!
# What an open stream has written

A stream carries the events of its user only, before its access token expires,
and a stream that has fallen too far behind ends instead of skipping. What it
has written and what is still before it are all the events of its user, as long
as no event of an open stream is dropped on its way to the hub.
-/

namespace Histae.Notifications

open Relational Systems

variable {δ : Type} {c : EventCodec δ} {cfg : RealtimeConfig}

section Parsing

theorem parseEvent_event (hc : c.Lawful) (e : Emission δ) :
    ∃ text, c.toString (e.event c) = some text ∧ parseEvent c text = some (e.event c) := by
  obtain ⟨text, hto, hfrom⟩ := hc.fromStr (e.event c)
  refine ⟨text, hto, ?_⟩
  simp [parseEvent, hfrom, Emission.event, hc.hyphenated_ne_nil, hc.toRfc3339_ne_nil]

end Parsing

section Streams

variable {t t' : StreamState δ} {sent : List (MobileEvent δ)} {now : ℕ} {check : Option Bool}
  {beat : Bool} {event : MobileEvent δ}

/-- The event is for the user of the stream. -/
def StreamState.isFor (c : EventCodec δ) (t : StreamState δ) (event : MobileEvent δ) : Bool :=
  event.userId = c.hyphenated t.userId

theorem recv_eq_event (h : recv sent t.next = .event event) :
    sent[t.next]? = some event ∧ sent.length - t.next ≤ broadcastCapacity := by
  unfold recv at h
  split at h
  · cases h
  · rename_i hlag
    split at h
    · cases h
    · rename_i found hfound
      obtain rfl := Received.event.inj h
      exact ⟨hfound, by omega⟩

/-- What one round leaves as it is. -/
structure SameStream (t t' : StreamState δ) : Prop where
  id : t'.id = t.id
  hub : t'.hub = t.hub
  userId : t'.userId = t.userId
  expiry : t'.expiry = t.expiry
  since : t'.since = t.since
  ahead : t'.ahead = t.ahead
  access : t'.access = t.access

/-- What one round of a stream that goes on can do. -/
inductive Round (c : EventCodec δ) (sent : List (MobileEvent δ)) (now : ℕ) (t t' : StreamState δ) :
    Prop
  | quiet (hnext : t'.next = t.next) (hwritten : t'.written = t.written)
  | server (item : StreamItem δ) (hitem : item.event? = none) (hnext : t'.next = t.next)
      (hwritten : t'.written = t.written ++ [(now, item)])
  | passed (event : MobileEvent δ) (hevent : sent[t.next]? = some event)
      (hfor : t.isFor c event = false) (hnext : t'.next = t.next + 1)
      (hwritten : t'.written = t.written)
  | wrote (event : MobileEvent δ) (hevent : sent[t.next]? = some event)
      (hnear : sent.length - t.next ≤ broadcastCapacity)
      (hfor : t.isFor c event = true) (hlive : now < t.expiry) (hnext : t'.next = t.next + 1)
      (hwritten : t'.written = t.written ++ [(now, .mobile event)])

theorem StreamState.poll_eq_some (h : t.poll c sent now check beat = some t') :
    SameStream t t' ∧ Round c sent now t t' := by
  unfold StreamState.poll at h
  split at h
  · obtain rfl := Option.some.inj h
    exact ⟨⟨rfl, rfl, rfl, rfl, rfl, rfl, rfl⟩, .server .connected rfl rfl rfl⟩
  · split at h
    · cases h
    · rename_i hlive
      split at h
      · cases h
      · obtain rfl := Option.some.inj h
        exact ⟨⟨rfl, rfl, rfl, rfl, rfl, rfl, rfl⟩, .quiet rfl rfl⟩
      · split at h
        · obtain rfl := Option.some.inj h
          exact ⟨⟨rfl, rfl, rfl, rfl, rfl, rfl, rfl⟩, .server .heartbeat rfl rfl rfl⟩
        · split at h
          · obtain rfl := Option.some.inj h
            exact ⟨⟨rfl, rfl, rfl, rfl, rfl, rfl, rfl⟩, .quiet rfl rfl⟩
          · cases h
          · rename_i event hrecv
            obtain ⟨hevent, hnear⟩ := recv_eq_event hrecv
            split at h
            · rename_i hfor
              obtain rfl := Option.some.inj h
              exact ⟨⟨rfl, rfl, rfl, rfl, rfl, rfl, rfl⟩, .wrote event hevent hnear
                (decide_eq_true hfor) (not_le.mp hlive) rfl rfl⟩
            · rename_i hfor
              obtain rfl := Option.some.inj h
              exact ⟨⟨rfl, rfl, rfl, rfl, rfl, rfl, rfl⟩, .passed event hevent
                (decide_eq_false hfor) rfl rfl⟩

theorem events_append {w : List (ℕ × StreamItem δ)} (h : t'.written = t.written ++ w) :
    t'.events = t.events ++ w.filterMap fun x ↦ x.2.event? := by
  unfold StreamState.events
  rw [h, List.filterMap_append]

/-- A stream behind by more than the ring holds writes no further event. -/
theorem Round.events_of_lagging (h : Round c sent now t t')
    (hlag : broadcastCapacity < sent.length - t.next) : t'.events = t.events := by
  cases h with
  | quiet _ hwritten => simp [StreamState.events, hwritten]
  | server item hitem _ hwritten =>
      rw [events_append hwritten]
      simp [hitem]
  | passed _ _ _ _ hwritten => simp [StreamState.events, hwritten]
  | wrote _ _ hnear => omega

/-- What one round writes is taken from what the stream has before it. -/
theorem Round.balance (h : Round c sent now t t') :
    t'.events ++ (sent.drop t'.next).filter (t.isFor c) =
      t.events ++ (sent.drop t.next).filter (t.isFor c) := by
  have hdrop {event : MobileEvent δ} (hevent : sent[t.next]? = some event) :
      sent.drop t.next = event :: sent.drop (t.next + 1) := by
    obtain ⟨hlt, rfl⟩ := List.getElem?_eq_some_iff.mp hevent
    exact List.drop_eq_getElem_cons hlt
  cases h with
  | quiet hnext hwritten => simp [StreamState.events, hwritten, hnext]
  | server item hitem hnext hwritten =>
      rw [events_append hwritten, hnext]
      simp [hitem]
  | passed event hevent hfor hnext hwritten =>
      rw [hnext, hdrop hevent, List.filter_cons_of_neg (by simp [hfor])]
      simp [StreamState.events, hwritten]
  | wrote event hevent _ hfor _ hnext hwritten =>
      rw [events_append hwritten, hnext, hdrop hevent, List.filter_cons_of_pos hfor]
      simp [StreamItem.event?]

theorem Round.next_le (h : Round c sent now t t') (hnext : t.next ≤ sent.length) :
    t'.next ≤ sent.length := by
  cases h with
  | quiet heq => rwa [heq]
  | server _ _ heq => rwa [heq]
  | passed event hevent _ heq =>
      obtain ⟨hlt, _⟩ := List.getElem?_eq_some_iff.mp hevent
      omega
  | wrote event hevent _ _ _ heq =>
      obtain ⟨hlt, _⟩ := List.getElem?_eq_some_iff.mp hevent
      omega

end Streams

section Hubs

variable {h : Hub δ} {p : MobileEvent δ → Bool} {new : List (MobileEvent δ)}

/-- What a stream at a position of the ring still has before it. -/
def Hub.remaining (c : EventCodec δ) (h : Hub δ) (next : ℕ) : List (MobileEvent δ) :=
  h.sent.drop next ++ h.underway c

/-- The streams of a hub lose no event that they look for and gain the new
ones. -/
def Carries (c : EventCodec δ) (p : MobileEvent δ → Bool) (new : List (MobileEvent δ))
    (h h' : Hub δ) : Prop :=
  ∀ next ≤ h.sent.length, next ≤ h'.sent.length ∧
    (h'.remaining c next).filter p = (h.remaining c next ++ new).filter p

/-- A hub keeps the events in the order of their publication, and without Redis
nothing is underway. -/
structure Hub.InOrder (c : EventCodec δ) (cfg : RealtimeConfig) (published : List (MobileEvent δ))
    (h : Hub δ) : Prop where
  order : (h.remaining c 0).Sublist published
  atOnce : cfg.redis = false → h.queue = [] ∧ h.socket = []

/-- The publication reaches the instance. -/
def Hub.isReached (cfg : RealtimeConfig) (origin : ℕ) (h : Hub δ) : Bool :=
  if cfg.redis then h.subscribed else h.id = origin

theorem underway_cons_queue {queue : List (List Char)} {message : List Char}
    (hqueue : h.queue = message :: queue) :
    h.underway c = (parseEvent c message).toList ++
      ({ h with queue } : Hub δ).underway c := by
  unfold Hub.underway
  rw [hqueue, List.cons_append, List.filterMap_cons]
  cases parseEvent c message <;> rfl

theorem Hub.publish_cases (hc : c.Lawful) (cfg : RealtimeConfig) (origin : ℕ) (e : Emission δ)
    (h : Hub δ) :
    (h.isReached cfg origin = false ∧ h.publish c cfg origin (e.event c) = h) ∨
    (cfg.redis = true ∧ ∃ text, parseEvent c text = some (e.event c) ∧
      h.publish c cfg origin (e.event c) = { h with socket := h.socket ++ [text] }) ∨
    (cfg.redis = false ∧ h.publish c cfg origin (e.event c) =
      { h with sent := h.sent ++ [e.event c] }) := by
  obtain ⟨text, hto, hparse⟩ := parseEvent_event hc e
  unfold Hub.publish Hub.isReached
  rw [hto]
  by_cases hredis : cfg.redis = true
  · by_cases hsubscribed : h.subscribed = true
    · exact Or.inr (Or.inl ⟨hredis, text, hparse, by simp [hredis, hsubscribed]⟩)
    · exact Or.inl (by simp [hredis, hsubscribed])
  · by_cases horigin : h.id = origin
    · exact Or.inr (Or.inr (by simp [hredis, horigin]))
    · exact Or.inl (by simp [hredis, horigin])

theorem remaining_socket (h : Hub δ) (text : List Char) (next : ℕ) :
    ({ h with socket := h.socket ++ [text] } : Hub δ).remaining c next =
      h.remaining c next ++ (parseEvent c text).toList := by
  unfold Hub.remaining Hub.underway
  cases hparse : parseEvent c text <;> simp [hparse]

theorem remaining_sent {event : MobileEvent δ} {next : ℕ} (hnext : next ≤ h.sent.length)
    (hqueue : h.queue = []) (hsocket : h.socket = []) :
    ({ h with sent := h.sent ++ [event] } : Hub δ).remaining c next =
      h.remaining c next ++ [event] := by
  unfold Hub.remaining Hub.underway
  simp [hqueue, hsocket, List.drop_append_of_le_length hnext]

theorem carries_publish (hc : c.Lawful) {published : List (MobileEvent δ)}
    (horder : h.InOrder c cfg published) {origin : ℕ} {e : Emission δ}
    (hreached : p (e.event c) = true → h.isReached cfg origin = true) :
    Carries c p [e.event c] h (h.publish c cfg origin (e.event c)) := by
  intro next hnext
  rcases Hub.publish_cases hc cfg origin e h with
    ⟨hmissed, heq⟩ | ⟨_, text, hparse, heq⟩ | ⟨hredis, heq⟩ <;> rw [heq]
  · have hother : p (e.event c) = false := by
      by_contra hfor
      rw [hreached (by simpa using hfor)] at hmissed
      cases hmissed
    refine ⟨hnext, ?_⟩
    rw [List.filter_append, List.filter_cons_of_neg (by simp [hother]), List.filter_nil,
      List.append_nil]
  · exact ⟨hnext, by rw [remaining_socket, hparse]; rfl⟩
  · obtain ⟨hqueue, hsocket⟩ := horder.atOnce hredis
    refine ⟨?_, by rw [remaining_sent hnext hqueue hsocket]⟩
    rw [List.length_append]
    omega

theorem inOrder_publish (hc : c.Lawful) {published : List (MobileEvent δ)}
    (horder : h.InOrder c cfg published) (origin : ℕ) (e : Emission δ) :
    (h.publish c cfg origin (e.event c)).InOrder c cfg (published ++ [e.event c]) := by
  rcases Hub.publish_cases hc cfg origin e h with
    ⟨hmissed, heq⟩ | ⟨hredis, text, hparse, heq⟩ | ⟨hredis, heq⟩ <;> rw [heq]
  · exact ⟨horder.order.trans (List.sublist_append_left _ _), horder.atOnce⟩
  · refine ⟨?_, fun hlocal ↦ ?_⟩
    · rw [remaining_socket, hparse]
      exact horder.order.append (List.Sublist.refl _)
    · rw [hredis] at hlocal
      cases hlocal
  · obtain ⟨hqueue, hsocket⟩ := horder.atOnce hredis
    refine ⟨?_, horder.atOnce⟩
    rw [remaining_sent (Nat.zero_le _) hqueue hsocket]
    exact horder.order.append (List.Sublist.refl _)

/-- What the queue does with a message of the subscription. -/
theorem Hub.forward_cases (c : EventCodec δ) (h : Hub δ) :
    (h.forward.sent = h.sent ∧ h.forward.underway c = h.underway c) ∨
    ∃ message socket, h.socket = message :: socket ∧ redisRelayCapacity ≤ h.queue.length ∧
      h.forward = { h with socket } := by
  unfold Hub.forward
  cases hsocket : h.socket with
  | nil => exact Or.inl ⟨rfl, rfl⟩
  | cons message socket =>
      by_cases hroom : h.queue.length < redisRelayCapacity
      · simp only [hroom, if_true]
        refine Or.inl ⟨trivial, ?_⟩
        unfold Hub.underway
        rw [hsocket, List.append_assoc]
        rfl
      · simp only [hroom, if_false]
        exact Or.inr ⟨message, socket, rfl, not_lt.mp hroom, rfl⟩

theorem underway_drop {message : List Char} {socket : List (List Char)}
    (hsocket : h.socket = message :: socket) :
    (({ h with socket } : Hub δ).underway c).Sublist (h.underway c) := by
  unfold Hub.underway
  rw [hsocket]
  exact ((List.sublist_cons_self message socket).append_left h.queue).filterMap _

theorem carries_forward
    (hkept : ∀ message ∈ h.socket.head?, redisRelayCapacity ≤ h.queue.length →
      ∀ event ∈ parseEvent c message, p event = false) : Carries c p [] h h.forward := by
  intro next hnext
  unfold Hub.remaining
  rcases h.forward_cases c with ⟨hsent, hunderway⟩ | ⟨message, socket, hsocket, hfull, heq⟩
  · rw [hsent, hunderway, List.append_nil]
    exact ⟨hnext, rfl⟩
  · rw [heq, List.append_nil]
    refine ⟨hnext, ?_⟩
    have hmessage : ((parseEvent c message).toList).filter p = [] := by
      cases hparse : parseEvent c message with
      | none => rfl
      | some event =>
          have hother := hkept message (by rw [hsocket]; rfl) hfull event hparse
          simp [hother]
    unfold Hub.underway
    rw [hsocket]
    simp only [List.filterMap_append, List.filter_append]
    rw [← List.singleton_append (x := message), List.filterMap_append, List.filter_append]
    have hsingle : [message].filterMap (parseEvent c) = (parseEvent c message).toList := by
      cases hparse : parseEvent c message <;> simp [hparse]
    rw [hsingle, hmessage, List.nil_append]

theorem Hub.relay_cases (c : EventCodec δ) (h : Hub δ) :
    h.relay c = h ∨ ∃ message queue, h.queue = message :: queue ∧
      (parseEvent c message = none ∧ h.relay c = { h with queue } ∨
        ∃ event, parseEvent c message = some event ∧
          h.relay c = { h with queue, sent := h.sent ++ [event] }) := by
  unfold Hub.relay
  cases hqueue : h.queue with
  | nil => exact Or.inl rfl
  | cons message queue =>
      refine Or.inr ⟨message, queue, rfl, ?_⟩
      cases hparse : parseEvent c message with
      | none => exact Or.inl ⟨rfl, by simp only [hparse]⟩
      | some event => exact Or.inr ⟨event, rfl, by simp only [hparse]⟩

theorem carries_relay (c : EventCodec δ) (p : MobileEvent δ → Bool) (h : Hub δ) :
    Carries c p [] h (h.relay c) := by
  intro next hnext
  unfold Hub.remaining
  rcases h.relay_cases c with heq | ⟨message, queue, hqueue, ⟨hparse, heq⟩ | ⟨event, hparse, heq⟩⟩
  · rw [heq, List.append_nil]
    exact ⟨hnext, rfl⟩
  · rw [heq, underway_cons_queue hqueue, hparse, List.append_nil]
    exact ⟨hnext, rfl⟩
  · rw [heq, underway_cons_queue hqueue, hparse, List.append_nil]
    refine ⟨?_, ?_⟩
    · rw [List.length_append]
      omega
    · rw [List.drop_append_of_le_length hnext, List.append_assoc]
      rfl

theorem carries_interrupt
    (hkept : ∀ message ∈ h.socket, ∀ event ∈ parseEvent c message, p event = false) :
    Carries c p [] h h.interrupt := by
  intro next hnext
  refine ⟨hnext, ?_⟩
  have hsocket : (h.socket.filterMap (parseEvent c)).filter p = [] := by
    rw [List.filter_eq_nil_iff]
    intro event hevent
    obtain ⟨message, hmessage, hparse⟩ := List.mem_filterMap.mp hevent
    simp [hkept message hmessage event hparse]
  unfold Hub.remaining Hub.underway Hub.interrupt
  simp [hsocket]

theorem inOrder_of_sublist {published : List (MobileEvent δ)} {h' : Hub δ}
    (horder : h.InOrder c cfg published) (hremaining : (h'.remaining c 0).Sublist (h.remaining c 0))
    (hqueue : h.queue = [] → h.socket = [] → h'.queue = [] ∧ h'.socket = []) :
    h'.InOrder c cfg published where
  order := hremaining.trans horder.order
  atOnce hredis := hqueue (horder.atOnce hredis).1 (horder.atOnce hredis).2

theorem inOrder_forward {published : List (MobileEvent δ)} (horder : h.InOrder c cfg published) :
    h.forward.InOrder c cfg published := by
  refine inOrder_of_sublist horder ?_ fun hqueue hsocket ↦ ?_
  · unfold Hub.remaining
    rcases h.forward_cases c with ⟨hsent, hunderway⟩ | ⟨message, socket, hsocket, _, heq⟩
    · rw [hsent, hunderway]
    · rw [heq]
      exact (underway_drop hsocket).append_left _
  · simp [Hub.forward, hsocket, hqueue]

theorem inOrder_relay {published : List (MobileEvent δ)} (horder : h.InOrder c cfg published) :
    (h.relay c).InOrder c cfg published := by
  refine inOrder_of_sublist horder ?_ fun hqueue hsocket ↦ ?_
  · have hcarries := (carries_relay c (fun _ ↦ true) h 0 (Nat.zero_le _)).2
    simp only [List.filter_true, List.append_nil] at hcarries
    rw [hcarries]
  · simp [Hub.relay, hsocket, hqueue]

theorem inOrder_interrupt {published : List (MobileEvent δ)} (horder : h.InOrder c cfg published) :
    h.interrupt.InOrder c cfg published := by
  refine inOrder_of_sublist horder ?_ fun hqueue _ ↦ ⟨hqueue, rfl⟩
  unfold Hub.remaining Hub.underway Hub.interrupt
  simp

theorem carries_refl (c : EventCodec δ) (p : MobileEvent δ → Bool) (h : Hub δ) :
    Carries c p [] h h := fun _ hnext ↦ ⟨hnext, by rw [List.append_nil]⟩

end Hubs

section Steps

variable {s s' : Realtime δ} {a : RealtimeStep δ}

/-- No event that an open stream looks for is dropped on the way to its hub: it
is not published past the hub, not refused by a full queue and not in the
subscription when it ends. -/
def Lossless (c : EventCodec δ) (cfg : RealtimeConfig) (s : Realtime δ) : RealtimeStep δ → Prop
  | .publish origin e => ∀ t ∈ s.streams, ∀ h ∈ s.hubs, h.id = t.hub →
      t.isFor c (e.event c) = true → h.isReached cfg origin = true
  | .forward hub => ∀ h ∈ s.hubs, h.id = hub → redisRelayCapacity ≤ h.queue.length →
      ∀ message ∈ h.socket.head?, ∀ event ∈ parseEvent c message,
        ∀ t ∈ s.streams, t.hub = hub → t.isFor c event = false
  | .interrupt hub => ∀ h ∈ s.hubs, h.id = hub →
      ∀ message ∈ h.socket, ∀ event ∈ parseEvent c message,
        ∀ t ∈ s.streams, t.hub = hub → t.isFor c event = false
  | _ => True

/-- What happens to one hub while the streams stay. -/
structure Passes (c : EventCodec δ) (cfg : RealtimeConfig) (s : Realtime δ) (a : RealtimeStep δ)
    (new : List (MobileEvent δ)) (h h' : Hub δ) : Prop where
  inOrder : h.InOrder c cfg s.published → h'.InOrder c cfg (s.published ++ new)
  length_sent : h.sent.length ≤ h'.sent.length
  carries : Lossless c cfg s a → h.InOrder c cfg s.published →
    ∀ t ∈ s.streams, h.id = t.hub → Carries c (t.isFor c) new h h'

/-- Everything one step can do. -/
inductive Effect (c : EventCodec δ) (cfg : RealtimeConfig) (s : Realtime δ) (a : RealtimeStep δ) :
    Realtime δ → Prop
  | connected (id : ℕ) (hubs : Table (Hub.id : Hub δ → ℕ))
      (h : s.hubs.insert? (.start id cfg.redis) = some hubs) : Effect c cfg s a { s with hubs }
  | passed (q : Hub δ → Bool) (f : Hub δ → Hub δ) (hf : ∀ h, (f h).id = h.id)
      (new : List (MobileEvent δ))
      (h : ∀ h ∈ s.hubs, Passes c cfg s a new h (if q h then f h else h)) :
      Effect c cfg s a ⟨s.clock, s.published ++ new, s.hubs.modify q f hf, s.streams⟩
  | subscribed (t : StreamState δ) (h : Hub δ) (streams : Table (StreamState.id : StreamState δ → ℕ))
      (now : ℕ) (hclock : s.clock ≤ now) (hh : h ∈ s.hubs)
      (ht : t = { id := t.id, hub := h.id, userId := t.userId, expiry := cfg.expiry now t.access,
                  connected := false, next := h.sent.length, written := [],
                  since := s.published.length, ahead := h.underway c, access := t.access })
      (hinsert : s.streams.insert? t = some streams) :
      Effect c cfg s a { s with clock := now, streams }
  | polled (t t' : StreamState δ) (h : Hub δ) (now : ℕ) (hclock : s.clock ≤ now)
      (ht : t ∈ s.streams) (hh : s.hubs.find? t.hub = some h) (hsame : SameStream t t')
      (hround : Round c h.sent now t t') :
      Effect c cfg s a ({ s with clock := now }.keepStream t')
  | left (now : ℕ) (hclock : s.clock ≤ now) (p : StreamState δ → Bool) :
      Effect c cfg s a { s with clock := now, streams := s.streams.delete p }
  | stopped (hub : ℕ) :
      Effect c cfg s a
        { s with
          hubs := s.hubs.delete fun h ↦ h.id = hub
          streams := s.streams.delete fun t ↦ t.hub = hub }

theorem passes_refl (a : RealtimeStep δ) (h : Hub δ) : Passes c cfg s a [] h h :=
  ⟨fun horder ↦ by rwa [List.append_nil], le_refl _, fun _ _ _ _ _ ↦ carries_refl c _ h⟩

theorem passes_publish (hc : c.Lawful) (origin : ℕ) (e : Emission δ) {h : Hub δ} (hh : h ∈ s.hubs) :
    Passes c cfg s (.publish origin e) [e.event c] h (h.publish c cfg origin (e.event c)) where
  inOrder horder := inOrder_publish hc horder origin e
  length_sent := by
    rcases Hub.publish_cases hc cfg origin e h with
      ⟨_, heq⟩ | ⟨_, text, _, heq⟩ | ⟨_, heq⟩ <;> simp [heq]
  carries hlossless horder t ht hhub :=
    carries_publish hc horder fun hfor ↦ hlossless t ht h hh hhub hfor

theorem passes_forward {h : Hub δ} (hh : h ∈ s.hubs) :
    Passes c cfg s (.forward h.id) [] h h.forward where
  inOrder horder := by
    rw [List.append_nil]
    exact inOrder_forward horder
  length_sent := by
    rcases h.forward_cases c with ⟨hsent, _⟩ | ⟨message, socket, _, _, heq⟩
    · rw [hsent]
    · rw [heq]
  carries hlossless _ t ht hhub := carries_forward fun message hmessage hfull event hevent ↦
    hlossless h hh rfl hfull message hmessage event hevent t ht hhub.symm

theorem passes_relay (a : RealtimeStep δ) (h : Hub δ) : Passes c cfg s a [] h (h.relay c) where
  inOrder horder := by
    rw [List.append_nil]
    exact inOrder_relay horder
  length_sent := by
    rcases h.relay_cases c with heq | ⟨message, queue, _, ⟨_, heq⟩ | ⟨event, _, heq⟩⟩ <;> simp [heq]
  carries _ _ t _ _ := carries_relay c _ h

theorem passes_interrupt {h : Hub δ} (hh : h ∈ s.hubs) :
    Passes c cfg s (.interrupt h.id) [] h h.interrupt where
  inOrder horder := by
    rw [List.append_nil]
    exact inOrder_interrupt horder
  length_sent := le_refl _
  carries hlossless _ t ht hhub := carries_interrupt fun message hmessage event hevent ↦
    hlossless h hh rfl message hmessage event hevent t ht hhub.symm

theorem passes_shutdown (a : RealtimeStep δ) (h : Hub δ) : Passes c cfg s a [] h h.shutdown where
  inOrder horder := by
    rw [List.append_nil]
    exact ⟨horder.order, horder.atOnce⟩
  length_sent := le_refl _
  carries _ _ t _ _ := carries_refl c _ h

/-- One instance is at work, and the others stay as they are. -/
theorem effect_modifyHub {hub : ℕ} {f : Hub δ → Hub δ} {hf : ∀ h, (f h).id = h.id}
    (h : ∀ h ∈ s.hubs, h.id = hub → Passes c cfg s a [] h (f h)) :
    Effect c cfg s a (s.modifyHub hub f hf) := by
  have heffect := Effect.passed (c := c) (a := a) (fun h : Hub δ ↦ decide (h.id = hub)) f hf []
    fun g hg ↦ by
      by_cases hid : g.id = hub
      · simpa [hid] using h g hg hid
      · simpa [hid] using passes_refl (c := c) (s := s) a g
  rw [List.append_nil] at heffect
  exact heffect

theorem effect_of_enabled (hc : c.Lawful) (henabled : (realtimeService c cfg).Enabled s a) :
    Effect c cfg s a ((realtimeService c cfg).next s a) := by
  cases a with
  | connect hub =>
      obtain ⟨hubs, hinsert⟩ : ∃ hubs, s.hubs.insert? (.start hub cfg.redis) = some hubs := by
        rw [← Option.ne_none_iff_exists', ne_eq, Table.insert?_eq_none_iff, not_not]
        exact henabled
      have hnext : (realtimeService c cfg).next s (.connect hub) = { s with hubs } := by
        simp [realtimeService, hinsert]
      rw [hnext]
      exact .connected hub hubs hinsert
  | publish hub e =>
      refine Effect.passed (fun _ ↦ true) (Hub.publish c cfg hub (e.event c))
        (Hub.id_publish c cfg hub (e.event c)) [e.event c] fun h hh ↦ ?_
      exact passes_publish hc hub e hh
  | forward hub =>
      refine effect_modifyHub fun h hh hid ↦ ?_
      rw [← hid]
      exact passes_forward hh
  | relay hub => exact effect_modifyHub fun h _ _ ↦ passes_relay _ h
  | interrupt hub =>
      refine effect_modifyHub fun h hh hid ↦ ?_
      rw [← hid]
      exact passes_interrupt hh
  | shutdown hub => exact effect_modifyHub fun h _ _ ↦ passes_shutdown _ h
  | subscribe stream hub userId access now =>
      obtain ⟨hhub, hfree, hclock⟩ := henabled
      obtain ⟨h, hfind⟩ := Option.isSome_iff_exists.mp hhub
      have hh := (Table.find?_eq_some_iff.mp hfind).1
      obtain ⟨streams, hinsert⟩ : ∃ streams, s.streams.insert?
          { id := stream, hub := h.id, userId, expiry := cfg.expiry now access, connected := false,
            next := h.sent.length, written := [], since := s.published.length,
            ahead := h.underway c, access } = some streams := by
        rw [← Option.ne_none_iff_exists', ne_eq, Table.insert?_eq_none_iff, not_not]
        exact hfree
      have hnext : (realtimeService c cfg).next s (.subscribe stream hub userId access now) =
          { s with clock := now, streams } := by
        simp [realtimeService, hfind, Realtime.subscribe, hinsert]
      rw [hnext]
      exact .subscribed _ h streams now hclock hh rfl hinsert
  | poll stream now check beat =>
      obtain ⟨hclock, hstream⟩ := henabled
      rw [Option.any_eq_true] at hstream
      obtain ⟨t, ht, hhub⟩ := hstream
      obtain ⟨h, hh⟩ := Option.isSome_iff_exists.mp hhub
      have hnext : (realtimeService c cfg).next s (.poll stream now check beat) =
          s.poll c t h now check beat := by
        simp [realtimeService, ht, hh]
      rw [hnext]
      unfold Realtime.poll
      dsimp only
      split
      · exact .left now hclock _
      · rename_i t' hpoll
        split at hpoll
        · cases hpoll
        · obtain ⟨hsame, hround⟩ := StreamState.poll_eq_some hpoll
          exact .polled t t' h now hclock (Table.find?_eq_some_iff.mp ht).1 hh hsame hround
  | leave stream => exact .left s.clock le_rfl _
  | stop hub => exact .stopped hub

end Steps

section Runs

variable {s s' : Realtime δ} {a : RealtimeStep δ} {as : List (RealtimeStep δ)}

/-- What holds of an open stream whatever happens on the way to its hub. -/
structure StreamState.Sound (c : EventCodec δ) (s : Realtime δ) (t : StreamState δ) : Prop where
  own : ∀ w ∈ t.written, ∀ event ∈ w.2.event?, t.isFor c event = true ∧
    w.1 < t.access * nanosPerSecond
  expiry : t.expiry ≤ max (t.access * nanosPerSecond) s.clock
  since : t.since ≤ s.published.length
  ahead : t.ahead.Sublist (s.published.take t.since)
  hub : ∃ h, s.hubs.find? t.hub = some h ∧ t.next ≤ h.sent.length

structure Realtime.Sound (c : EventCodec δ) (cfg : RealtimeConfig) (s : Realtime δ) : Prop where
  hubs : ∀ h ∈ s.hubs, h.InOrder c cfg s.published
  streams : ∀ t ∈ s.streams, t.Sound c s

/-- Everything published for the user is written or still before the stream. -/
def StreamState.Gapless (c : EventCodec δ) (s : Realtime δ) (t : StreamState δ) : Prop :=
  ∀ h, s.hubs.find? t.hub = some h →
    t.events ++ (h.remaining c t.next).filter (t.isFor c) =
      (t.ahead ++ s.published.drop t.since).filter (t.isFor c)

theorem sound_start : (Realtime.start : Realtime δ).Sound c cfg :=
  ⟨fun h hh ↦ absurd hh (Table.notMem_empty h), fun t ht ↦ absurd ht (Table.notMem_empty t)⟩

theorem RealtimeConfig.expiry_le (cfg : RealtimeConfig) (now access : ℕ) :
    cfg.expiry now access ≤ max (access * nanosPerSecond) now := by
  unfold RealtimeConfig.expiry
  dsimp only
  split <;> omega

/-- A stream that stays as it is, while its hub receives more. -/
theorem StreamState.Sound.of_hub {t : StreamState δ} (ht : t.Sound c s) {h h' : Hub δ}
    {new : List (MobileEvent δ)} (hclock : s.clock ≤ s'.clock)
    (hpublished : s'.published = s.published ++ new) (hh : s.hubs.find? t.hub = some h)
    (hh' : s'.hubs.find? t.hub = some h') (hlength : h.sent.length ≤ h'.sent.length) :
    t.Sound c s' where
  own := ht.own
  expiry := ht.expiry.trans (max_le_max_left _ hclock)
  since := by
    have hsince := ht.since
    rw [hpublished, List.length_append]
    omega
  ahead := by
    rw [hpublished, List.take_append_of_le_length ht.since]
    exact ht.ahead
  hub := by
    obtain ⟨g, hg, hnext⟩ := ht.hub
    obtain rfl := Option.some.inj (hh.symm.trans hg)
    exact ⟨h', hh', hnext.trans hlength⟩

theorem StreamState.Gapless.of_carries {t : StreamState δ} (hgapless : t.Gapless c s)
    (ht : t.Sound c s) {h h' : Hub δ} {new : List (MobileEvent δ)}
    (hpublished : s'.published = s.published ++ new) (hh : s.hubs.find? t.hub = some h)
    (hh' : s'.hubs.find? t.hub = some h') (hcarries : Carries c (t.isFor c) new h h') :
    t.Gapless c s' := by
  intro g hg
  obtain rfl := Option.some.inj (hh'.symm.trans hg)
  obtain ⟨k, hk, hnext⟩ := ht.hub
  obtain rfl := Option.some.inj (hh.symm.trans hk)
  have hbefore := hgapless h hh
  rw [List.filter_append] at hbefore
  rw [(hcarries t.next hnext).2, hpublished, List.drop_append_of_le_length ht.since]
  simp only [List.filter_append]
  rw [← List.append_assoc, hbefore, List.append_assoc]

theorem inOrder_start (id : ℕ) (redis : Bool) (published : List (MobileEvent δ)) :
    (Hub.start id redis : Hub δ).InOrder c cfg published :=
  ⟨List.nil_sublist _, fun _ ↦ ⟨rfl, rfl⟩⟩

theorem find?_hub_insert {id : ℕ} {h new : Hub δ} {hubs : Table (Hub.id : Hub δ → ℕ)}
    (hinsert : s.hubs.insert? new = some hubs) (hh : s.hubs.find? id = some h) :
    hubs.find? id = some h := by
  rw [Table.find?_insert hinsert, if_neg, hh]
  rintro rfl
  have hfree := (Table.insert?_eq_some_iff.mp hinsert).1
  rw [hh] at hfree
  cases hfree

theorem find?_hub_modify {id : ℕ} {h : Hub δ} {q : Hub δ → Bool} {f : Hub δ → Hub δ}
    (hf : ∀ h, (f h).id = h.id) (hh : s.hubs.find? id = some h) :
    (s.hubs.modify q f hf).find? id = some (if q h then f h else h) := by
  rw [Table.find?_modify hf, hh]
  rfl

theorem find?_hub_stop {id hub : ℕ} {h : Hub δ} (hne : id ≠ hub) (hh : s.hubs.find? id = some h) :
    (s.hubs.delete fun h ↦ h.id = hub).find? id = some h := by
  have hid : h.id = id := (Table.find?_eq_some_iff.mp hh).2
  rw [Table.find?_delete, hh, Option.filter_some, if_pos]
  simp [hid, hne]

theorem mem_keepStream {t t' u : StreamState δ} (ht : t ∈ s.streams) (hid : t'.id = t.id) :
    u ∈ (s.keepStream t').streams ↔ u = t' ∨ u ∈ s.streams ∧ u.id ≠ t.id := by
  have hmem := Table.mem_modify_key (t := s.streams) (s := u)
    (f := fun t ↦ { t' with id := t.id }) (fun _ ↦ rfl) ht
  unfold Realtime.keepStream
  rw [hid]
  refine hmem.trans ?_
  rw [← hid]

/-- The round of a stream leaves it sound. -/
theorem StreamState.Sound.round {t t' : StreamState δ} (ht : t.Sound c s) {h : Hub δ} {now : ℕ}
    (hclock : s.clock ≤ now) (hh : s.hubs.find? t.hub = some h) (hsame : SameStream t t')
    (hround : Round c h.sent now t t') :
    t'.Sound c ({ s with clock := now }.keepStream t') where
  own := by
    have hfor : t'.isFor c = t.isFor c := by
      funext event
      unfold StreamState.isFor
      rw [hsame.userId]
    rw [hfor, hsame.access]
    intro w hw event hevent
    cases hround with
    | quiet _ hwritten =>
        rw [hwritten] at hw
        exact ht.own w hw event hevent
    | server item hitem _ hwritten =>
        rw [hwritten] at hw
        rcases List.mem_append.mp hw with hw | hw
        · exact ht.own w hw event hevent
        · obtain rfl := List.mem_singleton.mp hw
          rw [hitem] at hevent
          cases hevent
    | passed _ _ _ _ hwritten =>
        rw [hwritten] at hw
        exact ht.own w hw event hevent
    | wrote found _ _ hmine hlive _ hwritten =>
        rw [hwritten] at hw
        rcases List.mem_append.mp hw with hw | hw
        · exact ht.own w hw event hevent
        · obtain rfl := List.mem_singleton.mp hw
          obtain rfl := Option.some.inj hevent
          refine ⟨hmine, ?_⟩
          have hexpiry := ht.expiry
          change now < _
          omega
  expiry := by
    rw [hsame.expiry, hsame.access]
    exact ht.expiry.trans (max_le_max_left _ hclock)
  since := by
    rw [hsame.since]
    exact ht.since
  ahead := by
    rw [hsame.ahead, hsame.since]
    exact ht.ahead
  hub := by
    obtain ⟨g, hg, hnext⟩ := ht.hub
    obtain rfl := Option.some.inj (hh.symm.trans hg)
    rw [hsame.hub]
    exact ⟨h, hh, hround.next_le hnext⟩

theorem StreamState.Gapless.round {t t' : StreamState δ} (hgapless : t.Gapless c s) {h : Hub δ}
    {now : ℕ} (hh : s.hubs.find? t.hub = some h) (hsame : SameStream t t')
    (hround : Round c h.sent now t t') :
    t'.Gapless c ({ s with clock := now }.keepStream t') := by
  intro g hg
  rw [hsame.hub] at hg
  obtain rfl := Option.some.inj (hh.symm.trans hg)
  have hfor : t'.isFor c = t.isFor c := by
    funext event
    unfold StreamState.isFor
    rw [hsame.userId]
  have hbefore := hgapless h hh
  unfold Hub.remaining at hbefore ⊢
  rw [List.filter_append, ← List.append_assoc] at hbefore ⊢
  rw [hfor, hround.balance, hbefore, hsame.ahead, hsame.since]
  rfl

theorem Realtime.Sound.next (hc : c.Lawful) (hs : s.Sound c cfg)
    (henabled : (realtimeService c cfg).Enabled s a) :
    ((realtimeService c cfg).next s a).Sound c cfg := by
  have heffect := effect_of_enabled hc henabled
  generalize (realtimeService c cfg).next s a = s' at heffect
  have hsame {t : StreamState δ} (ht : t.Sound c s) {s' : Realtime δ} (hclock : s.clock ≤ s'.clock)
      (hpublished : s'.published = s.published) {h : Hub δ} (hh : s.hubs.find? t.hub = some h)
      (hh' : s'.hubs.find? t.hub = some h) : t.Sound c s' := by
    have hnew : s'.published = s.published ++ [] := by rw [hpublished, List.append_nil]
    exact ht.of_hub hclock hnew hh hh' le_rfl
  cases heffect with
  | connected id hubs hinsert =>
      refine ⟨fun h hh ↦ ?_, fun t ht ↦ ?_⟩
      · rcases (Table.mem_insert hinsert).mp hh with rfl | hh
        · exact inOrder_start id cfg.redis s.published
        · exact hs.hubs h hh
      · obtain ⟨h, hh, _⟩ := (hs.streams t ht).hub
        exact hsame (hs.streams t ht) le_rfl rfl hh (find?_hub_insert hinsert hh)
  | passed q f hf new hpasses =>
      refine ⟨fun h' hh' ↦ ?_, fun t ht ↦ ?_⟩
      · obtain ⟨h, hh, rfl⟩ := (Table.mem_modify hf).mp hh'
        exact (hpasses h hh).inOrder (hs.hubs h hh)
      · obtain ⟨h, hh, _⟩ := (hs.streams t ht).hub
        exact (hs.streams t ht).of_hub le_rfl rfl hh (find?_hub_modify hf hh)
          (hpasses h (Table.find?_eq_some_iff.mp hh).1).length_sent
  | subscribed t h streams now hclock hh ht hinsert =>
      refine ⟨hs.hubs, fun u hu ↦ ?_⟩
      rcases (Table.mem_insert hinsert).mp hu with rfl | hu
      · have hwritten : u.written = [] := by rw [ht]
        have hexpiry : u.expiry = cfg.expiry now u.access := by rw [ht]
        have hsince : u.since = s.published.length := by rw [ht]
        have hahead : u.ahead = h.underway c := by rw [ht]
        have hhub : u.hub = h.id := by rw [ht]
        have hnext : u.next = h.sent.length := by rw [ht]
        refine ⟨?_, ?_, hsince.le, ?_, h, ?_, hnext.le⟩
        · rw [hwritten]
          exact fun w hw ↦ absurd hw List.not_mem_nil
        · rw [hexpiry]
          exact cfg.expiry_le now u.access
        · rw [hahead, hsince, List.take_length]
          exact (List.sublist_append_right _ _).trans (hs.hubs h hh).order
        · rw [hhub]
          exact Table.find?_key hh
      · obtain ⟨g, hg, _⟩ := (hs.streams u hu).hub
        exact hsame (hs.streams u hu) hclock rfl hg hg
  | polled t t' h now hclock ht hh hst hround =>
      refine ⟨hs.hubs, fun u hu ↦ ?_⟩
      rcases (mem_keepStream (s := { s with clock := now }) ht hst.id).mp hu with rfl | ⟨hu, _⟩
      · exact (hs.streams t ht).round hclock hh hst hround
      · obtain ⟨g, hg, _⟩ := (hs.streams u hu).hub
        exact hsame (hs.streams u hu) hclock rfl hg hg
  | left now hclock p =>
      refine ⟨hs.hubs, fun t ht ↦ ?_⟩
      have ht := (Table.mem_delete.mp ht).1
      obtain ⟨h, hh, _⟩ := (hs.streams t ht).hub
      exact hsame (hs.streams t ht) hclock rfl hh hh
  | stopped hub =>
      refine ⟨fun h hh ↦ hs.hubs h (Table.mem_delete.mp hh).1, fun t ht ↦ ?_⟩
      obtain ⟨ht, hother⟩ := Table.mem_delete.mp ht
      obtain ⟨h, hh, _⟩ := (hs.streams t ht).hub
      exact hsame (hs.streams t ht) le_rfl rfl hh
        (find?_hub_stop (of_decide_eq_false hother) hh)

theorem gapless_next (hc : c.Lawful) (hs : s.Sound c cfg)
    (henabled : (realtimeService c cfg).Enabled s a) (hlossless : Lossless c cfg s a)
    (hgapless : ∀ t ∈ s.streams, t.Gapless c s) :
    ∀ t ∈ ((realtimeService c cfg).next s a).streams,
      t.Gapless c ((realtimeService c cfg).next s a) := by
  have heffect := effect_of_enabled hc henabled
  generalize (realtimeService c cfg).next s a = s' at heffect ⊢
  have hsame {t : StreamState δ} (ht : t ∈ s.streams) {s' : Realtime δ}
      (hpublished : s'.published = s.published) {h : Hub δ} (hh : s.hubs.find? t.hub = some h)
      (hh' : s'.hubs.find? t.hub = some h) : t.Gapless c s' := by
    have hnew : s'.published = s.published ++ [] := by rw [hpublished, List.append_nil]
    exact (hgapless t ht).of_carries (hs.streams t ht) hnew hh hh' (carries_refl c _ h)
  cases heffect with
  | connected id hubs hinsert =>
      intro t ht
      obtain ⟨h, hh, _⟩ := (hs.streams t ht).hub
      exact hsame ht rfl hh (find?_hub_insert hinsert hh)
  | passed q f hf new hpasses =>
      intro t ht
      obtain ⟨h, hh, _⟩ := (hs.streams t ht).hub
      obtain ⟨hmem, hid⟩ := Table.find?_eq_some_iff.mp hh
      exact (hgapless t ht).of_carries (hs.streams t ht) rfl hh (find?_hub_modify hf hh)
        ((hpasses h hmem).carries hlossless (hs.hubs h hmem) t ht hid)
  | subscribed t h streams now hclock hh ht hinsert =>
      intro u hu
      rcases (Table.mem_insert hinsert).mp hu with rfl | hu
      · intro g hg
        have hhub : u.hub = h.id := by rw [ht]
        rw [hhub] at hg
        obtain rfl := Option.some.inj ((Table.find?_key hh).symm.trans hg)
        have hwritten : u.events = [] := by rw [ht]; rfl
        have hsince : u.since = s.published.length := by rw [ht]
        have hahead : u.ahead = h.underway c := by rw [ht]
        have hnext : u.next = h.sent.length := by rw [ht]
        rw [hwritten, hsince, hahead, hnext]
        unfold Hub.remaining
        simp
      · obtain ⟨g, hg, _⟩ := (hs.streams u hu).hub
        exact hsame hu rfl hg hg
  | polled t t' h now hclock ht hh hst hround =>
      intro u hu
      rcases (mem_keepStream (s := { s with clock := now }) ht hst.id).mp hu with rfl | ⟨hu, _⟩
      · exact (hgapless t ht).round hh hst hround
      · obtain ⟨g, hg, _⟩ := (hs.streams u hu).hub
        exact hsame hu rfl hg hg
  | left now hclock p =>
      intro t ht
      have ht := (Table.mem_delete.mp ht).1
      obtain ⟨h, hh, _⟩ := (hs.streams t ht).hub
      exact hsame ht rfl hh hh
  | stopped hub =>
      intro t ht
      obtain ⟨ht, hother⟩ := Table.mem_delete.mp ht
      obtain ⟨h, hh, _⟩ := (hs.streams t ht).hub
      exact hsame ht rfl hh (find?_hub_stop (of_decide_eq_false hother) hh)

/-- In every run, what a stream has written are events of its user, before the
expiry of its access token, and a stream that has fallen behind the ring writes
no further event and ends where it looks at the ring. When no event of an open
stream is dropped on its way to the hub, what a stream has written and what is
still before it are all the events published for its user since it subscribed,
after those that were on their way then. -/
theorem streams_have_no_silent_gap (c : EventCodec δ) (cfg : RealtimeConfig)
    (as : List (RealtimeStep δ)) (hc : c.Lawful)
    (hvalid : (realtimeService c cfg).Valid .start as) :
    (∀ t ∈ ((realtimeService c cfg).exec .start as).streams, ∀ w ∈ t.written,
      ∀ event ∈ w.2.event?, w.1 < t.access * nanosPerSecond ∧
        ∀ user, event.userId = c.hyphenated user ↔ user = t.userId) ∧
    (∀ t ∈ ((realtimeService c cfg).exec .start as).streams,
      ∀ h, ((realtimeService c cfg).exec .start as).hubs.find? t.hub = some h →
      broadcastCapacity < h.sent.length - t.next →
      (∀ now check beat t', t.poll c h.sent now check beat = some t' → t'.events = t.events) ∧
      (t.connected = true → ∀ now, t.poll c h.sent now none false = none)) ∧
    ((realtimeService c cfg).Along (Lossless c cfg) .start as →
      ∀ t ∈ ((realtimeService c cfg).exec .start as).streams,
        t.ahead.Sublist (((realtimeService c cfg).exec .start as).published.take t.since) ∧
        ∃ h, ((realtimeService c cfg).exec .start as).hubs.find? t.hub = some h ∧
          t.events ++ (h.remaining c t.next).filter (t.isFor c) =
            (t.ahead ++ ((realtimeService c cfg).exec .start as).published.drop t.since).filter
              (t.isFor c)) := by
  have hsound := hvalid.invariant (I := Realtime.Sound c cfg) sound_start
    fun _ _ hs henabled ↦ hs.next hc henabled
  refine ⟨fun t ht w hw event hevent ↦ ?_, fun t ht h hh hlag ↦ ⟨?_, ?_⟩, fun hlossless t ht ↦ ?_⟩
  · obtain ⟨hfor, hbefore⟩ := (hsound.streams t ht).own w hw event hevent
    have huser : event.userId = c.hyphenated t.userId := of_decide_eq_true hfor
    refine ⟨hbefore, fun user ↦ ⟨fun h ↦ hc.hyphenated_injective (h.symm.trans huser), ?_⟩⟩
    rintro rfl
    exact huser
  · intro now check beat t' hpoll
    exact (StreamState.poll_eq_some hpoll).2.events_of_lagging hlag
  · intro hconnected now
    have hrecv : recv h.sent t.next = .lagged := if_pos hlag
    unfold StreamState.poll
    simp [hconnected, hrecv]
  · have hboth := hvalid.invariant_along
      (I := fun s ↦ s.Sound c cfg ∧ ∀ t ∈ s.streams, t.Gapless c s) hlossless
      ⟨sound_start, fun t ht ↦ absurd ht (Table.notMem_empty t)⟩
      fun s a hs henabled hlossless ↦
        ⟨hs.1.next hc henabled, gapless_next hc hs.1 henabled hlossless hs.2⟩
    obtain ⟨h, hh, _⟩ := (hsound.streams t ht).hub
    exact ⟨(hsound.streams t ht).ahead, h, hh, hboth.2 t ht h hh⟩

end Runs

section Samples

open Matches

/-- Quotes and backslashes of a text, escaped. -/
def escape : List Char → List Char
  | [] => []
  | ch :: text => if ch = '"' ∨ ch = '\\' then '\\' :: ch :: escape text else ch :: escape text

/-- A text up to its closing quote, and what follows. -/
def unescape (escaped : Bool) : List Char → Option (List Char × List Char)
  | [] => none
  | ch :: text =>
      if escaped then (unescape false text).map fun p ↦ (ch :: p.1, p.2)
      else if ch = '"' then some ([], text)
      else if ch = '\\' then unescape true text
      else (unescape false text).map fun p ↦ (ch :: p.1, p.2)

theorem unescape_escape (text rest : List Char) :
    unescape false (escape text ++ '"' :: rest) = some (text, rest) := by
  induction text with
  | nil => simp [escape, unescape]
  | cons ch text ih =>
      by_cases hspecial : ch = '"' ∨ ch = '\\'
      · rw [escape, if_pos hspecial]
        simp [unescape, ih]
      · obtain ⟨hquote, hbackslash⟩ := not_or.mp hspecial
        rw [escape, if_neg hspecial]
        simp [unescape, hquote, hbackslash, ih]

def parseKind (text : List Char) : Option MobileEventType :=
  [.matchCreated, .matchUpdated, .matchesInvalidated, .messageCreated, .messageRead,
    .subscriptionUpdated].find? fun kind ↦ kind.asStr.toList = text

theorem parseKind_asStr (kind : MobileEventType) : parseKind kind.asStr.toList = some kind := by
  cases kind <;> decide

/-- A field after the text that names it. -/
def readField (name text : List Char) : Option (List Char × List Char) :=
  (StandardCodec.dropText name text).bind (unescape false)

def fieldText (name value rest : List Char) : List Char := name ++ (escape value ++ '"' :: rest)

theorem readField_fieldText (name value rest : List Char) :
    readField name (fieldText name value rest) = some (value, rest) := by
  simp [readField, fieldText, StandardCodec.dropText, unescape_escape]

def idName : List Char := "\x7b\"id\":\"".toList

def userIdName : List Char := ",\"user_id\":\"".toList

def typeName : List Char := ",\"type\":\"".toList

def occurredAtName : List Char := ",\"occurred_at\":\"".toList

def noData : List Char := ",\"data\":\x7b\x7d\x7d".toList

def eventText (event : MobileEvent Empty) : List Char :=
  fieldText idName event.id <| fieldText userIdName event.userId <|
    fieldText typeName event.kind.asStr.toList <| fieldText occurredAtName event.occurredAt noData

def readEvent (text : List Char) : Option (MobileEvent Empty) :=
  (readField idName text).bind fun id ↦
    (readField userIdName id.2).bind fun userId ↦
      (readField typeName userId.2).bind fun kindText ↦
        (parseKind kindText.1).bind fun kind ↦
          (readField occurredAtName kindText.2).bind fun occurredAt ↦
            if occurredAt.2 = noData then some ⟨id.1, userId.1, kind, occurredAt.1, []⟩ else none

theorem readEvent_eventText (event : MobileEvent Empty) :
    readEvent (eventText event) = some event := by
  obtain ⟨id, userId, kind, occurredAt, data⟩ := event
  obtain rfl : data = [] := by
    cases data with
    | nil => rfl
    | cons entry _ => exact entry.2.elim
  unfold readEvent eventText
  simp only [readField_fieldText, parseKind_asStr, Option.bind_some, if_true]

/-- Events without data at one instant. -/
def plainEvents : EventCodec Empty where
  hyphenated := StandardCodec.hyphenated
  toRfc3339 _ := "1970-01-01T00:00:00.000Z".toList
  toString event := some (eventText event)
  fromStr := readEvent

theorem plainEvents_lawful : plainEvents.Lawful where
  hyphenated_injective id id' h := by
    have hparse := standardCodec_lawful.parseStr id
    rw [show standardCodec.hyphenated id = standardCodec.hyphenated id' from h,
      standardCodec_lawful.parseStr id'] at hparse
    exact (Option.some.inj hparse).symm
  hyphenated_ne_nil id := by simp [plainEvents, StandardCodec.hyphenated]
  toRfc3339_ne_nil now := by simp [plainEvents]
  fromStr event := ⟨_, rfl, readEvent_eventText event⟩

def sampleConfig : RealtimeConfig := ⟨true, 2 ^ 63⟩

def invalidation : Emission Empty := ⟨1, 2, .matchesInvalidated, 0, []⟩

/-- A user opens a stream and an event reaches it. -/
def deliveredEvent : List (RealtimeStep Empty) :=
  [.connect 0, .subscribe 7 0 1 900 1, .poll 7 2 none false, .publish 0 invalidation, .forward 0,
    .relay 0, .poll 7 3 none false]

/-- The subscription ends while a stream is open, and an event is published. -/
def interruptedSubscription : List (RealtimeStep Empty) :=
  [.connect 0, .subscribe 7 0 1 900 1, .poll 7 2 none false, .interrupt 0,
    .publish 0 invalidation, .poll 7 3 (some true) false, .poll 7 4 none false,
    .poll 7 5 none true]

instance (s : Realtime δ) (a : RealtimeStep δ) :
    Decidable ((realtimeService c cfg).Enabled s a) :=
  match a with
  | .connect hub =>
      decidable_of_iff ((s.hubs.find? hub).isNone) <| by
        change _ ↔ s.hubs.find? hub = none
        simp
  | .publish hub _ | .forward hub | .relay hub | .interrupt hub | .shutdown hub | .stop hub =>
      inferInstanceAs (Decidable ((s.hubs.find? hub).isSome = true))
  | .subscribe stream hub _ _ now =>
      decidable_of_iff ((s.hubs.find? hub).isSome ∧ (s.streams.find? stream).isNone ∧
        s.clock ≤ now) <| by
        change _ ↔ (s.hubs.find? hub).isSome = true ∧ s.streams.find? stream = none ∧ s.clock ≤ now
        simp
  | .poll stream now _ _ =>
      inferInstanceAs (Decidable (s.clock ≤ now ∧
        ((s.streams.find? stream).any fun t ↦ (s.hubs.find? t.hub).isSome) = true))
  | .leave stream => inferInstanceAs (Decidable ((s.streams.find? stream).isSome = true))

instance (s : Realtime δ) (a : RealtimeStep δ) : Decidable (Lossless c cfg s a) :=
  match a with
  | .publish origin e => inferInstanceAs (Decidable (∀ t ∈ s.streams, ∀ h ∈ s.hubs, h.id = t.hub →
      t.isFor c (e.event c) = true → h.isReached cfg origin = true))
  | .forward hub => inferInstanceAs (Decidable (∀ h ∈ s.hubs, h.id = hub →
      redisRelayCapacity ≤ h.queue.length → ∀ message ∈ h.socket.head?,
        ∀ event ∈ parseEvent c message, ∀ t ∈ s.streams, t.hub = hub → t.isFor c event = false))
  | .interrupt hub => inferInstanceAs (Decidable (∀ h ∈ s.hubs, h.id = hub →
      ∀ message ∈ h.socket, ∀ event ∈ parseEvent c message, ∀ t ∈ s.streams, t.hub = hub →
        t.isFor c event = false))
  | .connect _ | .relay _ | .subscribe _ _ _ _ _ | .poll _ _ _ _ | .leave _ | .shutdown _
  | .stop _ => .isTrue trivial

/-- The theorem above where a stream has received its one event. -/
theorem streams_have_no_silent_gap_delivered :
    (((realtimeService plainEvents sampleConfig).exec .start deliveredEvent).streams.rows.map
        StreamState.events = [[invalidation.event plainEvents]]) ∧
      ∀ t ∈ ((realtimeService plainEvents sampleConfig).exec .start deliveredEvent).streams,
        ∃ h : Hub Empty, t.events ++ (h.remaining plainEvents t.next).filter (t.isFor plainEvents) =
          (t.ahead ++ ((realtimeService plainEvents sampleConfig).exec .start
            deliveredEvent).published.drop t.since).filter (t.isFor plainEvents) := by
  have hgapless := (streams_have_no_silent_gap plainEvents sampleConfig deliveredEvent
    plainEvents_lawful (by decide +kernel)).2.2 (by decide +kernel)
  refine ⟨by decide +kernel, fun t ht ↦ ?_⟩
  obtain ⟨_, h, _, heq⟩ := hgapless t ht
  exact ⟨h, heq⟩

/-- The stream stays open and says nothing of an event that nobody holds any
more. -/
theorem interrupted_subscription_is_silent :
    (realtimeService plainEvents sampleConfig).Valid .start interruptedSubscription ∧
      ((realtimeService plainEvents sampleConfig).exec .start
        interruptedSubscription).published = [invalidation.event plainEvents] ∧
      ((realtimeService plainEvents sampleConfig).exec .start
        interruptedSubscription).streams.rows.map (fun t ↦
          (t.since, t.isFor plainEvents (invalidation.event plainEvents), t.written)) =
          [(0, true, [(2, .connected), (5, .heartbeat)])] ∧
      ((realtimeService plainEvents sampleConfig).exec .start
        interruptedSubscription).hubs.rows.map (fun h ↦
          (h.subscribed, h.remaining plainEvents 0)) = [(false, [])] := by
  refine ⟨?_, ?_, ?_, ?_⟩ <;> decide +kernel

end Samples

end Histae.Notifications
