import Histae.Infra.ActivityLocks
import Histae.Systems.Run

/-!
# Leases exclude each other

What a call and its connection owe each other at every moment of an
acquisition, of the work and of the release. Every exit either reads the answer
of an unlock or gives the connection up, so a connection in the pool is free of
locks; and a lease holds the locks of its request for as long as its session
lives.
-/

namespace Histae.Infra

open Relational Systems

variable {keys : LockKeys}

section Connections

variable {x : Connection} {statement : Statement} {done : List (Statement × ActivityAnswer)}

/-- The session holds the lock. -/
def Connection.Holds (x : Connection) (key : ℤ) (mode : LockMode) : Prop :=
  ∃ lock ∈ x.locks, lock.request = ⟨key, mode = .exclusive⟩

/-- While its session lives, the connection holds the locks that the statements
have asked for. -/
def Connection.Covers (x : Connection) (done : List (Statement × ActivityAnswer)) : Prop :=
  x.alive = true → ∀ p ∈ done, ∀ key mode, p.1 = .tryLock key mode → x.Holds key mode

/-- What an answer says about the session. -/
def Connection.Bears (x : Connection) (reply : Reply) : Statement → Prop
  | .tryLock key mode => ∀ accounts, reply.accepts accounts = true → x.alive = true →
      x.Holds key mode
  | .unlockAll => x.locks = []
  | _ => True

/-- At most this statement is on its way, or its answer. -/
structure Connection.Serves (x : Connection) (statement : Statement) : Prop where
  sent : ∀ other, x.sent = some other → other = statement ∧ x.reply = none
  reply : ∀ reply, x.reply = some reply → x.Bears reply statement

structure Connection.Sound (x : Connection) : Prop where
  dead : x.alive = false → x.locks = []
  idle : x.place = .idle → x.locks = [] ∧ x.sent = none ∧ x.reply = none
  takers : ∀ lock ∈ x.locks, lock.taker = x.user

theorem isQuiet_iff : x.isQuiet = true ↔ x.sent = none ∧ x.reply = none := by
  simp [Connection.isQuiet]

theorem serves_of_quiet (h : x.isQuiet = true) (statement : Statement) : x.Serves statement := by
  obtain ⟨hsent, hreply⟩ := isQuiet_iff.mp h
  refine ⟨fun other hother ↦ ?_, fun reply hother ↦ ?_⟩
  · rw [hsent] at hother
    cases hother
  · rw [hreply] at hother
    cases hother

theorem serves_send (h : x.isQuiet = true) (statement : Statement) :
    (x.send statement).Serves statement := by
  obtain ⟨hsent, hreply⟩ := isQuiet_iff.mp h
  refine ⟨fun other hother ↦ ⟨(Option.some.inj hother).symm, hreply⟩, fun reply hother ↦ ?_⟩
  change x.reply = some reply at hother
  rw [hreply] at hother
  cases hother

/-- An answer is read when nothing is on its way. -/
theorem isQuiet_read {reply : Reply} (h : x.Serves statement) (hreply : x.reply = some reply) :
    x.read.isQuiet = true := by
  refine isQuiet_iff.mpr ⟨?_, rfl⟩
  change x.sent = none
  by_contra hsent
  obtain ⟨other, hother⟩ := Option.ne_none_iff_exists'.mp hsent
  have hnone := (h.sent other hother).2
  rw [hreply] at hnone
  cases hnone

theorem covers_append {p : Statement × ActivityAnswer} {reply : Reply} {accounts : ℕ}
    (hcovers : x.Covers done) (hbears : x.Bears reply p.1)
    (haccepts : reply.accepts accounts = true) : x.Covers (done ++ [p]) := by
  intro halive q hq key mode hstatement
  rcases List.mem_append.mp hq with hq | hq
  · exact hcovers halive q hq key mode hstatement
  · obtain rfl := List.mem_singleton.mp hq
    rw [hstatement] at hbears
    exact hbears accounts haccepts halive

end Connections

section Acquisitions

variable {q : ActivityRequest} {p : Statement × ActivityAnswer}

theorem mem_acquisition (hp : p ∈ acquisition keys q) :
    (∃ id ∈ canonicalIds q.userIds, p.1 = .tryLock (keys.account id) q.mode ∧ p.2 ≠ .ok) ∨
    (∃ ids allowBanned, p = (.countAccounts ids allowBanned, .accountUnavailable)) ∨
    (∃ operation id, p = (.tryLock (keys.operation operation id) .exclusive, .notAcquired)) ∨
    p = (.backendPid, .activityUnavailable) := by
  unfold acquisition at hp
  simp only [List.mem_append, List.mem_map, List.mem_flatMap, List.mem_singleton] at hp
  rcases hp with ((⟨id, hid, rfl⟩ | ⟨allow, _, rfl⟩) | ⟨op, _, id, _, rfl⟩) | rfl
  · refine Or.inl ⟨id, hid, rfl, ?_⟩
    cases q.mode <;> exact nofun
  · exact Or.inr (Or.inl ⟨_, allow, rfl⟩)
  · exact Or.inr (Or.inr (Or.inl ⟨op, id, rfl⟩))
  · exact Or.inr (Or.inr (Or.inr rfl))

theorem acquisition_ne_unlockAll (hp : p ∈ acquisition keys q) : p.1 ≠ .unlockAll := by
  rcases mem_acquisition hp with ⟨id, _, hstatement, _⟩ | ⟨ids, allow, rfl⟩ | ⟨op, id, rfl⟩ | rfl
  · rw [hstatement]
    exact nofun
  all_goals exact nofun

theorem acquisition_ne_ok (hp : p ∈ acquisition keys q) : p.2 ≠ .ok := by
  rcases mem_acquisition hp with ⟨id, _, _, hanswer⟩ | ⟨ids, allow, rfl⟩ | ⟨op, id, rfl⟩ | rfl
  · exact hanswer
  all_goals exact nofun

theorem mem_canonicalIds {userIds : List Uuid} {id : Uuid} :
    id ∈ canonicalIds userIds ↔ id ∈ userIds := by
  simp [canonicalIds, List.mem_dedup, List.mem_insertionSort]

/-- Every account of the request has its lock. -/
theorem account_mem_acquisition (keys : LockKeys) {id : Uuid} (hid : id ∈ q.userIds) :
    ∃ p ∈ acquisition keys q, p.1 = .tryLock (keys.account id) q.mode := by
  refine ⟨(.tryLock (keys.account id) q.mode, q.mode.refusal), ?_, rfl⟩
  unfold acquisition
  refine List.mem_append_left _ (List.mem_append_left _ (List.mem_append_left _ ?_))
  exact List.mem_map.mpr ⟨id, mem_canonicalIds.mpr hid, rfl⟩

/-- A serialized request has a lock of its operation and account too. -/
theorem operation_mem_acquisition (keys : LockKeys) {id : Uuid} {operation : List Char} (hid : id ∈ q.userIds)
    (hoperation : q.operation = some operation) :
    ∃ p ∈ acquisition keys q, p.1 = .tryLock (keys.operation operation id) .exclusive := by
  refine ⟨(.tryLock (keys.operation operation id) .exclusive, .notAcquired), ?_, rfl⟩
  unfold acquisition
  refine List.mem_append_left _ (List.mem_append_right _ (List.mem_flatMap.mpr ?_))
  exact ⟨operation, by simp [hoperation],
    List.mem_map.mpr ⟨id, mem_canonicalIds.mpr hid, rfl⟩⟩

end Acquisitions

section Calls

variable {a a' : Activity} {x x' : Connection} {event : ActivityEvent}

def TaskPhase.isOpen : TaskPhase → Bool
  | .idle | .probing => true
  | _ => false

def FuturePhase.isAtWork : FuturePhase → Bool
  | .working | .finished _ => true
  | _ => false

def FuturePhase.isAcquiring : FuturePhase → Bool
  | .acquiring _ | .refusing _ => true
  | _ => false

/-- The call owns a checked-out connection. -/
def Activity.holds (a : Activity) : Bool :=
  a.future.isAcquiring || a.owner.any (·.phase ≠ .done)

/-- The lease of the call: from the end of its acquisition until its work is
over and its task turns to the release. -/
def Activity.isLeased (a : Activity) : Bool :=
  a.owner.any fun t ↦ t.phase.isOpen || a.future.isAtWork

def Activity.lease (a : Activity) : Option LeaseState := a.owner.map OwnerTask.lease

/-- What a task and its connection owe each other. -/
structure OwnerTask.Attached (keys : LockKeys) (a : Activity) (x : Connection) (t : OwnerTask) :
    Prop where
  phase :
    match t.phase with
    | .idle => x.isQuiet = true
    | .probing => x.Serves .probe
    | .unlocking => x.Serves .unlockAll
    | .done => True
  covers : t.phase.isOpen = true ∨ a.future.isAtWork = true →
    x.Covers (acquisition keys a.request) ∧ x.sent ≠ some .unlockAll
  kept : t.phase.isOpen = true ∨ a.future.isAtWork = true → x.place ≠ .idle
  command : a.future.isAtWork = true → t.command = .none ∧ t.phase ≠ .unlocking
  acquired : a.future.isAcquiring = false
  released : t.lease = .released → t.phase = .done ∧ x.place = .idle
  open_ : t.phase ≠ .done → t.lease = .held
  doneHeld : t.phase = .done → x.place ≠ .checkedOut

/-- What a call and the connection that it was last to use owe each other. -/
structure Activity.Attached (keys : LockKeys) (a : Activity) (x : Connection) : Prop where
  connection : a.connection = some x.id
  place : x.place = .checkedOut ↔ a.holds = true
  future :
    match a.future with
    | .acquiring rest => a.owner = none ∧ ∃ done p rest', rest = p :: rest' ∧
        acquisition keys a.request = done ++ rest ∧ x.Covers done ∧ x.Serves p.1
    | .refusing answer => a.owner = none ∧ x.Serves .unlockAll ∧ answer ≠ .ok
    | .waiting => False
    | _ => True
  task : ∀ t, a.owner = some t → t.Attached keys a x

/-- What a step of a call leaves as it is. -/
structure SameSession (a a' : Activity) (x x' : Connection) : Prop where
  activity : a'.id = a.id
  request : a'.request = a.request
  id : x'.id = x.id
  process : x'.process = x.process
  user : x'.user = x.user
  locks : x'.locks = x.locks
  alive : x'.alive = x.alive
  discarded : x.place = .discarded → x'.place = .discarded

theorem SameSession.sound (h : SameSession a a' x x') (hx : x.Sound)
    (hidle : x'.place = .idle → x'.locks = [] ∧ x'.sent = none ∧ x'.reply = none) : x'.Sound where
  dead halive := by
    rw [h.locks]
    exact hx.dead (h.alive.symm.trans halive)
  idle := hidle
  takers := by
    rw [h.locks, h.user]
    exact hx.takers

theorem Connection.Covers.same {done : List (Statement × ActivityAnswer)} (hcovers : x.Covers done)
    (hlocks : x'.locks = x.locks) (halive : x'.alive = x.alive) : x'.Covers done := by
  intro hlive p hp key mode hstatement
  obtain ⟨lock, hlock, heq⟩ := hcovers (halive.symm.trans hlive) p hp key mode hstatement
  exact ⟨lock, by rwa [hlocks], heq⟩

theorem holds_of_acquiring (h : a.future.isAcquiring = true) : a.holds = true := by
  simp [Activity.holds, h]

theorem holds_of_task {t : OwnerTask} (ht : a.owner = some t) (hphase : t.phase ≠ .done) :
    a.holds = true := by
  simp [Activity.holds, ht, hphase]

theorem holds_eq_false_of_task {t : OwnerTask} (ht : a.owner = some t) (hphase : t.phase = .done)
    (hfuture : a.future.isAcquiring = false) : a.holds = false := by
  simp [Activity.holds, ht, hphase, hfuture]

theorem holds_eq_false_of_none (ht : a.owner = none) (hfuture : a.future.isAcquiring = false) :
    a.holds = false := by
  simp [Activity.holds, ht, hfuture]

/-- A call that has no task and is not acquiring any more. -/
theorem attached_over (ha : a.owner = none) (hfuture : a.future.isAcquiring = false)
    (hnotWaiting : a.future ≠ .waiting) (hconnection : a.connection = some x.id)
    (hplace : x.place ≠ .checkedOut) : a.Attached keys x := by
  refine ⟨hconnection, ?_, ?_, fun t ht ↦ ?_⟩
  · rw [holds_eq_false_of_none ha hfuture]
    simp [hplace]
  · cases hphase : a.future with
    | acquiring rest => rw [hphase] at hfuture; cases hfuture
    | refusing answer => rw [hphase] at hfuture; cases hfuture
    | waiting => exact hnotWaiting hphase
    | _ => trivial
  · rw [ha] at ht
    cases ht

/-- An answer in `acquire` leads to the next statement, to the work or to the
refusal. -/
theorem attached_received {p : Statement × ActivityAnswer} {reply : Reply}
    {rest : List (Statement × ActivityAnswer)} (h : a.Attached keys x)
    (hfuture : a.future = .acquiring (p :: rest)) (hreply : x.reply = some reply) :
    (a.received reply p.2 rest).Attached keys x.read := by
  have hattached := h.future
  rw [hfuture] at hattached
  obtain ⟨howner, done, q, rest', hrest, hsplit, hcovers, hserves⟩ := hattached
  obtain ⟨rfl, rfl⟩ := List.cons.inj hrest
  have hplace : x.place = .checkedOut := h.place.mpr (holds_of_acquiring (by rw [hfuture]; rfl))
  have hquiet := isQuiet_read hserves hreply
  unfold Activity.received
  split
  · rename_i haccepts
    have hnext : x.read.Covers (done ++ [p]) := Connection.Covers.same
      (covers_append hcovers (hserves.reply reply hreply) haccepts) rfl rfl
    split
    · refine ⟨h.connection, ?_, trivial, fun t ht ↦ ?_⟩
      · exact iff_of_true hplace rfl
      · obtain rfl := Option.some.inj ht
        rw [hsplit.symm] at hnext
        refine ⟨hquiet, fun _ ↦ ⟨hnext, ?_⟩, fun _ hidle ↦ ?_, fun _ ↦ ⟨rfl, nofun⟩, rfl, nofun,
          fun _ ↦ rfl, nofun⟩
        · rw [(isQuiet_iff.mp hquiet).1]
          exact nofun
        · change x.place = .idle at hidle
          rw [hplace] at hidle
          cases hidle
    · rename_i next rest
      refine ⟨h.connection, iff_of_true hplace (holds_of_acquiring rfl), ?_, fun t ht ↦ ?_⟩
      · refine ⟨howner, done ++ [p], next, rest, rfl, ?_, hnext, serves_of_quiet hquiet next.1⟩
        rw [List.append_assoc]
        exact hsplit
      · exact absurd (howner.symm.trans ht) nofun
  · refine ⟨h.connection, iff_of_true hplace (holds_of_acquiring rfl), ?_, fun t ht ↦ ?_⟩
    · exact ⟨howner, serves_of_quiet hquiet .unlockAll, acquisition_ne_ok (by rw [hsplit]; simp)⟩
    · exact absurd (howner.symm.trans ht) nofun

theorem sameSession_send (a : Activity) (x : Connection) (statement : Statement) :
    SameSession a a x (x.send statement) := ⟨rfl, rfl, rfl, rfl, rfl, rfl, rfl, fun h ↦ h⟩

theorem sameSession_discard (ha : a'.id = a.id) (hrequest : a'.request = a.request) :
    SameSession a a' x x.discard := ⟨ha, hrequest, rfl, rfl, rfl, rfl, rfl, fun _ ↦ rfl⟩

theorem sameSession_keep (ha : a'.id = a.id) (hrequest : a'.request = a.request) :
    SameSession a a' x x := ⟨ha, hrequest, rfl, rfl, rfl, rfl, rfl, fun h ↦ h⟩

theorem sameSession_read (ha : a'.id = a.id) (hrequest : a'.request = a.request) :
    SameSession a a' x x.read := ⟨ha, hrequest, rfl, rfl, rfl, rfl, rfl, fun h ↦ h⟩

/-- What one step of a call makes of the call and its connection. -/
structure Stepped (keys : LockKeys) (a a' : Activity) (x x' : Connection) : Prop where
  same : SameSession a a' x x'
  sound : x'.Sound
  attached : a'.Attached keys x'

theorem stepped_discard (hx : x.Sound) (ha : a'.id = a.id) (hrequest : a'.request = a.request)
    (hattached : a'.Attached keys x.discard) : Stepped keys a a' x x.discard :=
  ⟨sameSession_discard ha hrequest, (sameSession_discard ha hrequest).sound hx nofun, hattached⟩

/-- The answer of an unlock is read, and the connection goes back. -/
theorem stepped_giveBack {reply : Reply} (hx : x.Sound)
    (hplace : x.place = .checkedOut) (hserves : x.Serves .unlockAll)
    (hreply : x.reply = some reply) (ha : a'.id = a.id) (hrequest : a'.request = a.request)
    (hattached : x.read.giveBack.place = .idle → a'.Attached keys x.read.giveBack) :
    Stepped keys a a' x x.read.giveBack := by
  have hquiet := isQuiet_iff.mp (isQuiet_read hserves hreply)
  have hsame : SameSession a a' x x.read.giveBack := by
    refine ⟨ha, hrequest, rfl, rfl, rfl, rfl, rfl, fun hdiscarded ↦ ?_⟩
    rw [hplace] at hdiscarded
    cases hdiscarded
  refine ⟨hsame, hsame.sound hx fun _ ↦ ?_, hattached rfl⟩
  exact ⟨hserves.reply reply hreply, hquiet.1, hquiet.2⟩

/-- The future turns to what touches neither the locks nor the task's part. -/
theorem attached_goTo {future : FuturePhase} {t t' : OwnerTask} (h : a.Attached keys x)
    (ht : a.owner = some t) (hphase : t'.phase = t.phase) (hlease : t'.lease = t.lease)
    (hfuture : future.isAcquiring = false) (hnotWaiting : future ≠ .waiting)
    (hwork : future.isAtWork = true → a.future.isAtWork = true)
    (hcommand : future.isAtWork = true → t'.command = t.command) :
    ((a.goTo future).withTask t').Attached keys x := by
  have hattached := h.task t ht
  have hholds : ((a.goTo future).withTask t').holds = a.holds := by
    simp [Activity.holds, Activity.goTo, Activity.withTask, ht, hphase, hattached.acquired, hfuture]
  refine ⟨h.connection, by rw [hholds]; exact h.place, ?_, fun u hu ↦ ?_⟩
  · cases future with
    | acquiring rest => cases hfuture
    | refusing answer => cases hfuture
    | waiting => exact hnotWaiting rfl
    | _ => trivial
  · obtain rfl := Option.some.inj hu
    refine ⟨?_, fun hor ↦ ?_, fun hor ↦ ?_, fun hat ↦ ?_, hfuture, ?_, ?_, ?_⟩
    · rw [hphase]
      exact hattached.phase
    · rw [hphase] at hor
      exact hattached.covers (hor.imp_right hwork)
    · rw [hphase] at hor
      exact hattached.kept (hor.imp_right hwork)
    · rw [hcommand hat, hphase]
      exact hattached.command (hwork hat)
    · rw [hlease, hphase]
      exact hattached.released
    · rw [hlease, hphase]
      exact hattached.open_
    · rw [hphase]
      exact hattached.doneHeld

theorem Activity.goTo_withTask {future : FuturePhase} {t : OwnerTask} (ht : a.owner = some t) :
    (a.goTo future).withTask t = a.goTo future := by
  unfold Activity.goTo Activity.withTask
  rw [← ht]

theorem stepped_futureStep (h : a.Attached keys x) (hx : x.Sound)
    (hstep : a.futureStep x event = some (a', x')) : Stepped keys a a' x x' := by
  have hplaceOf (hfuture : a.future.isAcquiring = true) : x.place = .checkedOut :=
    h.place.mpr (holds_of_acquiring hfuture)
  have hsent (statement : Statement) (hquiet : x.isQuiet = true)
      (hplace : x.place = .checkedOut) (hattached : a.Attached keys (x.send statement)) :
      Stepped keys a a x (x.send statement) := by
    refine ⟨sameSession_send a x statement, (sameSession_send a x statement).sound hx ?_, hattached⟩
    intro hidle
    change x.place = .idle at hidle
    rw [hplace] at hidle
    cases hidle
  have hover (answer : FuturePhase) (hacquiring : answer.isAcquiring = false)
      (hnotWaiting : answer ≠ .waiting) (howner : a.owner = none) :
      Stepped keys a (a.goTo answer) x x.discard :=
    stepped_discard hx rfl rfl (attached_over howner hacquiring hnotWaiting h.connection nofun)
  unfold Activity.futureStep at hstep
  split at hstep
  · rename_i statement refusal rest hfuture
    split at hstep
    · rename_i hquiet
      obtain ⟨rfl, rfl⟩ := Prod.mk.inj (Option.some.inj hstep)
      refine hsent statement hquiet (hplaceOf (by rw [hfuture]; rfl)) ?_
      have hattached := h.future
      rw [hfuture] at hattached
      obtain ⟨howner, done, p, rest', hrest, hsplit, hcovers, hserves⟩ := hattached
      obtain ⟨rfl, rfl⟩ := List.cons.inj hrest
      refine ⟨h.connection, h.place, ?_, fun t ht ↦ absurd (howner.symm.trans ht) nofun⟩
      rw [hfuture]
      exact ⟨howner, done, _, _, rfl, hsplit, hcovers, serves_send hquiet statement⟩
    · cases hstep
  · rename_i answer hfuture
    split at hstep
    · rename_i hquiet
      obtain ⟨rfl, rfl⟩ := Prod.mk.inj (Option.some.inj hstep)
      refine hsent .unlockAll hquiet (hplaceOf (by rw [hfuture]; rfl)) ?_
      have hattached := h.future
      rw [hfuture] at hattached
      refine ⟨h.connection, h.place, ?_, fun t ht ↦ absurd (hattached.1.symm.trans ht) nofun⟩
      rw [hfuture]
      exact ⟨hattached.1, serves_send hquiet .unlockAll, hattached.2.2⟩
    · cases hstep
  · rename_i statement refusal rest hfuture
    obtain ⟨reply, hreply, heq⟩ := Option.map_eq_some_iff.mp hstep
    obtain ⟨rfl, rfl⟩ := Prod.mk.inj heq
    have hattached := attached_received h hfuture hreply
    have hid : (a.received reply refusal rest).id = a.id := by
      unfold Activity.received
      split
      · split <;> rfl
      · rfl
    have hrequest : (a.received reply refusal rest).request = a.request := by
      unfold Activity.received
      split
      · split <;> rfl
      · rfl
    have hsame : SameSession a (a.received reply refusal rest) x x.read :=
      sameSession_read hid hrequest
    refine ⟨hsame, hsame.sound hx fun hidle ↦ ?_, hattached⟩
    have hplace := hplaceOf (by rw [hfuture]; rfl)
    change x.place = .idle at hidle
    rw [hplace] at hidle
    cases hidle
  · rename_i answer hfuture
    obtain ⟨reply, hreply, heq⟩ := Option.map_eq_some_iff.mp hstep
    obtain ⟨rfl, rfl⟩ := Prod.mk.inj heq
    have hattached := h.future
    rw [hfuture] at hattached
    exact stepped_giveBack hx (hplaceOf (by rw [hfuture]; rfl)) hattached.2.1 hreply rfl rfl
      fun _ ↦ attached_over hattached.1 rfl nofun h.connection nofun
  · rename_i rest hfuture
    have hattached := h.future
    rw [hfuture] at hattached
    split at hstep
    · obtain ⟨rfl, rfl⟩ := Prod.mk.inj (Option.some.inj hstep)
      exact hover _ rfl nofun hattached.1
    · cases hstep
  · rename_i answer hfuture
    have hattached := h.future
    rw [hfuture] at hattached
    split at hstep
    · obtain ⟨rfl, rfl⟩ := Prod.mk.inj (Option.some.inj hstep)
      exact hover _ rfl nofun hattached.1
    · cases hstep
  · rename_i rest hfuture
    have hattached := h.future
    rw [hfuture] at hattached
    obtain ⟨rfl, rfl⟩ := Prod.mk.inj (Option.some.inj hstep)
    exact hover _ rfl nofun hattached.1
  · rename_i answer hfuture
    have hattached := h.future
    rw [hfuture] at hattached
    obtain ⟨rfl, rfl⟩ := Prod.mk.inj (Option.some.inj hstep)
    exact hover _ rfl nofun hattached.1
  iterate 3
    obtain ⟨t, ht, heq⟩ := Option.map_eq_some_iff.mp hstep
    obtain ⟨rfl, rfl⟩ := Prod.mk.inj heq
    refine ⟨sameSession_keep rfl rfl, hx, ?_⟩
    exact attached_goTo h ht rfl rfl rfl nofun nofun nofun
  · rename_i ok hfuture
    obtain ⟨rfl, rfl⟩ := Prod.mk.inj (Option.some.inj hstep)
    refine ⟨sameSession_keep rfl rfl, hx, ?_⟩
    cases howner : a.owner with
    | none =>
        refine attached_over howner rfl nofun h.connection fun hplace ↦ ?_
        have hholds := h.place.mp hplace
        rw [holds_eq_false_of_none howner (by rw [hfuture]; rfl)] at hholds
        cases hholds
    | some t =>
        have hattached : ((a.goTo (.finished ok)).withTask t).Attached keys x :=
          attached_goTo h howner rfl rfl rfl nofun (fun _ ↦ by rw [hfuture]; rfl) fun _ ↦ rfl
        rwa [Activity.goTo_withTask howner] at hattached
  · obtain ⟨t, ht, heq⟩ := Option.map_eq_some_iff.mp hstep
    obtain ⟨rfl, rfl⟩ := Prod.mk.inj heq
    exact ⟨sameSession_keep rfl rfl, hx, attached_goTo h ht rfl rfl rfl nofun nofun nofun⟩
  · rename_i answer hfuture
    obtain ⟨t, ht, heq⟩ := Option.bind_eq_some_iff.mp hstep
    split at heq
    · obtain ⟨rfl, rfl⟩ := Prod.mk.inj (Option.some.inj heq)
      refine ⟨sameSession_keep rfl rfl, hx, ?_⟩
      have hattached : ((a.goTo (.returned answer)).withTask t).Attached keys x :=
        attached_goTo h ht rfl rfl rfl nofun nofun nofun
      rwa [Activity.goTo_withTask ht] at hattached
    · cases heq
  · cases hstep

/-- The task turns to another phase and its connection is in the state that the
phase asks for. -/
theorem attached_withTask {t' : OwnerTask} (h : a.Attached keys x) (hid : x'.id = x.id) (hplace : x'.place = .checkedOut ↔ t'.phase ≠ .done)
    (hattached : t'.Attached keys (a.withTask t') x') : (a.withTask t').Attached keys x' := by
  refine ⟨by rw [hid]; exact h.connection, ?_, ?_, fun u hu ↦ ?_⟩
  · by_cases hdone : t'.phase = .done
    · rw [holds_eq_false_of_task rfl hdone hattached.acquired]
      simp [hplace, hdone]
    · exact iff_of_true (hplace.mpr hdone) (holds_of_task rfl hdone)
  · have hacquired := hattached.acquired
    have hfuture := h.future
    change a.future.isAcquiring = false at hacquired
    change match a.future with
      | .acquiring _ => _
      | .refusing _ => _
      | .waiting => False
      | _ => True
    cases hphase : a.future with
    | acquiring rest => rw [hphase] at hacquired; cases hacquired
    | refusing answer => rw [hphase] at hacquired; cases hacquired
    | waiting => rw [hphase] at hfuture; exact hfuture
    | _ => trivial
  · obtain rfl := Option.some.inj hu
    exact hattached

/-- The task gives its connection up. -/
theorem stepped_taskDiscard {t t' : OwnerTask} (h : a.Attached keys x) (hx : x.Sound)
    (ht : a.owner = some t) (hdone : t'.phase = .done) (hlease : t'.lease ≠ .released) (hcommand : t'.command = t.command) :
    Stepped keys a (a.withTask t') x x.discard := by
  have hattached := h.task t ht
  refine stepped_discard hx rfl rfl (attached_withTask h rfl ?_ ?_)
  · exact iff_of_false nofun (not_not.mpr hdone)
  · refine ⟨by rw [hdone]; trivial, fun hor ↦ ?_, fun _ ↦ nofun, fun hat ↦ ?_,
      hattached.acquired, ?_, ?_, ?_⟩
    · rw [hdone] at hor
      obtain ⟨hcovers, hsent⟩ := hattached.covers (Or.inr (hor.resolve_left nofun))
      exact ⟨hcovers.same rfl rfl, hsent⟩
    · rw [hcommand, hdone]
      exact ⟨(hattached.command hat).1, nofun⟩
    · exact fun hreleased ↦ absurd hreleased hlease
    · exact fun hphase ↦ absurd hdone hphase
    · exact fun _ ↦ nofun

theorem stepped_taskStep {t : OwnerTask} (h : a.Attached keys x) (hx : x.Sound)
    (ht : a.owner = some t) (hstep : a.taskStep x event t = some (a', x')) :
    Stepped keys a a' x x' := by
  have hattached := h.task t ht
  have hphase := hattached.phase
  have hplaceOf (hopen : t.phase ≠ .done) : x.place = .checkedOut :=
    h.place.mpr (holds_of_task ht hopen)
  have hnotIdle (hopen : t.phase ≠ .done) (hidle : x.place = .idle) : False := by
    rw [hplaceOf hopen] at hidle
    cases hidle
  unfold Activity.taskStep at hstep
  split at hstep
  · rename_i hidle
    have hopen : t.phase ≠ .done := by rw [hidle]; exact nofun
    have hquiet : x.isQuiet = true := by rwa [hidle] at hphase
    rw [if_pos hquiet] at hstep
    obtain ⟨rfl, rfl⟩ := Prod.mk.inj (Option.some.inj hstep)
    have hsame : SameSession a (a.withTask { t with phase := .probing }) x (x.send .probe) :=
      ⟨rfl, rfl, rfl, rfl, rfl, rfl, rfl, fun h ↦ h⟩
    refine ⟨hsame, hsame.sound hx fun hplace ↦ absurd hplace (hnotIdle hopen), ?_⟩
    refine attached_withTask h rfl (iff_of_true (hplaceOf hopen) nofun) ?_
    refine ⟨serves_send hquiet .probe, fun _ ↦ ?_, fun _ ↦ hnotIdle hopen, 
      fun hat ↦ ⟨(hattached.command hat).1, nofun⟩, hattached.acquired, fun hreleased ↦ ?_,
      fun _ ↦ hattached.open_ hopen, nofun⟩
    · obtain ⟨hcovers, _⟩ := hattached.covers (Or.inl (by rw [hidle]; rfl))
      exact ⟨hcovers.same rfl rfl, nofun⟩
    · exact absurd (hattached.released hreleased).1 hopen
  · rename_i hidle
    have hopen : t.phase ≠ .done := by rw [hidle]; exact nofun
    have hquiet : x.isQuiet = true := by rwa [hidle] at hphase
    split at hstep
    · rename_i hcommand
      obtain ⟨rfl, rfl⟩ := Prod.mk.inj (Option.some.inj hstep)
      have hsame : SameSession a (a.withTask { t with phase := .unlocking }) x
          (x.send .unlockAll) := ⟨rfl, rfl, rfl, rfl, rfl, rfl, rfl, fun h ↦ h⟩
      refine ⟨hsame, hsame.sound hx fun hplace ↦ absurd hplace (hnotIdle hopen), ?_⟩
      refine attached_withTask h rfl (iff_of_true (hplaceOf hopen) nofun) ?_
      have hnotAtWork : a.future.isAtWork ≠ true := fun hat ↦ hcommand (hattached.command hat).1
      refine ⟨serves_send hquiet .unlockAll, fun hor ↦ ?_, fun _ ↦ hnotIdle hopen,
        fun hat ↦ absurd hat hnotAtWork, hattached.acquired, fun hreleased ↦ ?_, fun _ ↦ hattached.open_ hopen, nofun⟩
      · exact absurd (hor.resolve_left nofun) hnotAtWork
      · exact absurd (hattached.released hreleased).1 hopen
    · cases hstep
  · rename_i hprobing
    have hopen : t.phase ≠ .done := by rw [hprobing]; exact nofun
    obtain ⟨reply, hreply, heq⟩ := Option.map_eq_some_iff.mp hstep
    obtain ⟨rfl, rfl⟩ := Prod.mk.inj heq
    rw [hprobing] at hphase
    have hsame : SameSession a (a.withTask { t with phase := .idle }) x x.read :=
      sameSession_read rfl rfl
    refine ⟨hsame, hsame.sound hx fun hplace ↦ absurd hplace (hnotIdle hopen), ?_⟩
    refine attached_withTask h rfl (iff_of_true (hplaceOf hopen) nofun) ?_
    refine ⟨isQuiet_read hphase hreply, fun _ ↦ ?_, fun _ ↦ hnotIdle hopen,
      fun hat ↦ ⟨(hattached.command hat).1, nofun⟩, hattached.acquired, fun hreleased ↦ ?_, fun _ ↦ hattached.open_ hopen, nofun⟩
    · obtain ⟨hcovers, hsent⟩ := hattached.covers (Or.inl (by rw [hprobing]; rfl))
      exact ⟨hcovers.same rfl rfl, hsent⟩
    · exact absurd (hattached.released hreleased).1 hopen
  · rename_i hunlocking
    have hopen : t.phase ≠ .done := by rw [hunlocking]; exact nofun
    obtain ⟨reply, hreply, heq⟩ := Option.map_eq_some_iff.mp hstep
    obtain ⟨rfl, rfl⟩ := Prod.mk.inj heq
    rw [hunlocking] at hphase
    have hnotAtWork : a.future.isAtWork ≠ true := fun hat ↦ (hattached.command hat).2 hunlocking
    refine stepped_giveBack hx (hplaceOf hopen) hphase hreply rfl rfl fun _ ↦ ?_
    refine attached_withTask h rfl (iff_of_false nofun (not_not.mpr rfl)) ?_
    refine ⟨trivial, fun hor ↦ ?_, fun hor ↦ ?_, fun hat ↦ absurd hat hnotAtWork,
      hattached.acquired, fun _ ↦ ⟨rfl, rfl⟩, fun hphase ↦ absurd rfl hphase, fun _ ↦ nofun⟩
    · exact absurd (hor.resolve_left nofun) hnotAtWork
    · exact absurd (hor.resolve_left nofun) hnotAtWork
  · split at hstep
    · obtain ⟨rfl, rfl⟩ := Prod.mk.inj (Option.some.inj hstep)
      exact stepped_taskDiscard h hx ht rfl nofun rfl
    · cases hstep
  · split at hstep
    · obtain ⟨rfl, rfl⟩ := Prod.mk.inj (Option.some.inj hstep)
      exact stepped_taskDiscard h hx ht rfl nofun rfl
    · cases hstep
  iterate 3
    rename_i hopening
    obtain ⟨rfl, rfl⟩ := Prod.mk.inj (Option.some.inj hstep)
    refine stepped_taskDiscard h hx ht rfl ?_ rfl
    have hheld := hattached.open_ (by rw [hopening]; exact nofun)
    exact fun hreleased ↦ absurd (hheld.symm.trans hreleased) nofun
  · cases hstep

theorem stepped_step (h : a.Attached keys x) (hx : x.Sound)
    (hstep : a.step x event = some (a', x')) : Stepped keys a a' x x' := by
  unfold Activity.step at hstep
  split at hstep
  all_goals first
    | exact stepped_futureStep h hx hstep
    | obtain ⟨t, ht, htask⟩ := Option.bind_eq_some_iff.mp hstep
      exact stepped_taskStep h hx ht htask

theorem futureStep_of_over (hacquiring : a.future.isAcquiring = false)
    (hdone : ∀ t, a.owner = some t → t.phase = .done ∧ a.future.isAtWork = false)
    (hstep : a.futureStep x event = some (a', x')) :
    x' = x ∧ a'.id = a.id ∧ a'.future ≠ .waiting ∧ a'.holds = false ∧ a'.isLeased = false := by
  unfold Activity.futureStep at hstep
  split at hstep
  iterate 8
    rename_i hfuture
    rw [hfuture] at hacquiring
    cases hacquiring
  iterate 3
    rename_i hfuture
    obtain ⟨t, ht, heq⟩ := Option.map_eq_some_iff.mp hstep
    obtain ⟨rfl, rfl⟩ := Prod.mk.inj heq
    refine ⟨rfl, rfl, nofun, ?_, ?_⟩
    · exact holds_eq_false_of_task rfl (hdone t ht).1 rfl
    · simp [Activity.isLeased, Activity.withTask, Activity.goTo, OwnerTask.close, (hdone t ht).1,
        TaskPhase.isOpen, FuturePhase.isAtWork]
  · rename_i ok hfuture
    obtain ⟨rfl, rfl⟩ := Prod.mk.inj (Option.some.inj hstep)
    cases howner : a.owner with
    | none =>
        exact ⟨rfl, rfl, nofun, holds_eq_false_of_none howner rfl, by
          simp [Activity.isLeased, Activity.goTo, howner]⟩
    | some t =>
        have hat := (hdone t howner).2
        rw [hfuture] at hat
        cases hat
  · rename_i ok hfuture
    obtain ⟨t, ht, heq⟩ := Option.map_eq_some_iff.mp hstep
    have hat := (hdone t ht).2
    rw [hfuture] at hat
    cases hat
  · obtain ⟨t, ht, heq⟩ := Option.bind_eq_some_iff.mp hstep
    rw [if_pos (hdone t ht).1] at heq
    obtain ⟨rfl, rfl⟩ := Prod.mk.inj (Option.some.inj heq)
    refine ⟨rfl, rfl, nofun, holds_eq_false_of_task ht (hdone t ht).1 rfl, ?_⟩
    simp [Activity.isLeased, Activity.goTo, ht, (hdone t ht).1, TaskPhase.isOpen,
      FuturePhase.isAtWork]
  · cases hstep

/-- A call that neither owns a connection nor has a lease can only end. -/
theorem step_of_over (hholds : a.holds = false) (hleased : a.isLeased = false)
    (hstep : a.step x event = some (a', x')) :
    x' = x ∧ a'.id = a.id ∧ a'.future ≠ .waiting ∧ a'.holds = false ∧ a'.isLeased = false := by
  have hdone : ∀ t, a.owner = some t → t.phase = .done ∧ a.future.isAtWork = false := by
    intro t ht
    refine ⟨?_, ?_⟩
    · by_contra hopen
      rw [holds_of_task ht hopen] at hholds
      cases hholds
    · by_contra hat
      simp [Activity.isLeased, ht, hat] at hleased
  have hacquiring : a.future.isAcquiring = false := by
    by_contra hacquiring
    rw [holds_of_acquiring (by simpa using hacquiring)] at hholds
    cases hholds
  unfold Activity.step at hstep
  split at hstep
  iterate 5
    obtain ⟨t, ht, htask⟩ := Option.bind_eq_some_iff.mp hstep
    unfold Activity.taskStep at htask
    rw [(hdone t ht).1] at htask
    cases htask
  exact futureStep_of_over hacquiring hdone hstep

theorem futureStep_lease (hacquiring : a.future.isAcquiring = false)
    (hstep : a.futureStep x event = some (a', x')) : a'.lease = a.lease := by
  unfold Activity.futureStep at hstep
  split at hstep
  iterate 8
    rename_i hfuture
    rw [hfuture] at hacquiring
    cases hacquiring
  iterate 3
    obtain ⟨t, ht, heq⟩ := Option.map_eq_some_iff.mp hstep
    obtain ⟨rfl, rfl⟩ := Prod.mk.inj heq
    simp [Activity.lease, Activity.withTask, OwnerTask.close, ht]
  · obtain ⟨rfl, rfl⟩ := Prod.mk.inj (Option.some.inj hstep)
    rfl
  · obtain ⟨t, ht, heq⟩ := Option.map_eq_some_iff.mp hstep
    obtain ⟨rfl, rfl⟩ := Prod.mk.inj heq
    simp [Activity.lease, Activity.withTask, ht]
  · obtain ⟨t, ht, heq⟩ := Option.bind_eq_some_iff.mp hstep
    split at heq
    · obtain ⟨rfl, rfl⟩ := Prod.mk.inj (Option.some.inj heq)
      rfl
    · cases heq
  · cases hstep

/-- A lease that is lost or released keeps its state. -/
theorem lease_step (hacquiring : a.owner ≠ none → a.future.isAcquiring = false)
    (hopen : ∀ t, a.owner = some t → t.phase ≠ .done → t.lease = .held) {lease : LeaseState}
    (hlease : a.lease = some lease) (hover : lease ≠ .held)
    (hstep : a.step x event = some (a', x')) : a'.lease = some lease := by
  obtain ⟨t, ht, rfl⟩ := Option.map_eq_some_iff.mp hlease
  have hdone : t.phase = .done := by
    by_contra hphase
    exact hover (hopen t ht hphase)
  unfold Activity.step at hstep
  split at hstep
  iterate 5
    obtain ⟨u, hu, htask⟩ := Option.bind_eq_some_iff.mp hstep
    obtain rfl := Option.some.inj (ht.symm.trans hu)
    unfold Activity.taskStep at htask
    rw [hdone] at htask
    cases htask
  rw [futureStep_lease (hacquiring (by rw [ht]; exact nofun)) hstep]
  exact hlease

end Calls

section States

variable {s : ActivityState} {a a' : Activity} {x x' : Connection}

def Activity.isCurrent (a : Activity) : Bool := a.holds || a.isLeased

/-- The invariant of all the pools. -/
structure ActivityState.Sound (keys : LockKeys) (s : ActivityState) : Prop where
  sessions : ∀ x ∈ s.connections, x.Sound
  compatible : ∀ x ∈ s.connections, ∀ y ∈ s.connections, x.id ≠ y.id →
    ∀ l ∈ x.locks, ∀ m ∈ y.locks, ¬ l.request.Conflicts m.request
  attached : ∀ a ∈ s.activities, ∀ x ∈ s.connections, x.user = some a.id → a.Attached keys x
  used : ∀ x ∈ s.connections, ∀ u, x.user = some u → ∃ a ∈ s.activities, a.id = u
  present : ∀ a ∈ s.activities, a.isCurrent = true → ∃ x ∈ s.connections, x.user = some a.id
  waiting : ∀ a ∈ s.activities, a.future = .waiting → a.owner = none

theorem sound_start : (ActivityState.start).Sound keys := by
  refine ⟨?_, ?_, ?_, ?_, ?_, ?_⟩ <;> intro y hy <;> exact absurd hy (Table.notMem_empty y)

theorem mem_putConnection {y : Connection} (hx : x ∈ s.connections) (hid : x'.id = x.id) :
    y ∈ (s.putConnection x').connections ↔ y = x' ∨ y ∈ s.connections ∧ y.id ≠ x.id := by
  have hmem := Table.mem_modify_key (t := s.connections) (s := y)
    (f := fun y ↦ { x' with id := y.id }) (fun _ ↦ rfl) hx
  unfold ActivityState.putConnection
  rw [hid]
  refine hmem.trans ?_
  rw [← hid]

theorem mem_putActivity {b : Activity} (ha : a ∈ s.activities) (hid : a'.id = a.id) :
    b ∈ (s.putActivity a').activities ↔ b = a' ∨ b ∈ s.activities ∧ b.id ≠ a.id := by
  have hmem := Table.mem_modify_key (t := s.activities) (s := b)
    (f := fun b ↦ { a' with id := b.id }) (fun _ ↦ rfl) ha
  unfold ActivityState.putActivity
  rw [hid]
  refine hmem.trans ?_
  rw [← hid]

/-- The invariant speaks of the rows only. -/
theorem ActivityState.Sound.congr {s' : ActivityState} (h : s.Sound keys)
    (hconnections : ∀ y, y ∈ s'.connections ↔ y ∈ s.connections)
    (hactivities : ∀ b, b ∈ s'.activities ↔ b ∈ s.activities) : s'.Sound keys where
  sessions y hy := h.sessions y ((hconnections y).mp hy)
  compatible y hy z hz := h.compatible y ((hconnections y).mp hy) z ((hconnections z).mp hz)
  attached b hb y hy := h.attached b ((hactivities b).mp hb) y ((hconnections y).mp hy)
  used y hy u hu := by
    obtain ⟨b, hb, hid⟩ := h.used y ((hconnections y).mp hy) u hu
    exact ⟨b, (hactivities b).mpr hb, hid⟩
  present b hb hcurrent := by
    obtain ⟨y, hy, huser⟩ := h.present b ((hactivities b).mp hb) hcurrent
    exact ⟨y, (hconnections y).mpr hy, huser⟩
  waiting b hb := h.waiting b ((hactivities b).mp hb)

theorem ActivityState.Sound.connect (h : s.Sound keys) {id process : ℕ}
    {connections : Table Connection.id}
    (hinsert : s.connections.insert? (.open_ id process) = some connections) :
    ({ s with connections } : ActivityState).Sound keys where
  sessions y hy := by
    rcases (Table.mem_insert hinsert).mp hy with rfl | hy
    · exact ⟨fun _ ↦ rfl, fun _ ↦ ⟨rfl, rfl, rfl⟩, fun l hl ↦ absurd hl List.not_mem_nil⟩
    · exact h.sessions y hy
  compatible y hy z hz hne l hl m hm := by
    rcases (Table.mem_insert hinsert).mp hy with rfl | hy
    · exact absurd hl List.not_mem_nil
    rcases (Table.mem_insert hinsert).mp hz with rfl | hz
    · exact absurd hm List.not_mem_nil
    exact h.compatible y hy z hz hne l hl m hm
  attached b hb y hy huser := by
    rcases (Table.mem_insert hinsert).mp hy with rfl | hy
    · cases huser
    · exact h.attached b hb y hy huser
  used y hy u huser := by
    rcases (Table.mem_insert hinsert).mp hy with rfl | hy
    · cases huser
    · exact h.used y hy u huser
  present b hb hcurrent := by
    obtain ⟨y, hy, huser⟩ := h.present b hb hcurrent
    exact ⟨y, (Table.mem_insert hinsert).mpr (Or.inr hy), huser⟩
  waiting := h.waiting

theorem ActivityState.Sound.begin_ (h : s.Sound keys) {id process : ℕ} {call : ActivityCall}
    {activities : Table Activity.id}
    (hinsert : s.activities.insert? (.begin_ id process call) = some activities) :
    ({ s with activities } : ActivityState).Sound keys where
  sessions := h.sessions
  compatible := h.compatible
  attached b hb y hy huser := by
    rcases (Table.mem_insert hinsert).mp hb with rfl | hb
    · obtain ⟨b, hb, hid⟩ := h.used y hy id huser
      have hfree := Table.find?_eq_none_iff.mp (Table.insert?_eq_some_iff.mp hinsert).1 b hb
      exact absurd hid hfree
    · exact h.attached b hb y hy huser
  used y hy u huser := by
    obtain ⟨b, hb, hid⟩ := h.used y hy u huser
    exact ⟨b, (Table.mem_insert hinsert).mpr (Or.inr hb), hid⟩
  present b hb hcurrent := by
    rcases (Table.mem_insert hinsert).mp hb with rfl | hb
    · cases hcurrent
    · exact h.present b hb hcurrent
  waiting b hb hwaiting := by
    rcases (Table.mem_insert hinsert).mp hb with rfl | hb
    · rfl
    · exact h.waiting b hb hwaiting

/-- A call and the connection that is its own from now on. -/
theorem ActivityState.Sound.pair (h : s.Sound keys) (ha : a ∈ s.activities)
    (hx : x ∈ s.connections) (haid : a'.id = a.id) (hxid : x'.id = x.id)
    (huser : x'.user = some a.id) (hsound : x'.Sound) (hattached : a'.Attached keys x')
    (hlocks : x'.locks = x.locks)
    (hothers : ∀ b ∈ s.activities, b.id ≠ a.id → x.user = some b.id → b.isCurrent = false)
    (hself : ∀ y ∈ s.connections, y.id ≠ x.id → y.user ≠ some a.id) :
    ((s.putActivity a').putConnection x').Sound keys := by
  have hconnections : ∀ y, y ∈ ((s.putActivity a').putConnection x').connections ↔
      y = x' ∨ y ∈ s.connections ∧ y.id ≠ x.id := fun y ↦
    mem_putConnection (s := s.putActivity a') hx hxid
  have hactivities : ∀ b, b ∈ ((s.putActivity a').putConnection x').activities ↔
      b = a' ∨ b ∈ s.activities ∧ b.id ≠ a.id := fun b ↦ mem_putActivity ha haid
  refine ⟨fun y hy ↦ ?_, fun y hy z hz hne l hl m hm ↦ ?_, fun b hb y hy hyuser ↦ ?_,
    fun y hy u hyuser ↦ ?_, fun b hb hcurrent ↦ ?_, fun b hb hwaiting ↦ ?_⟩
  · rcases (hconnections y).mp hy with rfl | ⟨hy, _⟩
    · exact hsound
    · exact h.sessions y hy
  · have hsame : ∀ w ∈ ((s.putActivity a').putConnection x').connections,
        ∃ v ∈ s.connections, v.id = w.id ∧ v.locks = w.locks := by
      intro w hw
      rcases (hconnections w).mp hw with rfl | ⟨hw, _⟩
      · exact ⟨x, hx, hxid.symm, hlocks.symm⟩
      · exact ⟨w, hw, rfl, rfl⟩
    obtain ⟨v, hv, hvid, hvlocks⟩ := hsame y hy
    obtain ⟨w, hw, hwid, hwlocks⟩ := hsame z hz
    refine h.compatible v hv w hw (by rwa [hvid, hwid]) l (by rwa [hvlocks]) m (by rwa [hwlocks])
  · rcases (hactivities b).mp hb with rfl | ⟨hb, hbid⟩ <;>
      rcases (hconnections y).mp hy with rfl | ⟨hy, hyid⟩
    · exact hattached
    · rw [haid] at hyuser
      exact absurd hyuser (hself y hy hyid)
    · rw [huser] at hyuser
      exact absurd (Option.some.inj hyuser).symm hbid
    · exact h.attached b hb y hy hyuser
  · have hkept : ∀ b ∈ s.activities, ∃ b' ∈ ((s.putActivity a').putConnection x').activities,
        b'.id = b.id := by
      intro b hb
      by_cases hbid : b.id = a.id
      · exact ⟨a', (hactivities a').mpr (Or.inl rfl), haid.trans hbid.symm⟩
      · exact ⟨b, (hactivities b).mpr (Or.inr ⟨hb, hbid⟩), rfl⟩
    rcases (hconnections y).mp hy with rfl | ⟨hy, _⟩
    · rw [huser] at hyuser
      obtain ⟨b, hb, hid⟩ := hkept a ha
      exact ⟨b, hb, hid.trans (Option.some.inj hyuser)⟩
    · obtain ⟨b, hb, rfl⟩ := h.used y hy u hyuser
      exact hkept b hb
  · rcases (hactivities b).mp hb with rfl | ⟨hb, hbid⟩
    · exact ⟨x', (hconnections x').mpr (Or.inl rfl), by rw [haid]; exact huser⟩
    · obtain ⟨y, hy, hyuser⟩ := h.present b hb hcurrent
      refine ⟨y, (hconnections y).mpr (Or.inr ⟨hy, fun hyid ↦ ?_⟩), hyuser⟩
      rw [Table.eq_of_key_eq hy hx hyid] at hyuser
      rw [hothers b hb hbid hyuser] at hcurrent
      cases hcurrent
  · rcases (hactivities b).mp hb with rfl | ⟨hb, _⟩
    · have hfuture := hattached.future
      rw [hwaiting] at hfuture
      exact hfuture.elim
    · exact h.waiting b hb hwaiting

/-- A call without a connection of its own ends. -/
theorem ActivityState.Sound.putActivity (h : s.Sound keys) (ha : a ∈ s.activities)
    (haid : a'.id = a.id) (hcurrent : a'.isCurrent = false)
    (hwaiting : a'.future = .waiting → a'.owner = none)
    (hself : ∀ y ∈ s.connections, y.user ≠ some a.id) : (s.putActivity a').Sound keys := by
  have hactivities : ∀ b, b ∈ (s.putActivity a').activities ↔
      b = a' ∨ b ∈ s.activities ∧ b.id ≠ a.id := fun b ↦ mem_putActivity ha haid
  refine ⟨h.sessions, h.compatible, fun b hb y hy hyuser ↦ ?_, fun y hy u hyuser ↦ ?_,
    fun b hb hcurrent' ↦ ?_, fun b hb ↦ ?_⟩
  · rcases (hactivities b).mp hb with rfl | ⟨hb, _⟩
    · rw [haid] at hyuser
      exact absurd hyuser (hself y hy)
    · exact h.attached b hb y hy hyuser
  · obtain ⟨b, hb, rfl⟩ := h.used y hy u hyuser
    refine ⟨b, (hactivities b).mpr (Or.inr ⟨hb, fun hid ↦ ?_⟩), rfl⟩
    rw [hid] at hyuser
    exact hself y hy hyuser
  · rcases (hactivities b).mp hb with rfl | ⟨hb, _⟩
    · rw [hcurrent] at hcurrent'
      cases hcurrent'
    · exact h.present b hb hcurrent'
  · rcases (hactivities b).mp hb with rfl | ⟨hb, _⟩
    · exact hwaiting
    · exact h.waiting b hb

/-- What happens at the other end of a connection. -/
structure Served (x x' : Connection) : Prop where
  id : x'.id = x.id
  user : x'.user = x.user
  place : x'.place = x.place
  sent : x'.sent = none
  quiet : x.isQuiet = true → x'.isQuiet = true
  serves : ∀ statement, x.Serves statement → x'.Serves statement
  covers : ∀ done, x.sent ≠ some .unlockAll → x.Covers done → x'.Covers done

theorem Activity.Attached.served (h : a.Attached keys x) (hserved : Served x x') :
    a.Attached keys x' := by
  have hfuture := h.future
  refine ⟨by rw [hserved.id]; exact h.connection, by rw [hserved.place]; exact h.place, ?_,
    fun t ht ↦ ?_⟩
  · cases hphase : a.future with
    | acquiring rest =>
        rw [hphase] at hfuture
        obtain ⟨howner, done, p, rest', hrest, hsplit, hcovers, hserves⟩ := hfuture
        refine ⟨howner, done, p, rest', hrest, hsplit, hserved.covers done ?_ hcovers,
          hserved.serves _ hserves⟩
        intro hsent
        have hmem : p ∈ acquisition keys a.request := by rw [hsplit, hrest]; simp
        exact acquisition_ne_unlockAll hmem (hserves.sent _ hsent).1.symm
    | refusing answer =>
        rw [hphase] at hfuture
        exact ⟨hfuture.1, hserved.serves _ hfuture.2.1, hfuture.2.2⟩
    | waiting => rw [hphase] at hfuture; exact hfuture
    | _ => trivial
  · have hattached := h.task t ht
    have htask := hattached.phase
    refine ⟨?_, fun hor ↦ ?_, ?_, hattached.command, hattached.acquired, ?_, hattached.open_, ?_⟩
    · cases hphase : t.phase with
      | idle => rw [hphase] at htask; exact hserved.quiet htask
      | probing => rw [hphase] at htask; exact hserved.serves _ htask
      | unlocking => rw [hphase] at htask; exact hserved.serves _ htask
      | done => trivial
    · obtain ⟨hcovers, hsent⟩ := hattached.covers hor
      refine ⟨hserved.covers _ hsent hcovers, ?_⟩
      rw [hserved.sent]
      exact nofun
    · rw [hserved.place]
      exact hattached.kept
    · rw [hserved.place]
      exact hattached.released
    · rw [hserved.place]
      exact hattached.doneHeld

theorem ActivityState.Sound.putConnection (h : s.Sound keys) (hx : x ∈ s.connections)
    (hserved : Served x x') (hsound : x'.Sound)
    (hcompatible : ∀ y ∈ s.connections, y.id ≠ x.id → ∀ l ∈ x'.locks, ∀ m ∈ y.locks,
      ¬ l.request.Conflicts m.request) : (s.putConnection x').Sound keys := by
  have hconnections : ∀ y, y ∈ (s.putConnection x').connections ↔
      y = x' ∨ y ∈ s.connections ∧ y.id ≠ x.id := fun y ↦ mem_putConnection hx hserved.id
  refine ⟨fun y hy ↦ ?_, fun y hy z hz hne l hl m hm ↦ ?_, fun b hb y hy hyuser ↦ ?_,
    fun y hy u hyuser ↦ ?_, fun b hb hcurrent ↦ ?_, h.waiting⟩
  · rcases (hconnections y).mp hy with rfl | ⟨hy, _⟩
    · exact hsound
    · exact h.sessions y hy
  · rcases (hconnections y).mp hy with rfl | ⟨hy', hyid⟩ <;>
      rcases (hconnections z).mp hz with rfl | ⟨hz', hzid⟩
    · exact absurd rfl hne
    · exact hcompatible z hz' hzid l hl m hm
    · exact fun hconflict ↦ hcompatible y hy' hyid m hm l hl hconflict.symm
    · exact h.compatible y hy' z hz' hne l hl m hm
  · rcases (hconnections y).mp hy with rfl | ⟨hy, _⟩
    · rw [hserved.user] at hyuser
      exact (h.attached b hb x hx hyuser).served hserved
    · exact h.attached b hb y hy hyuser
  · rcases (hconnections y).mp hy with rfl | ⟨hy, _⟩
    · rw [hserved.user] at hyuser
      exact h.used x hx u hyuser
    · exact h.used y hy u hyuser
  · obtain ⟨y, hy, hyuser⟩ := h.present b hb hcurrent
    by_cases hyid : y.id = x.id
    · rw [Table.eq_of_key_eq hy hx hyid] at hyuser
      exact ⟨x', (hconnections x').mpr (Or.inl rfl), hserved.user.trans hyuser⟩
    · exact ⟨y, (hconnections y).mpr (Or.inr ⟨hy, hyid⟩), hyuser⟩

theorem served_break (x : Connection) : Served x x.break_ where
  id := rfl
  user := rfl
  place := rfl
  sent := rfl
  quiet hquiet := isQuiet_iff.mpr ⟨rfl, (isQuiet_iff.mp hquiet).2⟩
  serves statement hserves := by
    refine ⟨nofun, fun reply hreply ↦ ?_⟩
    have hbears := hserves.reply reply hreply
    cases statement with
    | tryLock key mode => exact fun _ _ halive ↦ absurd halive nofun
    | unlockAll => rfl
    | _ => trivial
  covers done _ _ halive := absurd halive nofun

/-- What the session makes of a statement. -/
structure Executed (s : ActivityState) (x x' : Connection) (statement : Statement) : Prop where
  id : x'.id = x.id
  user : x'.user = x.user
  place : x'.place = x.place
  alive : x'.alive = x.alive
  sent : x'.sent = none
  reply : ∃ reply, x'.reply = some reply ∧ x'.Bears reply statement
  locks : statement = .unlockAll ∧ x'.locks = [] ∨ x'.locks = x.locks ∨
    ∃ request, s.grants x.id request = true ∧ x'.locks = ⟨request, x.user⟩ :: x.locks

theorem executed_execute (s : ActivityState) (x : Connection) (contended : Bool)
    (statement : Statement) : Executed s x (s.execute x contended statement) statement := by
  cases statement with
  | tryLock key mode =>
      unfold ActivityState.execute
      dsimp only
      split
      · rename_i hgranted
        refine ⟨rfl, rfl, rfl, rfl, rfl, ⟨_, rfl, fun _ _ _ ↦ ?_⟩, Or.inr (Or.inr ⟨_, ?_, rfl⟩)⟩
        · exact ⟨_, List.mem_cons_self, rfl⟩
        · exact (Bool.and_eq_true_iff.mp hgranted).2
      · exact ⟨rfl, rfl, rfl, rfl, rfl, ⟨_, rfl, fun _ haccepts ↦ absurd haccepts nofun⟩,
          Or.inr (Or.inl rfl)⟩
  | countAccounts ids allowBanned =>
      exact ⟨rfl, rfl, rfl, rfl, rfl, ⟨_, rfl, trivial⟩, Or.inr (Or.inl rfl)⟩
  | unlockAll => exact ⟨rfl, rfl, rfl, rfl, rfl, ⟨_, rfl, rfl⟩, Or.inl ⟨rfl, rfl⟩⟩
  | backendPid => exact ⟨rfl, rfl, rfl, rfl, rfl, ⟨_, rfl, trivial⟩, Or.inr (Or.inl rfl)⟩
  | probe => exact ⟨rfl, rfl, rfl, rfl, rfl, ⟨_, rfl, trivial⟩, Or.inr (Or.inl rfl)⟩

theorem Executed.served {statement : Statement} (h : Executed s x x' statement)
    (hsent : x.sent = some statement) : Served x x' where
  id := h.id
  user := h.user
  place := h.place
  sent := h.sent
  quiet hquiet := by
    rw [(isQuiet_iff.mp hquiet).1] at hsent
    cases hsent
  serves other hserves := by
    obtain ⟨rfl, _⟩ := hserves.sent statement hsent
    obtain ⟨reply, hreply, hbears⟩ := h.reply
    refine ⟨fun other hother ↦ ?_, fun reply' hreply' ↦ ?_⟩
    · rw [h.sent] at hother
      cases hother
    · obtain rfl := Option.some.inj (hreply.symm.trans hreply')
      exact hbears
  covers done hunlock hcovers halive p hp key mode hstatement := by
    obtain ⟨lock, hlock, heq⟩ := hcovers (h.alive.symm.trans halive) p hp key mode hstatement
    rcases h.locks with ⟨rfl, _⟩ | hlocks | ⟨request, _, hlocks⟩
    · exact absurd hsent hunlock
    · exact ⟨lock, by rwa [hlocks], heq⟩
    · exact ⟨lock, by rw [hlocks]; exact List.mem_cons_of_mem _ hlock, heq⟩

theorem ActivityState.Sound.execute {statement : Statement} (h : s.Sound keys)
    (hx : x ∈ s.connections) (halive : x.alive = true) (hsent : x.sent = some statement)
    (hexecuted : Executed s x x' statement) : (s.putConnection x').Sound keys := by
  have hsound := h.sessions x hx
  refine h.putConnection hx (hexecuted.served hsent) ⟨?_, ?_, ?_⟩ ?_
  · intro hdead
    rw [hexecuted.alive, halive] at hdead
    cases hdead
  · intro hidle
    rw [hexecuted.place] at hidle
    have hnone := (hsound.idle hidle).2.1
    rw [hsent] at hnone
    cases hnone
  · rw [hexecuted.user]
    intro lock hlock
    rcases hexecuted.locks with ⟨_, hlocks⟩ | hlocks | ⟨request, _, hlocks⟩
    · rw [hlocks] at hlock
      exact absurd hlock List.not_mem_nil
    · rw [hlocks] at hlock
      exact hsound.takers lock hlock
    · rw [hlocks] at hlock
      rcases List.mem_cons.mp hlock with rfl | hlock
      · rfl
      · exact hsound.takers lock hlock
  · intro y hy hyid l hl m hm
    rcases hexecuted.locks with ⟨_, hlocks⟩ | hlocks | ⟨request, hgrants, hlocks⟩
    · rw [hlocks] at hl
      exact absurd hl List.not_mem_nil
    · rw [hlocks] at hl
      exact h.compatible x hx y hy (Ne.symm hyid) l hl m hm
    · rw [hlocks] at hl
      rcases List.mem_cons.mp hl with rfl | hl
      · have hall := List.all_eq_true.mp hgrants y hy
        rcases Bool.or_eq_true_iff.mp hall with hsame | hfree
        · exact absurd (of_decide_eq_true hsame) hyid
        · have hlock := List.all_eq_true.mp hfree m hm
          intro hconflict
          simp [hconflict.symm] at hlock
      · exact h.compatible x hx y hy (Ne.symm hyid) l hl m hm

theorem ActivityState.Sound.break_ (h : s.Sound keys) (hx : x ∈ s.connections) :
    (s.putConnection x.break_).Sound keys := by
  have hsound := h.sessions x hx
  refine h.putConnection hx (served_break x) ⟨fun _ ↦ rfl, fun hidle ↦ ?_, ?_⟩ ?_
  · exact ⟨rfl, rfl, (hsound.idle hidle).2.2⟩
  · exact fun l hl ↦ absurd hl List.not_mem_nil
  · exact fun y _ _ l hl ↦ absurd hl List.not_mem_nil

/-- The user of an idle connection has done with it. -/
theorem isCurrent_eq_false_of_idle (h : a.Attached keys x) (hidle : x.place = .idle) :
    a.isCurrent = false := by
  have hholds : a.holds = false := by
    by_contra hholds
    have hplace := h.place.mpr (by simpa using hholds)
    rw [hidle] at hplace
    cases hplace
  have hleased : a.isLeased = false := by
    by_contra hleased
    rw [Bool.not_eq_false, Activity.isLeased, Option.any_eq_true] at hleased
    obtain ⟨t, ht, hor⟩ := hleased
    exact (h.task t ht).kept (Bool.or_eq_true_iff.mp hor) hidle
  simp [Activity.isCurrent, hholds, hleased]

/-- A call that waits has used no connection. -/
theorem ActivityState.Sound.unused (h : s.Sound keys) (ha : a ∈ s.activities)
    (hwaiting : a.future = .waiting) : ∀ y ∈ s.connections, y.user ≠ some a.id := by
  intro y hy huser
  have hfuture := (h.attached a ha y hy huser).future
  rw [hwaiting] at hfuture
  exact hfuture

/-- A call that waits takes an idle connection. -/
theorem ActivityState.Sound.checkOut (h : s.Sound keys) (ha : a ∈ s.activities)
    (hx : x ∈ s.connections) (hwaiting : a.future = .waiting) (hidle : x.place = .idle) :
    ((s.putActivity (a.checkOut x keys)).putConnection (x.checkOut a.id)).Sound keys := by
  obtain ⟨hlocks, hsent, hreply⟩ := (h.sessions x hx).idle hidle
  have hquiet : (x.checkOut a.id).isQuiet = true := isQuiet_iff.mpr ⟨hsent, hreply⟩
  have howner := h.waiting a ha hwaiting
  refine h.pair ha hx rfl rfl rfl ⟨fun hdead ↦ ?_, nofun, ?_⟩ ⟨rfl, ?_, ?_, fun t ht ↦ ?_⟩ rfl
    (fun b hb _ huser ↦ ?_) fun y hy _ ↦ h.unused ha hwaiting y hy
  · exact (h.sessions x hx).dead hdead
  · intro l hl
    change l ∈ x.locks at hl
    rw [hlocks] at hl
    exact absurd hl List.not_mem_nil
  · exact iff_of_true rfl rfl
  · obtain ⟨p, rest, hsplit⟩ : ∃ p rest, acquisition keys a.request = p :: rest := by
      cases hsplit : acquisition keys a.request with
      | nil => simp [acquisition] at hsplit
      | cons p rest => exact ⟨p, rest, rfl⟩
    exact ⟨howner, [], p, rest, hsplit, rfl, fun _ p hp ↦ absurd hp List.not_mem_nil,
      serves_of_quiet hquiet p.1⟩
  · exact absurd (howner.symm.trans ht) nofun
  · exact isCurrent_eq_false_of_idle (h.attached b hb x hx huser) hidle

theorem ActivityState.Sound.giveUp (h : s.Sound keys) (ha : a ∈ s.activities)
    (hwaiting : a.future = .waiting) {future : FuturePhase} (hacquiring : future.isAcquiring = false)
    : (s.putActivity (a.goTo future)).Sound keys := by
  have howner := h.waiting a ha hwaiting
  refine h.putActivity ha rfl ?_ (fun _ ↦ howner) (h.unused ha hwaiting)
  simp [Activity.isCurrent, Activity.holds, Activity.isLeased, Activity.goTo, howner, hacquiring]

theorem ActivityState.Sound.act (h : s.Sound keys) (ha : a ∈ s.activities)
    (hx : x ∈ s.connections) (hconnection : a.connection = some x.id) {event : ActivityEvent}
    (hstep : a.step x event = some (a', x')) :
    ((s.putActivity a').putConnection x').Sound keys := by
  by_cases huser : x.user = some a.id
  · have hstepped := stepped_step (h.attached a ha x hx huser) (h.sessions x hx) hstep
    refine h.pair ha hx hstepped.same.activity hstepped.same.id (hstepped.same.user.trans huser)
      hstepped.sound hstepped.attached hstepped.same.locks (fun b _ hbid hbuser ↦ ?_)
      fun y hy hyid hyuser ↦ ?_
    · exact absurd (Option.some.inj (hbuser.symm.trans huser)) hbid
    · have hother := (h.attached a ha y hy hyuser).connection
      exact hyid (Option.some.inj (hother.symm.trans hconnection))
  · have hself : ∀ y ∈ s.connections, y.user ≠ some a.id := by
      intro y hy hyuser
      have hother := (h.attached a ha y hy hyuser).connection
      have hid := Option.some.inj (hother.symm.trans hconnection)
      rw [Table.eq_of_key_eq hy hx hid] at hyuser
      exact huser hyuser
    have hcurrent : a.isCurrent = false := by
      by_contra hcurrent
      obtain ⟨y, hy, hyuser⟩ := h.present a ha (by simpa using hcurrent)
      exact hself y hy hyuser
    obtain ⟨hholds, hleased⟩ := Bool.or_eq_false_iff.mp hcurrent
    obtain ⟨rfl, haid, hnotWaiting, hholds', hleased'⟩ := step_of_over hholds hleased hstep
    have hput : (s.putActivity a').Sound keys := by
      refine h.putActivity ha haid ?_ (fun hwaiting ↦ absurd hwaiting hnotWaiting) hself
      simp [Activity.isCurrent, hholds', hleased']
    refine hput.congr (fun y ↦ ?_) fun b ↦ Iff.rfl
    rw [mem_putConnection (s := s.putActivity a') hx rfl]
    constructor
    · rintro (rfl | ⟨hy, _⟩)
      · exact hx
      · exact hy
    · intro hy
      by_cases hid : y.id = x'.id
      · exact Or.inl (Table.eq_of_key_eq hy hx hid)
      · exact Or.inr ⟨hy, hid⟩

end States

section Runs

variable {s : ActivityState} {step : ActivityStep} {as : List ActivityStep}

/-- Everything one step can do. -/
inductive ActivityEffect (keys : LockKeys) (s : ActivityState) : ActivityStep → ActivityState → Prop
  | account (userId : Uuid) (status : AccountStatus) :
      ActivityEffect keys s (.setAccount userId status)
        { s with accounts := Function.update s.accounts userId status }
  | connected (id process : ℕ) (connections : Table Connection.id)
      (h : s.connections.insert? (.open_ id process) = some connections) :
      ActivityEffect keys s (.connect id process) { s with connections }
  | begun (id process : ℕ) (call : ActivityCall) (activities : Table Activity.id)
      (h : s.activities.insert? (.begin_ id process call) = some activities) :
      ActivityEffect keys s (.begin_ id process call) { s with activities }
  | checkedOut (a : Activity) (x : Connection) (ha : a ∈ s.activities) (hx : x ∈ s.connections)
      (hwaiting : a.future = .waiting) (hidle : x.place = .idle) :
      ActivityEffect keys s (.checkOut a.id x.id)
        ((s.putActivity (a.checkOut x keys)).putConnection (x.checkOut a.id))
  | gaveUp (a : Activity) (cancelled : Bool) (ha : a ∈ s.activities) (hwaiting : a.future = .waiting) :
      ActivityEffect keys s (.giveUp a.id cancelled)
        (s.putActivity (a.goTo (if cancelled then .dropped else .returned .activityUnavailable)))
  | acted (a a' : Activity) (x x' : Connection) (event : ActivityEvent) (ha : a ∈ s.activities)
      (hx : x ∈ s.connections) (hconnection : a.connection = some x.id)
      (h : a.step x event = some (a', x')) :
      ActivityEffect keys s (.act a.id event) ((s.putActivity a').putConnection x')
  | executed (x : Connection) (contended : Bool) (statement : Statement) (hx : x ∈ s.connections)
      (halive : x.alive = true) (hsent : x.sent = some statement) :
      ActivityEffect keys s (.execute x.id contended)
        (s.putConnection (s.execute x contended statement))
  | broken (x : Connection) (hx : x ∈ s.connections) :
      ActivityEffect keys s (.break_ x.id) (s.putConnection x.break_)

theorem activityEffect_of_enabled (h : (activityPools keys).Enabled s step) :
    ActivityEffect keys s step ((activityPools keys).next s step) := by
  obtain ⟨s', hattempt⟩ := Option.isSome_iff_exists.mp h
  have hnext : (activityPools keys).next s step = s' := by
    change (s.attempt keys step).getD s = s'
    rw [hattempt]
    rfl
  rw [hnext]
  cases step with
  | setAccount userId status =>
      obtain rfl := Option.some.inj hattempt
      exact .account userId status
  | connect connection process =>
      obtain ⟨connections, hinsert, rfl⟩ := Option.map_eq_some_iff.mp hattempt
      exact .connected connection process connections hinsert
  | begin_ activity process call =>
      obtain ⟨activities, hinsert, rfl⟩ := Option.map_eq_some_iff.mp hattempt
      exact .begun activity process call activities hinsert
  | checkOut activity connection =>
      obtain ⟨a, ha, hrest⟩ := Option.bind_eq_some_iff.mp hattempt
      obtain ⟨hfind, hwaiting⟩ := Option.filter_eq_some_iff.mp ha
      obtain ⟨x, hx, rfl⟩ := Option.map_eq_some_iff.mp hrest
      obtain ⟨hfound, hplace⟩ := Option.filter_eq_some_iff.mp hx
      obtain ⟨hmem, rfl⟩ := Table.find?_eq_some_iff.mp hfind
      obtain ⟨hxmem, rfl⟩ := Table.find?_eq_some_iff.mp hfound
      exact .checkedOut a x hmem hxmem (of_decide_eq_true hwaiting)
        (of_decide_eq_true (Bool.and_eq_true_iff.mp hplace).1)
  | giveUp activity cancelled =>
      obtain ⟨a, ha, rfl⟩ := Option.map_eq_some_iff.mp hattempt
      obtain ⟨hfind, hwaiting⟩ := Option.filter_eq_some_iff.mp ha
      obtain ⟨hmem, rfl⟩ := Table.find?_eq_some_iff.mp hfind
      exact .gaveUp a cancelled hmem (of_decide_eq_true hwaiting)
  | act activity event =>
      obtain ⟨a, ha, hrest⟩ := Option.bind_eq_some_iff.mp hattempt
      obtain ⟨x, hx, hstep⟩ := Option.bind_eq_some_iff.mp hrest
      obtain ⟨⟨a', x'⟩, hact, rfl⟩ := Option.map_eq_some_iff.mp hstep
      obtain ⟨id, hid, hfound⟩ := Option.bind_eq_some_iff.mp hx
      obtain ⟨hmem, rfl⟩ := Table.find?_eq_some_iff.mp ha
      obtain ⟨hxmem, rfl⟩ := Table.find?_eq_some_iff.mp hfound
      exact .acted a a' x x' event hmem hxmem hid hact
  | execute connection contended =>
      obtain ⟨x, hx, hrest⟩ := Option.bind_eq_some_iff.mp hattempt
      obtain ⟨hfound, halive⟩ := Option.filter_eq_some_iff.mp hx
      obtain ⟨statement, hsent, rfl⟩ := Option.map_eq_some_iff.mp hrest
      obtain ⟨hxmem, rfl⟩ := Table.find?_eq_some_iff.mp hfound
      exact .executed x contended statement hxmem halive hsent
  | break_ connection =>
      obtain ⟨x, hfound, rfl⟩ := Option.map_eq_some_iff.mp hattempt
      obtain ⟨hxmem, rfl⟩ := Table.find?_eq_some_iff.mp hfound
      exact .broken x hxmem

theorem ActivityState.Sound.next (h : s.Sound keys) (henabled : (activityPools keys).Enabled s step) :
    ((activityPools keys).next s step).Sound keys := by
  have heffect := activityEffect_of_enabled henabled
  generalize (activityPools keys).next s step = s' at heffect
  cases heffect with
  | account => exact h.congr (fun _ ↦ Iff.rfl) fun _ ↦ Iff.rfl
  | connected id process connections hinsert => exact h.connect hinsert
  | begun id process call activities hinsert => exact h.begin_ hinsert
  | checkedOut a x ha hx hwaiting hidle => exact h.checkOut ha hx hwaiting hidle
  | gaveUp a cancelled ha hwaiting =>
      refine h.giveUp ha hwaiting ?_
      cases cancelled <;> rfl
  | acted a a' x x' event ha hx hconnection hstep => exact h.act ha hx hconnection hstep
  | executed x contended statement hx halive hsent =>
      exact h.execute hx halive hsent (executed_execute s x contended statement)
  | broken x hx => exact h.break_ hx

theorem sound_exec (hvalid : (activityPools keys).Valid .start as) :
    ((activityPools keys).exec .start as).Sound keys :=
  hvalid.invariant (I := ActivityState.Sound keys) sound_start fun _ _ h henabled ↦ h.next henabled

/-- A lease on a live session holds every lock of its request. -/
theorem ActivityState.Sound.leased {a : Activity} {x : Connection} (h : s.Sound keys)
    (ha : a ∈ s.activities) (hx : x ∈ s.connections) (hconnection : a.connection = some x.id)
    (hleased : a.isLeased = true) :
    x.user = some a.id ∧ x.Covers (acquisition keys a.request) := by
  obtain ⟨y, hy, huser⟩ := h.present a ha (by simp [Activity.isCurrent, hleased])
  have hattached := h.attached a ha y hy huser
  have hid := Option.some.inj (hattached.connection.symm.trans hconnection)
  obtain rfl := Table.eq_of_key_eq hy hx hid
  rw [Activity.isLeased, Option.any_eq_true] at hleased
  obtain ⟨t, ht, hor⟩ := hleased
  exact ⟨huser, ((hattached.task t ht).covers (Bool.or_eq_true_iff.mp hor)).1⟩

theorem ActivityState.Sound.exclusive {a b : Activity} {x y : Connection} (h : s.Sound keys)
    (ha : a ∈ s.activities) (hb : b ∈ s.activities) (hne : a.id ≠ b.id)
    (hx : x ∈ s.connections) (hy : y ∈ s.connections) (hax : a.connection = some x.id)
    (hby : b.connection = some y.id) (haleased : a.isLeased = true) (hbleased : b.isLeased = true)
    (hxalive : x.alive = true) (hyalive : y.alive = true) {id : Uuid}
    (haid : id ∈ a.request.userIds) (hbid : id ∈ b.request.userIds) :
    a.request.mode ≠ .exclusive ∧
      ∀ operation, a.request.operation = some operation → b.request.operation ≠ some operation := by
  obtain ⟨hxuser, hxcovers⟩ := h.leased ha hx hax haleased
  obtain ⟨hyuser, hycovers⟩ := h.leased hb hy hby hbleased
  have hxy : x.id ≠ y.id := by
    intro hid
    rw [Table.eq_of_key_eq hx hy hid, hyuser] at hxuser
    exact hne (Option.some.inj hxuser).symm
  refine ⟨fun hmode ↦ ?_, fun operation haoperation hboperation ↦ ?_⟩
  · obtain ⟨p, hp, hpstatement⟩ := account_mem_acquisition keys haid
    obtain ⟨q, hq, hqstatement⟩ := account_mem_acquisition keys hbid
    obtain ⟨l, hl, hlrequest⟩ := hxcovers hxalive p hp _ _ hpstatement
    obtain ⟨m, hm, hmrequest⟩ := hycovers hyalive q hq _ _ hqstatement
    refine h.compatible x hx y hy hxy l hl m hm ?_
    rw [hlrequest, hmrequest, hmode]
    exact ⟨rfl, Or.inl rfl⟩
  · obtain ⟨p, hp, hpstatement⟩ := operation_mem_acquisition keys haid haoperation
    obtain ⟨q, hq, hqstatement⟩ := operation_mem_acquisition keys hbid hboperation
    obtain ⟨l, hl, hlrequest⟩ := hxcovers hxalive p hp _ _ hpstatement
    obtain ⟨m, hm, hmrequest⟩ := hycovers hyalive q hq _ _ hqstatement
    refine h.compatible x hx y hy hxy l hl m hm ?_
    rw [hlrequest, hmrequest]
    exact ⟨rfl, Or.inl rfl⟩

/-- What is left of the locks of a call that is over. -/
theorem ActivityState.Sound.leftovers {a : Activity} {x : Connection} {l : AdvisoryLock}
    (h : s.Sound keys) (ha : a ∈ s.activities) (hx : x ∈ s.connections) (hl : l ∈ x.locks)
    (htaker : l.taker = some a.id) :
    a.Attached keys x ∧ x.place ≠ .idle := by
  have huser : x.user = some a.id := ((h.sessions x hx).takers l hl).symm.trans htaker
  refine ⟨h.attached a ha x hx huser, fun hidle ↦ ?_⟩
  rw [((h.sessions x hx).idle hidle).1] at hl
  exact absurd hl List.not_mem_nil

theorem find_putConnection {x x' y : Connection} {Q : Connection → Prop} (hx : x ∈ s.connections)
    (hid : x'.id = x.id) (hy : y ∈ s.connections) (hQ : Q y) (hQ' : y = x → Q x') :
    ∃ y' ∈ (s.putConnection x').connections, y'.id = y.id ∧ Q y' := by
  by_cases hyx : y.id = x.id
  · exact ⟨x', (mem_putConnection hx hid).mpr (Or.inl rfl), hid.trans hyx.symm,
      hQ' (Table.eq_of_key_eq hy hx hyx)⟩
  · exact ⟨y, (mem_putConnection hx hid).mpr (Or.inr ⟨hy, hyx⟩), rfl, hQ⟩

theorem find_putActivity {a a' b : Activity} {Q : Activity → Prop} (ha : a ∈ s.activities)
    (hid : a'.id = a.id) (hb : b ∈ s.activities) (hQ : Q b) (hQ' : b = a → Q a') :
    ∃ b' ∈ (s.putActivity a').activities, b'.id = b.id ∧ Q b' := by
  by_cases hba : b.id = a.id
  · exact ⟨a', (mem_putActivity ha hid).mpr (Or.inl rfl), hid.trans hba.symm,
      hQ' (Table.eq_of_key_eq hb ha hba)⟩
  · exact ⟨b, (mem_putActivity ha hid).mpr (Or.inr ⟨hb, hba⟩), rfl, hQ⟩

/-- A step of a call on the connection that it names: they are a pair, or the
call is over and the connection stays as it is. -/
theorem ActivityState.Sound.acted {a a' : Activity} {x x' : Connection} {event : ActivityEvent}
    (h : s.Sound keys) (ha : a ∈ s.activities) (hx : x ∈ s.connections)
    (hconnection : a.connection = some x.id) (hstep : a.step x event = some (a', x')) :
    (a.Attached keys x ∧ Stepped keys a a' x x') ∨
      (a.isCurrent = false ∧ x' = x ∧ a'.id = a.id) := by
  by_cases huser : x.user = some a.id
  · have hattached := h.attached a ha x hx huser
    exact Or.inl ⟨hattached, stepped_step hattached (h.sessions x hx) hstep⟩
  · have hcurrent : a.isCurrent = false := by
      by_contra hcurrent
      obtain ⟨y, hy, hyuser⟩ := h.present a ha (by simpa using hcurrent)
      have hother := (h.attached a ha y hy hyuser).connection
      have hid := Option.some.inj (hother.symm.trans hconnection)
      rw [Table.eq_of_key_eq hy hx hid] at hyuser
      exact huser hyuser
    obtain ⟨hholds, hleased⟩ := Bool.or_eq_false_iff.mp hcurrent
    obtain ⟨hsame, haid, _⟩ := step_of_over hholds hleased hstep
    exact Or.inr ⟨hcurrent, hsame, haid⟩

/-- A connection that is given up never comes back. -/
theorem discarded_next {y : Connection} (h : s.Sound keys)
    (henabled : (activityPools keys).Enabled s step) (hy : y ∈ s.connections)
    (hdiscarded : y.place = .discarded) :
    ∃ y' ∈ ((activityPools keys).next s step).connections, y'.id = y.id ∧
      y'.place = .discarded := by
  have heffect := activityEffect_of_enabled henabled
  generalize (activityPools keys).next s step = s' at heffect ⊢
  cases heffect with
  | account => exact ⟨y, hy, rfl, hdiscarded⟩
  | connected id process connections hinsert =>
      exact ⟨y, (Table.mem_insert hinsert).mpr (Or.inr hy), rfl, hdiscarded⟩
  | begun => exact ⟨y, hy, rfl, hdiscarded⟩
  | checkedOut a x ha hx hwaiting hidle =>
      refine find_putConnection (s := s.putActivity (a.checkOut x keys))
        (Q := fun z ↦ z.place = .discarded) hx rfl hy hdiscarded ?_
      rintro rfl
      rw [hidle] at hdiscarded
      cases hdiscarded
  | gaveUp => exact ⟨y, hy, rfl, hdiscarded⟩
  | acted a a' x x' event ha hx hconnection hstep =>
      rcases h.acted ha hx hconnection hstep with ⟨_, hstepped⟩ | ⟨_, rfl, _⟩
      · refine find_putConnection (s := s.putActivity a') (Q := fun z ↦ z.place = .discarded) hx
          hstepped.same.id hy hdiscarded ?_
        rintro rfl
        exact hstepped.same.discarded hdiscarded
      · refine find_putConnection (s := s.putActivity a') (Q := fun z ↦ z.place = .discarded) hx rfl
          hy hdiscarded ?_
        rintro rfl
        exact hdiscarded
  | executed x contended statement hx halive hsent =>
      have hexecuted := executed_execute s x contended statement
      refine find_putConnection (Q := fun z ↦ z.place = .discarded) hx hexecuted.id hy hdiscarded ?_
      rintro rfl
      exact hexecuted.place.trans hdiscarded
  | broken x hx =>
      refine find_putConnection (Q := fun z ↦ z.place = .discarded) hx rfl hy hdiscarded ?_
      rintro rfl
      exact hdiscarded

theorem ActivityState.Sound.task {a : Activity} {t : OwnerTask} (h : s.Sound keys)
    (ha : a ∈ s.activities) (ht : a.owner = some t) :
    a.future.isAcquiring = false ∧ (t.phase ≠ .done → t.lease = .held) := by
  by_cases hcurrent : a.isCurrent = true
  · obtain ⟨x, hx, huser⟩ := h.present a ha hcurrent
    have hattached := (h.attached a ha x hx huser).task t ht
    exact ⟨hattached.acquired, hattached.open_⟩
  · obtain ⟨hholds, _⟩ := Bool.or_eq_false_iff.mp (Bool.eq_false_iff.mpr hcurrent)
    refine ⟨?_, fun hphase ↦ ?_⟩
    · by_contra hacquiring
      rw [holds_of_acquiring (by simpa using hacquiring)] at hholds
      cases hholds
    · rw [holds_of_task ht hphase] at hholds
      cases hholds

theorem lease_next {b : Activity} {lease : LeaseState} (h : s.Sound keys)
    (henabled : (activityPools keys).Enabled s step) (hb : b ∈ s.activities)
    (hlease : b.lease = some lease) (hover : lease ≠ .held) :
    ∃ b' ∈ ((activityPools keys).next s step).activities, b'.id = b.id ∧
      b'.lease = some lease := by
  have heffect := activityEffect_of_enabled henabled
  generalize (activityPools keys).next s step = s' at heffect ⊢
  cases heffect with
  | account => exact ⟨b, hb, rfl, hlease⟩
  | connected => exact ⟨b, hb, rfl, hlease⟩
  | begun id process call activities hinsert =>
      exact ⟨b, (Table.mem_insert hinsert).mpr (Or.inr hb), rfl, hlease⟩
  | checkedOut a x ha hx hwaiting hidle =>
      refine find_putActivity (Q := fun c ↦ c.lease = some lease) ha rfl hb hlease ?_
      rintro rfl
      exact hlease
  | gaveUp a cancelled ha hwaiting =>
      refine find_putActivity (Q := fun c ↦ c.lease = some lease) ha rfl hb hlease ?_
      rintro rfl
      exact hlease
  | acted a a' x x' event ha hx hconnection hstep =>
      have haid : a'.id = a.id := by
        rcases h.acted ha hx hconnection hstep with ⟨_, hstepped⟩ | ⟨_, _, haid⟩
        · exact hstepped.same.activity
        · exact haid
      refine find_putActivity (Q := fun c ↦ c.lease = some lease) ha haid hb hlease ?_
      rintro rfl
      refine lease_step (fun hsome ↦ ?_) (fun t ht ↦ (h.task hb ht).2) hlease hover hstep
      obtain ⟨t, ht⟩ := Option.ne_none_iff_exists'.mp hsome
      exact (h.task hb ht).1
  | executed => exact ⟨b, hb, rfl, hlease⟩
  | broken => exact ⟨b, hb, rfl, hlease⟩

/-- The call is going to answer that all is well. -/
def FuturePhase.isConfirmed : FuturePhase → Bool
  | .releasing .ok | .returned .ok => true
  | _ => false

theorem checked_eq_ok {t : OwnerTask} {ok : Bool} (h : t.checked ok = .ok) :
    ok = true ∧ t.lease = .held := by
  unfold OwnerTask.checked at h
  split at h
  · rename_i hok
    split at h
    · rename_i hheld
      exact ⟨hok, hheld⟩
    · cases h
  · cases h

theorem isConfirmed_iff {future : FuturePhase} :
    future.isConfirmed = true ↔ future = .releasing .ok ∨ future = .returned .ok := by
  constructor
  · intro h
    unfold FuturePhase.isConfirmed at h
    split at h
    · exact Or.inl rfl
    · exact Or.inr rfl
    · cases h
  · rintro (rfl | rfl) <;> rfl

theorem received_future (a : Activity) (reply : Reply) (refusal : ActivityAnswer)
    (rest : List (Statement × ActivityAnswer)) :
    (a.received reply refusal rest).future.isConfirmed = false := by
  unfold Activity.received
  split
  · split <;> rfl
  · rfl

theorem taskStep_future {a a' : Activity} {x x' : Connection} {event : ActivityEvent}
    {t : OwnerTask} (h : a.taskStep x event t = some (a', x')) : a'.future = a.future := by
  unfold Activity.taskStep at h
  split at h
  iterate 2
    split at h
    · obtain ⟨rfl, rfl⟩ := Prod.mk.inj (Option.some.inj h)
      rfl
    · cases h
  iterate 2
    obtain ⟨reply, _, heq⟩ := Option.map_eq_some_iff.mp h
    obtain ⟨rfl, rfl⟩ := Prod.mk.inj heq
    rfl
  iterate 2
    split at h
    · obtain ⟨rfl, rfl⟩ := Prod.mk.inj (Option.some.inj h)
      rfl
    · cases h
  iterate 3
    obtain ⟨rfl, rfl⟩ := Prod.mk.inj (Option.some.inj h)
    rfl
  cases h

theorem futureStep_confirms {a a' : Activity} {x x' : Connection} {event : ActivityEvent}
    (hbefore : a.future.isConfirmed = false)
    (hrefusing : ∀ answer, a.future = .refusing answer → answer ≠ .ok)
    (hstep : a.futureStep x event = some (a', x')) (hafter : a'.future.isConfirmed = true) :
    event = .check ∧ a.future = .finished true ∧ a.lease = some .held := by
  have hrefused (answer : ActivityAnswer) (hfuture : a.future = .refusing answer)
      (hconfirmed : (FuturePhase.returned answer).isConfirmed = true) : False := by
    rcases isConfirmed_iff.mp hconfirmed with heq | heq
    · cases heq
    · exact hrefusing answer hfuture (FuturePhase.returned.inj heq)
  unfold Activity.futureStep at hstep
  split at hstep
  iterate 2
    split at hstep
    · obtain ⟨rfl, rfl⟩ := Prod.mk.inj (Option.some.inj hstep)
      rw [hbefore] at hafter
      cases hafter
    · cases hstep
  · obtain ⟨reply, _, heq⟩ := Option.map_eq_some_iff.mp hstep
    obtain ⟨rfl, rfl⟩ := Prod.mk.inj heq
    rw [received_future] at hafter
    cases hafter
  · rename_i answer hfuture
    obtain ⟨reply, _, heq⟩ := Option.map_eq_some_iff.mp hstep
    obtain ⟨rfl, rfl⟩ := Prod.mk.inj heq
    exact (hrefused answer hfuture hafter).elim
  · split at hstep
    · obtain ⟨rfl, rfl⟩ := Prod.mk.inj (Option.some.inj hstep)
      cases hafter
    · cases hstep
  · rename_i answer hfuture
    split at hstep
    · obtain ⟨rfl, rfl⟩ := Prod.mk.inj (Option.some.inj hstep)
      exact (hrefused answer hfuture hafter).elim
    · cases hstep
  iterate 2
    obtain ⟨rfl, rfl⟩ := Prod.mk.inj (Option.some.inj hstep)
    cases hafter
  iterate 3
    obtain ⟨t, _, heq⟩ := Option.map_eq_some_iff.mp hstep
    obtain ⟨rfl, rfl⟩ := Prod.mk.inj heq
    cases hafter
  · obtain ⟨rfl, rfl⟩ := Prod.mk.inj (Option.some.inj hstep)
    cases hafter
  · rename_i ok hfuture
    obtain ⟨t, ht, heq⟩ := Option.map_eq_some_iff.mp hstep
    obtain ⟨rfl, rfl⟩ := Prod.mk.inj heq
    rcases isConfirmed_iff.mp hafter with hreleasing | hreturned
    · obtain ⟨rfl, hheld⟩ := checked_eq_ok (FuturePhase.releasing.inj hreleasing)
      exact ⟨rfl, hfuture, by rw [Activity.lease, ht, Option.map_some, hheld]⟩
    · cases hreturned
  · rename_i answer hfuture
    obtain ⟨t, _, heq⟩ := Option.bind_eq_some_iff.mp hstep
    split at heq
    · obtain ⟨rfl, rfl⟩ := Prod.mk.inj (Option.some.inj heq)
      rcases isConfirmed_iff.mp hafter with hreleasing | hreturned
      · cases hreleasing
      · rw [hfuture, FuturePhase.returned.inj hreturned] at hbefore
        cases hbefore
    · cases heq
  · cases hstep

/-- A call is confirmed by the check after its work, with the lease held. -/
theorem step_confirms {a a' : Activity} {x x' : Connection} {event : ActivityEvent}
    (hbefore : a.future.isConfirmed = false)
    (hrefusing : ∀ answer, a.future = .refusing answer → answer ≠ .ok)
    (hstep : a.step x event = some (a', x')) (hafter : a'.future.isConfirmed = true) :
    event = .check ∧ a.future = .finished true ∧ a.lease = some .held := by
  unfold Activity.step at hstep
  split at hstep
  iterate 5
    obtain ⟨t, _, htask⟩ := Option.bind_eq_some_iff.mp hstep
    rw [taskStep_future htask, hbefore] at hafter
    cases hafter
  exact futureStep_confirms hbefore hrefusing hstep hafter

def Confirmed (id : ℕ) (s : ActivityState) : Prop :=
  ∃ a ∈ s.activities, a.id = id ∧ a.future.isConfirmed = true

theorem confirms_next {id : ℕ} (h : s.Sound keys) (henabled : (activityPools keys).Enabled s step)
    (hbefore : ¬ Confirmed id s) (hafter : Confirmed id ((activityPools keys).next s step)) :
    step = .act id .check ∧ ∃ a ∈ s.activities, a.id = id ∧ a.future = .finished true ∧
      a.lease = some .held := by
  have heffect := activityEffect_of_enabled henabled
  generalize (activityPools keys).next s step = s' at heffect hafter
  obtain ⟨b, hb, rfl, hconfirmed⟩ := hafter
  cases heffect with
  | account => exact absurd ⟨b, hb, rfl, hconfirmed⟩ hbefore
  | connected => exact absurd ⟨b, hb, rfl, hconfirmed⟩ hbefore
  | begun id process call activities hinsert =>
      rcases (Table.mem_insert hinsert).mp hb with rfl | hb
      · cases hconfirmed
      · exact absurd ⟨b, hb, rfl, hconfirmed⟩ hbefore
  | checkedOut a x ha hx hwaiting hidle =>
      rcases (mem_putActivity ha (rfl : (a.checkOut x keys).id = a.id)).mp hb with rfl | ⟨hb, _⟩
      · cases hconfirmed
      · exact absurd ⟨b, hb, rfl, hconfirmed⟩ hbefore
  | gaveUp a cancelled ha hwaiting =>
      have hid : (a.goTo (if cancelled then .dropped else .returned .activityUnavailable)).id =
          a.id := rfl
      rcases (mem_putActivity ha hid).mp hb with rfl | ⟨hb, _⟩
      · cases cancelled <;> cases hconfirmed
      · exact absurd ⟨b, hb, rfl, hconfirmed⟩ hbefore
  | acted a a' x x' event ha hx hconnection hstep =>
      have haid : a'.id = a.id := by
        rcases h.acted ha hx hconnection hstep with ⟨_, hstepped⟩ | ⟨_, _, haid⟩
        · exact hstepped.same.activity
        · exact haid
      rcases (mem_putActivity ha haid).mp hb with rfl | ⟨hb, _⟩
      · have hunconfirmed : a.future.isConfirmed = false := by
          by_contra hfuture
          exact hbefore ⟨a, ha, haid.symm, by simpa using hfuture⟩
        have hrefusing : ∀ answer, a.future = .refusing answer → answer ≠ .ok := by
          intro answer hfuture
          have hholds : a.holds = true := holds_of_acquiring (by rw [hfuture]; rfl)
          obtain ⟨y, hy, huser⟩ := h.present a ha (by simp [Activity.isCurrent, hholds])
          have hattached := (h.attached a ha y hy huser).future
          rw [hfuture] at hattached
          exact hattached.2.2
        obtain ⟨rfl, hfinished, hheld⟩ := step_confirms hunconfirmed hrefusing hstep hconfirmed
        exact ⟨by rw [haid], a, ha, haid.symm, hfinished, hheld⟩
      · exact absurd ⟨b, hb, rfl, hconfirmed⟩ hbefore
  | executed => exact absurd ⟨b, hb, rfl, hconfirmed⟩ hbefore
  | broken => exact absurd ⟨b, hb, rfl, hconfirmed⟩ hbefore

/-- Leases exclude each other while their sessions live, what a call has locked
is on no connection that can be used again once the call is over, a connection
in the pool is free of locks, a lease that is lost or released stays so and
leaves no lock when it is released, and a call answers that all is well only
after the lease was found held at the end of the work. -/
theorem leases_exclude_each_other (keys : LockKeys) (as : List ActivityStep)
    (hvalid : (activityPools keys).Valid .start as) :
    (∀ a ∈ ((activityPools keys).exec .start as).activities,
      ∀ b ∈ ((activityPools keys).exec .start as).activities, a.id ≠ b.id →
      ∀ x ∈ ((activityPools keys).exec .start as).connections,
      ∀ y ∈ ((activityPools keys).exec .start as).connections,
      a.connection = some x.id → b.connection = some y.id →
      a.isLeased = true → b.isLeased = true → x.alive = true → y.alive = true →
      ∀ id ∈ a.request.userIds, id ∈ b.request.userIds → a.request.mode ≠ .exclusive ∧
        ∀ operation, a.request.operation = some operation →
          b.request.operation ≠ some operation) ∧
    (∀ a ∈ ((activityPools keys).exec .start as).activities, a.owner = none →
      a.future = .dropped ∨ (∃ answer, a.future = .returned answer) →
      ∀ x ∈ ((activityPools keys).exec .start as).connections, ∀ l ∈ x.locks,
        l.taker = some a.id → x.place = .discarded ∧
          ∀ bs, (activityPools keys).Valid ((activityPools keys).exec .start as) bs →
            ∃ x' ∈ ((activityPools keys).exec ((activityPools keys).exec .start as) bs).connections,
              x'.id = x.id ∧ x'.place = .discarded) ∧
    (∀ x ∈ ((activityPools keys).exec .start as).connections, x.place = .idle → x.locks = []) ∧
    (∀ a ∈ ((activityPools keys).exec .start as).activities, ∀ lease, lease ≠ .held →
      a.lease = some lease →
      (∀ bs, (activityPools keys).Valid ((activityPools keys).exec .start as) bs →
        ∃ a' ∈ ((activityPools keys).exec ((activityPools keys).exec .start as) bs).activities,
          a'.id = a.id ∧ a'.lease = some lease) ∧
      (lease = .released → ∀ x ∈ ((activityPools keys).exec .start as).connections,
        ∀ l ∈ x.locks, l.taker ≠ some a.id)) ∧
    ∀ a ∈ ((activityPools keys).exec .start as).activities, a.future = .returned .ok →
      ∃ pre post, as = pre ++ .act a.id .check :: post ∧
        ∃ b ∈ ((activityPools keys).exec .start pre).activities, b.id = a.id ∧
          b.future = .finished true ∧ b.lease = some .held := by
  have hsound := sound_exec hvalid
  refine ⟨?_, ?_, fun x hx hidle ↦ ((hsound.sessions x hx).idle hidle).1, ?_, ?_⟩
  · intro a ha b hb hne x hx y hy hax hby haleased hbleased hxalive hyalive id haid hbid
    exact hsound.exclusive ha hb hne hx hy hax hby haleased hbleased hxalive hyalive haid hbid
  · intro a ha howner hfuture x hx l hl htaker
    obtain ⟨hattached, hnotIdle⟩ := hsound.leftovers ha hx hl htaker
    have hacquiring : a.future.isAcquiring = false := by
      rcases hfuture with hfuture | ⟨answer, hfuture⟩ <;> rw [hfuture] <;> rfl
    have hdiscarded : x.place = .discarded := by
      cases hplace : x.place with
      | idle => exact absurd hplace hnotIdle
      | checkedOut =>
          have hholds := hattached.place.mp hplace
          rw [holds_eq_false_of_none howner hacquiring] at hholds
          cases hholds
      | discarded => rfl
    refine ⟨hdiscarded, fun bs hbs ↦ ?_⟩
    have hkept := hbs.invariant
      (I := fun s ↦ s.Sound keys ∧ ∃ x' ∈ s.connections, x'.id = x.id ∧ x'.place = .discarded)
      ⟨hsound, x, hx, rfl, hdiscarded⟩ fun s step h henabled ↦ by
        obtain ⟨h, y, hy, hid, hplace⟩ := h
        obtain ⟨z, hz, hzid, hzplace⟩ := discarded_next h henabled hy hplace
        exact ⟨h.next henabled, z, hz, hzid.trans hid, hzplace⟩
    exact hkept.2
  · intro a ha lease hover hlease
    refine ⟨fun bs hbs ↦ ?_, ?_⟩
    · have hkept := hbs.invariant
        (I := fun s ↦ s.Sound keys ∧ ∃ a' ∈ s.activities, a'.id = a.id ∧ a'.lease = some lease)
        ⟨hsound, a, ha, rfl, hlease⟩ fun s step h henabled ↦ by
          obtain ⟨h, b, hb, hid, hblease⟩ := h
          obtain ⟨c, hc, hcid, hclease⟩ := lease_next h henabled hb hblease hover
          exact ⟨h.next henabled, c, hc, hcid.trans hid, hclease⟩
      exact hkept.2
    · rintro rfl x hx l hl htaker
      obtain ⟨hattached, hnotIdle⟩ := hsound.leftovers ha hx hl htaker
      obtain ⟨t, ht, hreleased⟩ := Option.map_eq_some_iff.mp hlease
      exact hnotIdle ((hattached.task t ht).released hreleased).2
  · intro a ha hreturned
    have hend : Confirmed a.id ((activityPools keys).exec .start as) :=
      ⟨a, ha, rfl, by rw [hreturned]; rfl⟩
    have hstart : ¬ Confirmed a.id ActivityState.start := fun ⟨b, hb, _⟩ ↦
      absurd hb (Table.notMem_empty b)
    obtain ⟨pre, step, post, rfl, hbefore, hafter⟩ :=
      System.exists_establishing_step hstart hend
    have hpre := sound_exec (hvalid.of_prefix ⟨step :: post, rfl⟩)
    have hnext := hafter [] (List.nil_prefix)
    rw [System.exec_concat] at hnext
    obtain ⟨rfl, hchecked⟩ := confirms_next hpre hvalid.enabled hbefore hnext
    exact ⟨pre, post, rfl, hchecked⟩

end Runs

section Sample

/-- One byte of an identifier as its text, and texts as numbers. -/
def sampleKeys : LockKeys where
  text id := [Char.ofNat id.toNat]
  hash text := text.foldl (fun n ch ↦ n * 256 + ch.toNat) 0

def asks (activity connection : ℕ) : List ActivityStep :=
  [.act activity .send, .execute connection false, .act activity .receive]

/-- An exclusive lease, and a shared one that begins after its release. -/
def twoLeases : List ActivityStep :=
  [.setAccount 65 .active, .connect 0 0, .begin_ 1 0 (.tryExclusive 65), .checkOut 1 0] ++
    asks 1 0 ++ asks 1 0 ++ [.connect 2 0, .begin_ 2 0 (.run [65, 65]), .checkOut 2 2] ++
    asks 2 2 ++ asks 2 2 ++ [.act 1 (.finish true), .act 1 .check, .act 1 .command,
      .execute 0 false, .act 1 .taskReceive, .act 1 .conclude, .begin_ 3 0 (.run [65, 65]),
      .checkOut 3 2] ++ asks 3 2 ++ asks 3 2 ++ asks 3 2

/-- The theorem above after the two leases. -/
theorem leases_exclude_each_other_twoLeases :
    (((activityPools sampleKeys).exec .start twoLeases).activities.rows.map Activity.future =
        [.working, .returned .accountUnavailable, .returned .ok]) ∧
      ∀ x ∈ ((activityPools sampleKeys).exec .start twoLeases).connections, x.place = .idle →
        x.locks = [] :=
  ⟨by decide +kernel,
    (leases_exclude_each_other sampleKeys twoLeases (by decide +kernel)).2.2.1⟩

end Sample

end Histae.Infra
