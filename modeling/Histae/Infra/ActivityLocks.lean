import Histae.Relational.Table
import Histae.Shared.Time
import Histae.Systems.Locks

/-!
# Account activity leases

A lease is a set of advisory locks of one database session. The call that wants
it takes a connection out of the pool and tries one lock after another; from
then on a task of its own keeps the connection, probes it and unlocks it at the
end. A query is sent, executed by the session and answered at three different
times, and a future can be dropped between any two of them. A connection goes
back to the pool only when the answer of `pg_advisory_unlock_all` has been
read; otherwise it is closed, and its locks end with its session.
-/

namespace Histae.Infra

open Relational Systems

inductive LockMode
  | shared
  | exclusive
  deriving DecidableEq

inductive ActivityAnswer
  | ok
  | workFailed
  | accountUnavailable
  | activityUnavailable
  | notAcquired
  deriving DecidableEq

structure ActivityRequest where
  userIds : List Uuid
  mode : LockMode
  allowBanned : Option Bool
  operation : Option (List Char)
  deriving DecidableEq

/-- `run`, `run_existing`, `try_exclusive` and `try_serialized`. -/
inductive ActivityCall
  | run (userIds : List Uuid)
  | runExisting (userIds : List Uuid)
  | tryExclusive (userId : Uuid)
  | trySerialized (userId : Uuid) (operation : List Char)
  deriving DecidableEq

def ActivityCall.request : ActivityCall → ActivityRequest
  | .run userIds => ⟨userIds, .shared, some false, none⟩
  | .runExisting userIds => ⟨userIds, .shared, some true, none⟩
  | .tryExclusive userId => ⟨[userId], .exclusive, none, none⟩
  | .trySerialized userId operation => ⟨[userId], .shared, some false, some operation⟩

def canonicalIds (userIds : List Uuid) : List Uuid := (userIds.insertionSort (· ≤ ·)).dedup

/-- The text of an account and the hash of a text, `hashtextextended`. -/
structure LockKeys where
  text : Uuid → List Char
  hash : List Char → ℤ

def LockKeys.account (keys : LockKeys) (userId : Uuid) : ℤ := keys.hash (keys.text userId)

def LockKeys.operation (keys : LockKeys) (operation : List Char) (userId : Uuid) : ℤ :=
  keys.hash (operation ++ ':' :: keys.text userId)

inductive Statement
  | tryLock (key : ℤ) (mode : LockMode)
  | countAccounts (ids : List Uuid) (allowBanned : Bool)
  | backendPid
  | unlockAll
  | probe
  deriving DecidableEq

inductive Reply
  | acquired (granted : Bool)
  | accountCount (count : ℕ)
  | done
  deriving DecidableEq

/-- The answer of a statement lets the acquisition go on. -/
def Reply.accepts (accounts : ℕ) : Reply → Bool
  | .acquired granted => granted
  | .accountCount count => count = accounts
  | .done => true

/-- What a call answers when a lock of an account is taken. -/
def LockMode.refusal : LockMode → ActivityAnswer
  | .shared => .accountUnavailable
  | .exclusive => .notAcquired

/-- The statements of `acquire`, each with the answer of a call that it stops. -/
def acquisition (keys : LockKeys) (q : ActivityRequest) : List (Statement × ActivityAnswer) :=
  let accountIds := canonicalIds q.userIds
  accountIds.map (fun id ↦ (.tryLock (keys.account id) q.mode, q.mode.refusal)) ++
    (q.allowBanned.toList.map fun allowBanned ↦
      (.countAccounts accountIds allowBanned, .accountUnavailable)) ++
    (q.operation.toList.flatMap fun operation ↦ accountIds.map fun id ↦
      (.tryLock (keys.operation operation id) .exclusive, .notAcquired)) ++
    [(.backendPid, .activityUnavailable)]

inductive AccountStatus
  | missing
  | active
  | banned
  | deleted
  deriving DecidableEq

def AccountStatus.counts (allowBanned : Bool) : AccountStatus → Bool
  | .active => true
  | .banned => allowBanned
  | .missing | .deleted => false

structure AdvisoryLock where
  request : Systems.Request ℤ
  taker : Option ℕ
  deriving DecidableEq

inductive Place
  | idle
  | checkedOut
  | discarded
  deriving DecidableEq

/-- A connection and the database session at its other end. `user` is the call
that was last to check the connection out. -/
structure Connection where
  id : ℕ
  process : ℕ
  place : Place
  alive : Bool
  user : Option ℕ
  locks : List AdvisoryLock
  sent : Option Statement
  reply : Option Reply
  deriving DecidableEq

namespace Connection

variable (x : Connection)

def open_ (id process : ℕ) : Connection := ⟨id, process, .idle, true, none, [], none, none⟩

def isQuiet : Bool := x.sent.isNone && x.reply.isNone

def isAwaited : Bool := x.sent.isSome || x.reply.isSome

def checkOut (user : ℕ) : Connection := { x with place := .checkedOut, user := some user }

def send (statement : Statement) : Connection := { x with sent := some statement }

def read : Connection := { x with reply := none }

/-- `CheckedOutSession` is dropped before it is safe for the pool. -/
def discard : Connection := { x with place := .discarded }

/-- `mark_safe_for_pool`, and the session is dropped. -/
def giveBack : Connection := { x with place := .idle }

/-- The session ends, and its locks with it. -/
def break_ : Connection := { x with alive := false, locks := [], sent := none }

end Connection

inductive LeaseState
  | held
  | lost
  | released
  deriving DecidableEq

inductive ActivityCommand
  | none
  | release
  | closed
  deriving DecidableEq

inductive TaskPhase
  | idle
  | probing
  | unlocking
  | done
  deriving DecidableEq

/-- `activity_session_owner`. -/
structure OwnerTask where
  lease : LeaseState
  command : ActivityCommand
  phase : TaskPhase
  deriving DecidableEq

inductive FuturePhase
  | waiting
  | acquiring (rest : List (Statement × ActivityAnswer))
  | refusing (answer : ActivityAnswer)
  | working
  | finished (ok : Bool)
  | releasing (answer : ActivityAnswer)
  | returned (answer : ActivityAnswer)
  | dropped
  deriving DecidableEq

/-- A call, its future and the task that keeps its lease. -/
structure Activity where
  id : ℕ
  process : ℕ
  request : ActivityRequest
  connection : Option ℕ
  future : FuturePhase
  owner : Option OwnerTask
  deriving DecidableEq

namespace OwnerTask

variable (t : OwnerTask)

def start : OwnerTask := ⟨.held, .none, .idle⟩

def close : OwnerTask := { t with command := if t.command = .none then .closed else t.command }

/-- `assert_held`, in `run_guarded`. -/
def checked (ok : Bool) : ActivityAnswer :=
  if ok then if t.lease = .held then .ok else .activityUnavailable else .workFailed

end OwnerTask

/-- What the future or the task of a call does next. -/
inductive ActivityEvent
  | send
  | receive
  | fail
  | cancel
  | finish (ok : Bool)
  | check
  | tick
  | command
  | taskReceive
  | taskFail
  | taskAbort
  | conclude
  deriving DecidableEq

namespace Activity

variable (a : Activity) (x : Connection)

def begin_ (id process : ℕ) (call : ActivityCall) : Activity :=
  ⟨id, process, call.request, none, .waiting, none⟩

def checkOut (keys : LockKeys) : Activity :=
  { a with connection := some x.id, future := .acquiring (acquisition keys a.request) }

def withTask (t : OwnerTask) : Activity := { a with owner := some t }

def goTo (future : FuturePhase) : Activity := { a with future }

/-- An answer in `acquire` has been read. -/
def received (reply : Reply) (refusal : ActivityAnswer)
    (rest : List (Statement × ActivityAnswer)) : Activity :=
  if reply.accepts (canonicalIds a.request.userIds).length then
    match rest with
    | [] => (a.goTo .working).withTask .start
    | next :: rest => a.goTo (.acquiring (next :: rest))
  else a.goTo (.refusing refusal)

/-- A step of the future. -/
def futureStep (event : ActivityEvent) : Option (Activity × Connection) :=
  match event, a.future with
  | .send, .acquiring ((statement, _) :: _) =>
      if x.isQuiet then some (a, x.send statement) else none
  | .send, .refusing _ => if x.isQuiet then some (a, x.send .unlockAll) else none
  | .receive, .acquiring ((_, refusal) :: rest) =>
      x.reply.map fun reply ↦ (a.received reply refusal rest, x.read)
  | .receive, .refusing answer =>
      x.reply.map fun _ ↦ (a.goTo (.returned answer), x.read.giveBack)
  | .fail, .acquiring _ =>
      if x.isAwaited then some (a.goTo (.returned .activityUnavailable), x.discard) else none
  | .fail, .refusing answer =>
      if x.isAwaited then some (a.goTo (.returned answer), x.discard) else none
  | .cancel, .acquiring _ | .cancel, .refusing _ => some (a.goTo .dropped, x.discard)
  | .cancel, .working | .cancel, .finished _ | .cancel, .releasing _ =>
      a.owner.map fun t ↦ ((a.goTo .dropped).withTask t.close, x)
  | .finish ok, .working => some (a.goTo (.finished ok), x)
  | .check, .finished ok =>
      a.owner.map fun t ↦
        ((a.goTo (.releasing (t.checked ok))).withTask { t with command := .release }, x)
  | .conclude, .releasing answer =>
      a.owner.bind fun t ↦ if t.phase = .done then some (a.goTo (.returned answer), x) else none
  | _, _ => none

/-- A step of the task. -/
def taskStep (event : ActivityEvent) (t : OwnerTask) : Option (Activity × Connection) :=
  match event, t.phase with
  | .tick, .idle =>
      if x.isQuiet then some (a.withTask { t with phase := .probing }, x.send .probe) else none
  | .command, .idle =>
      if t.command ≠ .none then
        some (a.withTask { t with phase := .unlocking }, x.send .unlockAll)
      else none
  | .taskReceive, .probing => x.reply.map fun _ ↦ (a.withTask { t with phase := .idle }, x.read)
  | .taskReceive, .unlocking =>
      x.reply.map fun _ ↦
        (a.withTask { t with phase := .done, lease := .released }, x.read.giveBack)
  | .taskFail, .probing | .taskFail, .unlocking =>
      if x.isAwaited then
        some (a.withTask { t with phase := .done, lease := .lost }, x.discard)
      else none
  | .taskAbort, .idle | .taskAbort, .probing | .taskAbort, .unlocking =>
      some (a.withTask { t with phase := .done }, x.discard)
  | _, _ => none

def step (event : ActivityEvent) : Option (Activity × Connection) :=
  match event with
  | .tick | .command | .taskReceive | .taskFail | .taskAbort =>
      a.owner.bind (a.taskStep x event)
  | _ => a.futureStep x event

end Activity

structure ActivityState where
  accounts : Uuid → AccountStatus
  connections : Table Connection.id
  activities : Table Activity.id

inductive ActivityStep
  | setAccount (userId : Uuid) (status : AccountStatus)
  | connect (connection process : ℕ)
  | begin_ (activity process : ℕ) (call : ActivityCall)
  | checkOut (activity connection : ℕ)
  | giveUp (activity : ℕ) (cancelled : Bool)
  | act (activity : ℕ) (event : ActivityEvent)
  | execute (connection : ℕ) (contended : Bool)
  | break_ (connection : ℕ)

namespace ActivityState

variable (s : ActivityState)

def start : ActivityState := ⟨fun _ ↦ .missing, ∅, ∅⟩

def putConnection (x : Connection) : ActivityState :=
  { s with
    connections := s.connections.modify (fun y ↦ y.id = x.id) (fun y ↦ { x with id := y.id })
      fun _ ↦ rfl }

def putActivity (a : Activity) : ActivityState :=
  { s with
    activities := s.activities.modify (fun b ↦ b.id = a.id) (fun b ↦ { a with id := b.id })
      fun _ ↦ rfl }

/-- No other session holds a lock that conflicts. -/
def grants (connection : ℕ) (request : Systems.Request ℤ) : Bool :=
  s.connections.rows.all fun y ↦
    y.id = connection || y.locks.all fun lock ↦ !decide (lock.request.Conflicts request)

/-- A session executes the statement that was sent to it. Somebody else's lock
may refuse a lock as well. -/
def execute (x : Connection) (contended : Bool) : Statement → Connection
  | .tryLock key mode =>
      let request : Systems.Request ℤ := ⟨key, mode = .exclusive⟩
      if !contended && s.grants x.id request then
        { x with sent := none, reply := some (.acquired true), locks := ⟨request, x.user⟩ :: x.locks }
      else { x with sent := none, reply := some (.acquired false) }
  | .countAccounts ids allowBanned =>
      { x with
        sent := none
        reply := some (.accountCount (ids.countP fun id ↦ (s.accounts id).counts allowBanned)) }
  | .unlockAll => { x with sent := none, reply := some .done, locks := [] }
  | .backendPid | .probe => { x with sent := none, reply := some .done }

/-- A step of a call on its connection. -/
def act (activity : ℕ) (event : ActivityEvent) : Option ActivityState :=
  (s.activities.find? activity).bind fun a ↦
    (a.connection.bind s.connections.find?).bind fun x ↦
      (a.step x event).map fun p ↦ (s.putActivity p.1).putConnection p.2

/-- A call that has no connection yet fails or is dropped. -/
def giveUp (activity : ℕ) (cancelled : Bool) : Option ActivityState :=
  ((s.activities.find? activity).filter fun a ↦ a.future = .waiting).map fun a ↦
    s.putActivity (a.goTo (if cancelled then .dropped else .returned .activityUnavailable))

def checkOut (keys : LockKeys) (activity connection : ℕ) : Option ActivityState :=
  ((s.activities.find? activity).filter fun a ↦ a.future = .waiting).bind fun a ↦
    ((s.connections.find? connection).filter fun x ↦
      x.place = .idle && x.process = a.process).map fun x ↦
        (s.putActivity (a.checkOut x keys)).putConnection (x.checkOut a.id)

def executeOn (connection : ℕ) (contended : Bool) : Option ActivityState :=
  ((s.connections.find? connection).filter (·.alive)).bind fun x ↦
    x.sent.map fun statement ↦ s.putConnection (s.execute x contended statement)

def attempt (keys : LockKeys) : ActivityStep → Option ActivityState
  | .setAccount userId status =>
      some { s with accounts := Function.update s.accounts userId status }
  | .connect connection process =>
      (s.connections.insert? (.open_ connection process)).map fun connections ↦
        { s with connections }
  | .begin_ activity process call =>
      (s.activities.insert? (.begin_ activity process call)).map fun activities ↦
        { s with activities }
  | .checkOut activity connection => s.checkOut keys activity connection
  | .giveUp activity cancelled => s.giveUp activity cancelled
  | .act activity event => s.act activity event
  | .execute connection contended => s.executeOn connection contended
  | .break_ connection => (s.connections.find? connection).map fun x ↦ s.putConnection x.break_

end ActivityState

/-- Any number of calls, connections and processes. -/
def activityPools (keys : LockKeys) : System ActivityState ActivityStep where
  Enabled s a := (s.attempt keys a).isSome = true
  next s a := (s.attempt keys a).getD s

instance (keys : LockKeys) (s : ActivityState) (a : ActivityStep) :
    Decidable ((activityPools keys).Enabled s a) :=
  inferInstanceAs (Decidable ((s.attempt keys a).isSome = true))

end Histae.Infra
