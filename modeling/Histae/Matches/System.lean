import Histae.Matches.Lifecycle
import Histae.Matches.Charges
import Histae.Systems.Run

/-!
# Runs of the match service

The state of the service is its tables, the database clock and the history of
what was created, confirmed and stored. Requests and maintenance statements
are atomic steps, since each holds the lock of its match row and of the wallets
it reads until it commits.
-/

namespace Histae.Matches

open Relational Systems

inductive Event
  | created (m : MatchRecord)
  | confirmed (matchId : Uuid) (guard trigger : ℤ)
  | stored (message : MessageRecord) (locked : ℤ)
  deriving DecidableEq

structure World where
  db : Db
  clock : ℤ
  log : List Event

/-- The tables that other parts of the service write. -/
structure Environment where
  accounts : Table Account.userId
  consents : List Consent
  blocks : List (Uuid × Uuid)
  approvedPhotos : List Uuid
  plans : Uuid → EffectivePlan

inductive Action
  | createFromMutualLike (id first second : Uuid) (now clock : ℤ)
  | recordContinuation (matchId userId : Uuid) (legal : Option LegalConfig)
      (acknowledgedCost : ℤ) (t : RecordClock) (sourceId : Uuid)
  | recordEnd (matchId userId : Uuid) (checked stamped : ℤ)
  | recordReveal (matchId userId : Uuid) (consent : PhotoRevealConsent) (locked clock : ℤ)
  | messagesForUser (matchId userId : Uuid) (locked : ℤ)
  | createMessage (request : MessageRequest) (t : MessageClock)
  | markMessageRead (matchId messageId userId : Uuid) (locked clock : ℤ)
  | markMessagesReadThrough (matchId messageId userId : Uuid) (locked clock : ℤ)
  | enqueueFirstPeriodReminders (pass : Pass) (clock : ℤ)
  | openContinuationWindows (pass : Pass)
  | expireContinuationWindows (pass : Pass)
  | enqueueWarnings (pass : Pass) (clock : ℤ)
  | closeInactiveMatches (pass : Pass)
  | deleteExpiredMessages (pass : Pass) (chosen : List Uuid)
  | deleteExpiredNotifications (pass : Pass)
      (chosen : List (NotificationType × NotificationSource × Uuid))
  | purgeExpiredMatches (pass : Pass) (reported : Uuid → Bool)
  | grantAdvertisingCredit (userId : Uuid) (now : ℤ)
  | environment (env : Environment)
  | tick (now : ℤ)

def World.createdIds (w : World) : List Uuid :=
  w.log.filterMap fun
    | .created m => some m.id
    | _ => none

/-- The first and the last reading of an action. A continuation starts at the
reading that follows the wallet locks, since it may have waited for them; a
maintenance statement works with a time captured earlier and reads nothing. -/
def Action.span : Action → Option (ℤ × ℤ)
  | .createFromMutualLike _ _ _ _ clock => some (clock, clock)
  | .recordContinuation _ _ _ _ t _ => some (t.now, t.trigger)
  | .recordEnd _ _ checked stamped => some (checked, stamped)
  | .recordReveal _ _ _ locked clock => some (locked, clock)
  | .messagesForUser _ _ locked => some (locked, locked)
  | .createMessage _ t => some (t.locked, t.notified)
  | .markMessageRead _ _ _ locked clock => some (locked, clock)
  | .markMessagesReadThrough _ _ _ locked clock => some (locked, clock)
  | .grantAdvertisingCredit _ now => some (now, now)
  | .tick now => some (now, now)
  | _ => none

def Action.pass : Action → Option Pass
  | .enqueueFirstPeriodReminders pass _ => some pass
  | .openContinuationWindows pass => some pass
  | .expireContinuationWindows pass => some pass
  | .enqueueWarnings pass _ => some pass
  | .closeInactiveMatches pass => some pass
  | .deleteExpiredMessages pass _ => some pass
  | .deleteExpiredNotifications pass _ => some pass
  | .purgeExpiredMatches pass _ => some pass
  | _ => none

/-- The readings inside one action are taken in order. -/
def Action.Ordered : Action → Prop
  | .createFromMutualLike _ _ _ now clock => now ≤ clock
  | .recordContinuation _ _ _ _ t _ => t.Ordered
  | .createMessage _ t => t.Ordered
  | _ => True

/-- The clock never goes back, captured times lie in the past, and match
identifiers are never issued twice. -/
structure Action.Enabled (w : World) (a : Action) : Prop where
  ordered : a.Ordered
  start : ∀ span ∈ a.span, w.clock ≤ span.1 ∧ span.1 ≤ span.2
  captured : ∀ pass ∈ a.pass, pass.now ≤ w.clock
  fresh : ∀ id first second now clock,
    a = .createFromMutualLike id first second now clock → id ∉ w.createdIds

def World.after (w : World) (a : Action) : ℤ := (a.span.map Prod.snd).getD w.clock

theorem Action.Enabled.clock_le {w : World} {a : Action} (h : a.Enabled w) :
    w.clock ≤ w.after a := by
  unfold World.after
  cases hspan : a.span with
  | none => simp
  | some span =>
      obtain ⟨hstart, hend⟩ := h.start span hspan
      simpa using hstart.trans hend

/-- The tables and the events of an action; a failed transaction leaves the
tables alone. -/
def Action.apply (db : Db) : Action → Db × List Event
  | .createFromMutualLike id first second now clock =>
      match Matches.createFromMutualLike db id first second now clock with
      | .ok (record, db') => (db', if record.id = id then [.created record] else [])
      | .error _ => (db, [])
  | .recordContinuation matchId userId legal acknowledgedCost t sourceId =>
      match record db matchId userId legal acknowledgedCost t sourceId with
      | .ok (.confirmed, db') => (db', [.confirmed matchId t.guard t.trigger])
      | .ok (_, db') => (db', [])
      | .error _ => (db, [])
  | .recordEnd matchId userId checked stamped =>
      ((Matches.recordEnd db matchId userId checked stamped).2, [])
  | .recordReveal matchId userId consent locked clock =>
      match Matches.recordReveal db matchId userId consent locked clock with
      | .ok (_, db') => (db', [])
      | .error _ => (db, [])
  | .messagesForUser matchId userId locked =>
      ((lockAvailableMatch db matchId userId locked).2, [])
  | .createMessage q t =>
      match Matches.createMessage db q t with
      | .ok (.available creation, db') =>
          (db', if creation.created then [.stored creation.message t.locked] else [])
      | .ok (_, db') => (db', [])
      | .error _ => (db, [])
  | .markMessageRead matchId messageId userId locked clock =>
      ((Matches.markMessageRead db matchId messageId userId locked clock).2, [])
  | .markMessagesReadThrough matchId messageId userId locked clock =>
      ((Matches.markMessagesReadThrough db matchId messageId userId locked clock).2, [])
  | .enqueueFirstPeriodReminders pass clock =>
      ((Matches.enqueueFirstPeriodReminders db pass clock).2, [])
  | .openContinuationWindows pass => ((Matches.openContinuationWindows db pass).2, [])
  | .expireContinuationWindows pass => ((Matches.expireContinuationWindows db pass).2, [])
  | .enqueueWarnings pass clock => ((Matches.enqueueWarnings db pass clock).2, [])
  | .closeInactiveMatches pass => ((Matches.closeInactiveMatches db pass).2, [])
  | .deleteExpiredMessages pass chosen => (Matches.deleteExpiredMessages db pass chosen, [])
  | .deleteExpiredNotifications pass chosen =>
      (Matches.deleteExpiredNotifications db pass chosen, [])
  | .purgeExpiredMatches pass reported => ((Matches.purgeExpiredMatches db pass reported).2, [])
  | .grantAdvertisingCredit userId now => ((Matches.grantAdvertisingCredit db userId now).2, [])
  | .environment env =>
      ({ db with
        accounts := env.accounts, consents := env.consents, blocks := env.blocks
        approvedPhotos := env.approvedPhotos, plans := env.plans }, [])
  | .tick _ => (db, [])

def World.next (w : World) (a : Action) : World where
  db := (a.apply w.db).1
  clock := w.after a
  log := (a.apply w.db).2 ++ w.log

def service : System World Action := ⟨fun w a ↦ a.Enabled w, World.next⟩

/-- No match was created yet and no credit was used. -/
structure Initial (w : World) : Prop where
  matchInit : w.db.matchInit = ∅
  matchState : w.db.matchState = ∅
  reservations : w.db.reservations = ∅
  usage : w.db.usage = ∅
  wallets : w.db.wallets = ∅
  messages : w.db.messages = ∅
  log : w.log = []

end Histae.Matches
