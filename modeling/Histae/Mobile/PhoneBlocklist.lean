import Histae.Mobile.SmsBudget
import Histae.Shared.Text

/-!
# The phone blocklist

Feeds report phone numbers and operators decide about single numbers. Imports
and decisions hold the policy lock exclusively, so each of them is one step. A
retention pass shares the lock with the checks: its two statements are steps of
their own, and so is a check, which reads the clock several times.
-/

namespace Histae.Mobile

open Relational Systems

section Rows

inductive Decision
  | automatic
  | block
  | allow
  deriving DecidableEq

inductive Source
  | castle
  | ip1
  deriving DecidableEq

inductive AdminRole
  | admin
  | superadmin
  deriving DecidableEq

inductive PolicyError
  | forbidden
  | invalid
  | conflict
  | notFound
  | unavailable
  | keyMismatch
  deriving DecidableEq

structure PhoneKey where
  hash : String
  hint : String
  deriving DecidableEq

/-- A row of `phone_blocklist_entry`, with its `CHECK`. -/
structure BlocklistEntry where
  id : Uuid
  key : PhoneKey
  decision : Decision
  decisionUntil : Option ℤ
  version : ℤ
  createdAt : ℤ
  updatedAt : ℤ
  check : decision = .automatic ↔ decisionUntil = none
  deriving DecidableEq

def BlocklistEntry.phoneHash (e : BlocklistEntry) : String := e.key.hash

/-- A row of `phone_blocklist_source`. -/
structure BlocklistSource where
  source : Source
  lastAttemptAt : Option ℤ
  lastSuccessAt : Option ℤ
  lastError : Option String
  importedCount : ℕ
  deriving DecidableEq

/-- A row of `phone_blocklist_observation`. -/
structure Observation where
  entryId : Uuid
  source : Source
  lastSeenAt : ℤ
  importedAt : ℤ
  deriving DecidableEq

def Observation.key (o : Observation) : Uuid × Source := (o.entryId, o.source)

/-- `phone_hash` is unique; the identifiers are too. -/
abbrev EntryTable := Table BlocklistEntry.phoneHash

abbrev ObservationTable := Table Observation.key

structure PolicyTables where
  keyFingerprint : Option String
  sources : Table BlocklistSource.source
  entries : EntryTable
  observations : ObservationTable

end Rows

section Check

/-- `clock_timestamp()` is read again for each comparison. -/
structure PolicyReadings where
  allowed : ℤ
  decided : ℤ
  seen : Source → ℤ
  ready : Source → ℤ

/-- `CHECK_POLICY`. -/
def checkPolicy (db : PolicyTables) (hash : String) (r : PolicyReadings) : Bool × Bool × Bool :=
  let entry := db.entries.find? hash
  (entry.any fun e ↦ e.decision = .allow && e.decisionUntil.any (r.allowed < ·),
    entry.any fun e ↦
      if e.decisionUntil.any (r.decided < ·) then e.decision = .block
      else db.observations.rows.any fun o ↦
        o.entryId = e.id && decide (r.seen o.source - days 90 < o.lastSeenAt),
    db.sources.rows.any fun s ↦ s.lastSuccessAt.any (r.ready s.source - days 7 < ·))

def permitOn (db : PolicyTables) (hash : String) (r : PolicyReadings) : Except SmsSendRejection Unit :=
  let (allowed, blocked, ready) := checkPolicy db hash r
  if allowed then .ok ()
  else if blocked then .error .phoneBlocked
  else if !ready then .error .unavailable
  else .ok ()

end Check

section Changes

def AdminRole.parse : String → Option AdminRole
  | "admin" => some .admin
  | "superadmin" => some .superadmin
  | _ => none

def AdminRole.auditReason (role : AdminRole) (supplied automatic : List Char) : List Char :=
  if role = .superadmin ∧ Shared.javascriptTrim supplied = [] then automatic else supplied

def Decision.acceptsDuration : Decision → Option ℕ → Bool
  | .automatic, days => days.isNone
  | .allow, days | .block, days => days.any fun days ↦ 1 ≤ days && days ≤ 90

inductive Target
  | id (id : Uuid)
  | phone (key : PhoneKey)

structure Change where
  target : Target
  decision : Decision
  days : Option ℕ
  version : ℤ
  reason : Option (List Char)

/-- `encode_utf16().count()`. -/
def utf16Len (text : List Char) : ℕ := (text.map fun c ↦ if c.val < 0x10000 then 1 else 2).sum

def Change.authorizedReason (change : Change) (role : AdminRole) : Except PolicyError (List Char) :=
  if role = .admin ∧ change.decision ≠ .allow then .error .forbidden
  else if change.version < 0 ∨ change.decision.acceptsDuration change.days = false then
    .error .invalid
  else
    let supplied := Shared.javascriptTrim (change.reason.getD [])
    let reason := role.auditReason supplied "Superadmin phone policy change".toList
    if utf16Len reason < 3 ∨ 500 < utf16Len reason ∨ Shared.hasControlCharacter reason then
      .error .invalid
    else .ok reason

/-- `INSERT_ENTRY`; none when the identifier is taken. -/
def insertEntry (entries : EntryTable) (id : Uuid) (key : PhoneKey) (insertedAt : ℤ × ℤ) :
    Option EntryTable :=
  match entries.find? key.hash with
  | some _ => some entries
  | none =>
      if entries.rows.any fun e ↦ e.id = id then none
      else entries.insert? ⟨id, key, .automatic, none, 0, insertedAt.1, insertedAt.2, by simp⟩

/-- The row is as `CHANGE` leaves it; none when the `CHECK` of the table fails. -/
def BlocklistEntry.change (e : BlocklistEntry) (decision : Decision) (duration : Option ℕ)
    (now updatedAt : ℤ) : Option BlocklistEntry :=
  let decisionUntil := duration.map fun n ↦ now + days n
  if check : decision = .automatic ↔ decisionUntil = none then
    some { e with decision, decisionUntil, version := e.version + 1, updatedAt, check }
  else none

theorem BlocklistEntry.change_eq {e e' : BlocklistEntry} {decision : Decision}
    {duration : Option ℕ} {now updatedAt : ℤ}
    (h : e.change decision duration now updatedAt = some e') :
    e'.id = e.id ∧ e'.key = e.key ∧ e'.decision = decision ∧
      e'.decisionUntil = duration.map (fun n ↦ now + days n) ∧ e'.version = e.version + 1 ∧
      e'.updatedAt = updatedAt := by
  unfold BlocklistEntry.change at h
  dsimp only at h
  split at h
  · obtain rfl := Option.some.inj h
    exact ⟨rfl, rfl, rfl, rfl, rfl, rfl⟩
  · cases h

/-- A transaction that changes a decision: the role of the active actor, the
identifier for a new entry and the readings of the clock. -/
structure ChangeCall where
  role : Option String
  change : Change
  newId : Uuid
  insertedAt : ℤ × ℤ
  now : ℤ
  updatedAt : ℤ
  fault : Bool

def ChangeCall.applied (call : ChangeCall) (e : BlocklistEntry) : Option BlocklistEntry :=
  e.change call.change.decision call.change.days call.now call.updatedAt

def findEntry (entries : EntryTable) (id : Uuid) : Option BlocklistEntry :=
  entries.rows.find? fun e ↦ e.id = id

def resolveTarget (entries : EntryTable) (call : ChangeCall) : Option (EntryTable × Uuid) :=
  match call.change.target with
  | .id id => some (entries, id)
  | .phone key =>
      (insertEntry entries call.newId key call.insertedAt).bind fun entries ↦
        (entries.find? key.hash).map fun e ↦ (entries, e.id)

theorem phoneHash_getD_applied (call : ChangeCall) (e : BlocklistEntry) :
    ((call.applied e).getD e).phoneHash = e.phoneHash := by
  cases h : call.applied e with
  | none => rfl
  | some e' => exact congrArg PhoneKey.hash (BlocklistEntry.change_eq h).2.1

def changeOn (db : PolicyTables) (call : ChangeCall) : Except PolicyError Unit × PolicyTables :=
  match call.role.bind AdminRole.parse with
  | none => (.error .forbidden, db)
  | some role =>
      match call.change.authorizedReason role with
      | .error error => (.error error, db)
      | .ok _ =>
          match resolveTarget db.entries call with
          | none => (.error .unavailable, db)
          | some (entries, id) =>
              match findEntry entries id with
              | none => (.error .notFound, db)
              | some e =>
                  if e.version ≠ call.change.version then (.error .conflict, db)
                  else if call.fault ∨ call.applied e = none then (.error .unavailable, db)
                  else
                    (.ok (),
                      { db with
                        entries := entries.modify (fun e ↦ e.id = id)
                          (fun e ↦ (call.applied e).getD e) (phoneHash_getD_applied call) })

end Changes

section Imports

structure ImportedNumber where
  key : PhoneKey
  lastSeenAt : ℤ
  deriving DecidableEq

def maxImportEntries : ℕ := 200000

/-- An import, with the identifiers drawn for its numbers, the readings of the
clock for its rows and whether the database fails it. -/
structure FeedImport where
  source : Source
  numbers : List ImportedNumber
  fingerprint : String
  ids : ℕ → Uuid
  insertedAt : ℕ → ℤ × ℤ
  importedAt : ℕ → ℤ
  attemptedAt : ℤ
  succeededAt : ℤ
  fault : Bool

/-- `IMPORT_ENTRIES`, from a number on. -/
def importEntries (call : FeedImport) : ℕ → EntryTable → List ImportedNumber → Option EntryTable
  | _, entries, [] => some entries
  | i, entries, number :: rest =>
      (insertEntry entries (call.ids i) number.key (call.insertedAt i)).bind fun entries ↦
        importEntries call (i + 1) entries rest

def Observation.renew (seen importedAt : ℤ) (o : Observation) : Observation :=
  { o with lastSeenAt := max o.lastSeenAt seen, importedAt }

theorem Observation.key_renew (seen importedAt : ℤ) (o : Observation) :
    (o.renew seen importedAt).key = o.key := rfl

/-- `IMPORT_OBSERVATIONS`, from a number on. -/
def importObservations (call : FeedImport) (entries : EntryTable) :
    ℕ → ObservationTable → List ImportedNumber → ObservationTable
  | _, observations, [] => observations
  | i, observations, number :: rest =>
      match entries.find? number.key.hash with
      | none => importObservations call entries (i + 1) observations rest
      | some e =>
          importObservations call entries (i + 1)
            (observations.upsert ⟨e.id, call.source, number.lastSeenAt, call.importedAt i⟩
              (Observation.renew number.lastSeenAt (call.importedAt i))
              (Observation.key_renew number.lastSeenAt (call.importedAt i))) rest

def BlocklistSource.succeed (attemptedAt succeededAt : ℤ) (count : ℕ) (s : BlocklistSource) :
    BlocklistSource :=
  { s with
    lastAttemptAt := some attemptedAt
    lastSuccessAt := some succeededAt
    lastError := none
    importedCount := count }

/-- `ON CONFLICT DO UPDATE` may not affect a row twice. -/
def importFeed (db : PolicyTables) (call : FeedImport) : Except PolicyError ℕ × PolicyTables :=
  if maxImportEntries < call.numbers.length then (.error .invalid, db)
  else if call.fault then (.error .unavailable, db)
  else if db.keyFingerprint ≠ some call.fingerprint then (.error .keyMismatch, db)
  else
    match importEntries call 0 db.entries call.numbers with
    | none => (.error .unavailable, db)
    | some entries =>
        if ¬ (call.numbers.map fun n ↦ n.key.hash).Nodup then (.error .unavailable, db)
        else
          (.ok call.numbers.length,
            { db with
              entries
              observations := importObservations call entries 0 db.observations call.numbers
              sources := db.sources.modify (fun s ↦ s.source = call.source)
                (BlocklistSource.succeed call.attemptedAt call.succeededAt call.numbers.length)
                fun _ ↦ rfl })

def BlocklistSource.fail (now : ℤ) (s : BlocklistSource) : BlocklistSource :=
  { s with lastAttemptAt := some now, lastError := some "phone_feed_unavailable" }

theorem BlocklistSource.source_fail (now : ℤ) (s : BlocklistSource) :
    (s.fail now).source = s.source := rfl

def recordFailure (db : PolicyTables) (source : Source) (now : ℤ) : PolicyTables :=
  { db with
    sources := db.sources.modify (fun s ↦ s.source = source) (BlocklistSource.fail now)
      (BlocklistSource.source_fail now) }

end Imports

section Retention

/-- The binds of a statement, and the rows it skips as locked. -/
structure PurgeCall (κ : Type) where
  now : ℤ
  limit : ℕ
  locked : κ → Bool

def staleObservations (db : PolicyTables) (call : PurgeCall (Uuid × Source)) : List Observation :=
  ((db.observations.select fun o ↦
      decide (o.lastSeenAt ≤ call.now - days 180) && !call.locked o.key).insertionSort fun o p ↦
    o.lastSeenAt < p.lastSeenAt ∨ o.lastSeenAt = p.lastSeenAt ∧ o.entryId ≤ p.entryId).take call.limit

def purgeObservations (db : PolicyTables) (call : PurgeCall (Uuid × Source)) : PolicyTables :=
  let stale := (staleObservations db call).map Observation.key
  { db with observations := db.observations.delete fun o ↦ o.key ∈ stale }

def expiredEntries (db : PolicyTables) (call : PurgeCall Uuid) : List BlocklistEntry :=
  ((db.entries.select fun e ↦
      decide (e.updatedAt ≤ call.now - days 180) && e.decisionUntil.all (· ≤ call.now) &&
        !(db.observations.rows.any fun o ↦ o.entryId = e.id) && !call.locked e.id).insertionSort
    fun e f ↦ e.createdAt < f.createdAt ∨ e.createdAt = f.createdAt ∧ e.id ≤ f.id).take call.limit

/-- The observations of an entry go with it. -/
def purgeEntries (db : PolicyTables) (call : PurgeCall Uuid) : PolicyTables :=
  let expired := (expiredEntries db call).map BlocklistEntry.id
  { db with
    entries := db.entries.delete fun e ↦ e.id ∈ expired
    observations := db.observations.delete fun o ↦ o.entryId ∈ expired }

end Retention

end Histae.Mobile
