import Histae.Matches.Effects

/-!
# Blocks and leftover reservations

Two transactions of `src/privacy` beside the match service: a block ends the
match of the pair, and retention deletes the reservations of matches that are
no longer to be decided.
-/

namespace Histae.Matches

open Relational Systems

def endedMatchRetentionDays : ℤ := 30

/-- `INSERT ... ON CONFLICT DO NOTHING`. -/
def insertBlock (blocks : List (Uuid × Uuid)) (blockerId blockedId : Uuid) : List (Uuid × Uuid) :=
  if (blockerId, blockedId) ∈ blocks then blocks else (blockerId, blockedId) :: blocks

def least (a b : Uuid) : Uuid := if a ≤ b then a else b

def greatest (a b : Uuid) : Uuid := if a ≤ b then b else a

/-- `false` when the blocked account is gone. -/
def block (db : Db) (blockerId blockedId : Uuid) (clock : ℤ) : Bool × Db :=
  if (db.accounts.find? blockedId).any fun a ↦ a.deletedAt.isNone then
    let db := { db with blocks := insertBlock db.blocks blockerId blockedId }
    (true, updateMatch db clock
      (fun m ↦ m.user1Id = least blockerId blockedId && m.user2Id = greatest blockerId blockedId &&
        isLive m.status)
      (fun m ↦ { m with
        status := .ended, purgeAfter := some (clock + days endedMatchRetentionDays) })
      fun _ ↦ rfl)
  else (false, db)

/-- The retention statement on `continuation_reservation`, on the rows in
`chosen`. -/
def purgeReservations (db : Db) (now : ℤ) (limit : ℕ) (chosen : List (Uuid × Uuid)) : Db :=
  { db with
    reservations := db.reservations.delete fun r ↦
      r.key ∈ chosen.take limit && (db.matchInit.find? r.matchId).any fun m ↦
        m.status ≠ .awaitingContinuation || decide (m.expiresAt ≤ now) }

inductive LifeAction
  | service (a : Action)
  | block (blockerId blockedId : Uuid) (clock : ℤ)
  | purgeReservations (now : ℤ) (limit : ℕ) (chosen : List (Uuid × Uuid))

def LifeAction.Enabled (w : World) : LifeAction → Prop
  | .service a => a.Enabled w
  | .block _ _ clock => w.clock ≤ clock
  | .purgeReservations now _ _ => now ≤ w.clock

def World.live (w : World) : LifeAction → World
  | .service a => w.next a
  | .block blockerId blockedId clock =>
      { w with db := (Matches.block w.db blockerId blockedId clock).2, clock }
  | .purgeReservations now limit chosen =>
      { w with db := Matches.purgeReservations w.db now limit chosen }

/-- The service beside blocks and retention. -/
def conversations : System World LifeAction := ⟨fun w a ↦ a.Enabled w, World.live⟩

end Histae.Matches
