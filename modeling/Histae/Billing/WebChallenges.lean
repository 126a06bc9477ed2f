import Histae.Mobile.OtpOnce

/-!
# Web billing challenges

A challenge names an account and a phone; it belongs to the account when both
match. A verification takes an attempt, has the code consumed by the store of
the one-time codes and consumes the challenge, one transaction after the other.
The statement that consumes the challenge reads the account in its own
snapshot, before the transaction commits. A call names a phone in its canonical
form; any other phone is refused before the first statement.
-/

namespace Histae.Billing

open Relational Systems Mobile

/-- HMAC-SHA-256 under the key of the service, as a text, and the text of an
identifier. -/
structure CodeHash where
  hmac : List Char → String
  hyphenated : Uuid → List Char

structure CodeHash.Lawful (h : CodeHash) : Prop where
  hmac : Function.Injective h.hmac
  hyphenated : Function.Injective h.hyphenated

section Codes

variable (h : CodeHash)

/-- A code is hashed with the challenge it is for, or alone for a mobile login. -/
def codeHash (context : Option Uuid) (code : List Char) : String :=
  h.hmac (match context with
    | none => code
    | some id => "web-billing:".toList ++ h.hyphenated id ++ ':' :: code)

def isCode (code : List Char) : Bool := decide (code.length = 6) && code.all Char.isDigit

end Codes

section Tables

structure WebAccount where
  userId : Uuid
  phoneNumberHash : String
  isBanned : Bool
  deletedAt : Option ℤ
  deriving DecidableEq

def WebAccount.active (a : WebAccount) : Bool := a.deletedAt.isNone && !a.isBanned

abbrev WebAccounts := Table WebAccount.userId

structure WebBillingChallenge where
  id : Uuid
  idempotencyKey : Uuid
  requestedUserId : Uuid
  userId : Option Uuid
  phoneHash : String
  language : Mobile.Language
  attempts : ℕ
  consumed : Bool
  expiresAt : ℤ
  deriving DecidableEq

abbrev ChallengeTable := Table WebBillingChallenge.id

structure WebBillingSession where
  tokenHash : String
  userId : Uuid
  expiresAt : ℤ
  deriving DecidableEq

/-- The arguments of `start`. -/
structure ChallengeRequest where
  key : Uuid
  userId : Uuid
  phone : List Char
  language : Mobile.Language
  deriving DecidableEq

structure ChallengeView where
  challengeId : Uuid
  expiresAt : ℤ
  message : String
  deriving DecidableEq

inductive WebBillingError
  | idempotencyConflict
  deriving DecidableEq

def challengeView (id : Uuid) (expiresAt : ℤ) : ChallengeView where
  challengeId := id
  expiresAt := expiresAt
  message := "If the account details match, a verification code will be sent."

end Tables

section Statements

variable (h : CodeHash)

/-- The account that a new challenge belongs to. -/
def matchedAccount (accounts : WebAccounts) (r : ChallengeRequest) : Option WebAccount :=
  (accounts.find? r.userId).filter fun a ↦ a.phoneNumberHash = h.hmac r.phone && a.active

def newChallenge (accounts : WebAccounts) (r : ChallengeRequest) (id : Uuid) (now : ℤ) :
    WebBillingChallenge where
  id := id
  idempotencyKey := r.key
  requestedUserId := r.userId
  userId := (matchedAccount h accounts r).map WebAccount.userId
  phoneHash := h.hmac r.phone
  language := r.language
  attempts := 0
  consumed := false
  expiresAt := now + minutes 10

/-- `CREATE_CHALLENGE_SQL`; none when the idempotency key is stored. -/
def createChallenge (accounts : WebAccounts) (t : ChallengeTable) (r : ChallengeRequest) (id : Uuid)
    (now : ℤ) : Option ChallengeTable :=
  if t.rows.any fun c ↦ c.idempotencyKey = r.key then none
  else t.insert? (newChallenge h accounts r id now)

/-- `EXISTING_CHALLENGE_SQL`. -/
def existingChallenge (t : ChallengeTable) (r : ChallengeRequest) : Option WebBillingChallenge :=
  t.rows.find? fun c ↦
    c.idempotencyKey = r.key && c.requestedUserId = r.userId && c.phoneHash = h.hmac r.phone &&
      c.language = r.language

def WebBillingChallenge.attempt (c : WebBillingChallenge) : WebBillingChallenge :=
  { c with attempts := c.attempts + 1 }

def WebBillingChallenge.consume (c : WebBillingChallenge) : WebBillingChallenge :=
  { c with consumed := true }

theorem WebBillingChallenge.id_attempt (c : WebBillingChallenge) : c.attempt.id = c.id := rfl

theorem WebBillingChallenge.id_consume (c : WebBillingChallenge) : c.consume.id = c.id := rfl

/-- `BEGIN_VERIFY_SQL`. -/
def beginVerify (t : ChallengeTable) (id : Uuid) (phoneHash : String) (now : ℤ) :
    Option (ChallengeTable × Option Uuid) :=
  ((t.find? id).filter fun c ↦
      c.phoneHash = phoneHash && !c.consumed && decide (c.attempts < 5) && decide (now < c.expiresAt)).map
    fun c ↦ (t.modify (fun c ↦ c.id = id) WebBillingChallenge.attempt
      WebBillingChallenge.id_attempt, c.userId)

/-- The condition of `CONSUME_CHALLENGE_SQL` on the challenge. -/
def isConsumable (t : ChallengeTable) (id userId : Uuid) (now : ℤ) : Bool :=
  (t.find? id).any fun c ↦ c.userId = some userId && !c.consumed && decide (now < c.expiresAt)

/-- Its condition on the account. -/
def activeAccount (accounts : WebAccounts) (userId : Uuid) : Option WebAccount :=
  (accounts.find? userId).filter WebAccount.active

/-- The clean-up of expired challenges. -/
def purgeChallenges (t : ChallengeTable) (now : ℤ) (limit : ℕ) : ChallengeTable :=
  let expired := (((t.select fun c ↦ decide (c.expiresAt ≤ now)).insertionSort fun c d ↦
    c.expiresAt < d.expiresAt ∨ c.expiresAt = d.expiresAt ∧ c.id ≤ d.id).take limit).map
      WebBillingChallenge.id
  t.delete fun c ↦ c.id ∈ expired

/-- What an anonymization deletes. -/
def forgetChallenges (t : ChallengeTable) (userId : Uuid) : ChallengeTable :=
  t.delete fun c ↦ c.userId = some userId || c.requestedUserId = userId

end Statements

section Service

inductive VerifyPhase
  | started
  | attempted (userId : Uuid)
  | accepted (userId : Uuid)
  | checked (userId : Uuid) (account : WebAccount)
  | answered
  deriving DecidableEq

/-- The user of a call that holds an attempt. -/
def VerifyPhase.user? : VerifyPhase → Option Uuid
  | .attempted userId | .accepted userId | .checked userId _ => some userId
  | .started | .answered => none

structure VerifyCall where
  callId : ℕ
  challengeId : Uuid
  phone : List Char
  code : List Char
  phase : VerifyPhase
  deriving DecidableEq

def VerifyCall.withPhase (phase : VerifyPhase) (c : VerifyCall) : VerifyCall := { c with phase }

theorem VerifyCall.callId_withPhase (phase : VerifyPhase) (c : VerifyCall) :
    (c.withPhase phase).callId = c.callId := rfl

/-- A created challenge, with the account that it matched. -/
structure Creation where
  id : Uuid
  request : ChallengeRequest
  expiresAt : ℤ
  account : Option WebAccount
  deriving DecidableEq

/-- A code that was generated, for a challenge or for a mobile login. -/
structure GeneratedCode where
  deliveryId : Uuid
  context : Option Uuid
  code : List Char
  deriving DecidableEq

/-- A delivery that was consumed, with the context it was consumed in. -/
structure Acceptance where
  deliveryId : Uuid
  context : Option Uuid
  deriving DecidableEq

/-- A session that was opened, with the account as the statement that consumed
the challenge has read it. -/
structure SessionOpening where
  challengeId : Uuid
  userId : Uuid
  phone : List Char
  account : WebAccount
  deriving DecidableEq

structure WebBilling where
  accounts : WebAccounts
  challenges : ChallengeTable
  sessions : Table WebBillingSession.tokenHash
  otp : OtpStore
  /-- The calls of `start` whose key was stored. -/
  starts : List (ℕ × ChallengeRequest)
  /-- The matched challenges whose code is still to be sent. -/
  sends : List (Uuid × ChallengeRequest)
  calls : Table VerifyCall.callId
  issued : List Uuid
  created : List Creation
  answers : List (ChallengeRequest × Except WebBillingError ChallengeView)
  codes : List GeneratedCode
  accepted : List Acceptance
  examined : List Uuid
  opened : List SessionOpening

def WebBilling.start (accounts : WebAccounts) : WebBilling where
  accounts := accounts
  challenges := ∅
  sessions := ∅
  otp := .empty
  starts := []
  sends := []
  calls := ∅
  issued := []
  created := []
  answers := []
  codes := []
  accepted := []
  examined := []
  opened := []

/-- The steps that concern the creation of challenges. -/
inductive RequestStep
  | create (callId : ℕ) (request : ChallengeRequest) (id : Uuid) (now : ℤ)
  | lookUp (callId : ℕ)
  | purge (now : ℤ) (limit : ℕ)
  | forget (userId : Uuid)
  deriving DecidableEq

structure SendTimes where
  ttl : ℕ
  settlement : ℕ
  now : ℤ
  later : ℤ

inductive WebStep
  | request (a : RequestStep)
  | changeAccounts (accounts : WebAccounts)
  | sendCode (challengeId : Uuid) (code : List Char) (deliveryId : Uuid) (times : SendTimes)
  | sendMobileCode (phone : List Char) (language : Mobile.Language) (key : Uuid) (code : List Char)
      (deliveryId : Uuid) (times : SendTimes)
  | report (call : OtpCall)
  | purgeCodes (kept : Uuid → Bool)
  | login (phone code : List Char) (blocked : Bool) (now : ℤ)
  | verify (callId : ℕ) (challengeId : Uuid) (phone code : List Char)
  | beginVerify (callId : ℕ) (now : ℤ)
  | examine (callId : ℕ) (blocked : Bool) (now : ℤ)
  | checkAccount (callId : ℕ) (now : ℤ)
  | openSession (callId : ℕ) (tokenHash : String) (now : ℤ)

namespace WebBilling

variable (h : CodeHash) (w : WebBilling)

def move (callId : ℕ) (phase : VerifyPhase) : Table VerifyCall.callId :=
  w.calls.modify (fun c ↦ c.callId = callId) (VerifyCall.withPhase phase)
    (VerifyCall.callId_withPhase phase)

def answer (r : ChallengeRequest) (result : Except WebBillingError ChallengeView) : WebBilling :=
  { w with answers := (r, result) :: w.answers }

def requestNext : RequestStep → WebBilling
  | .create callId r id now =>
      match createChallenge h w.accounts w.challenges r id now with
      | none => { w with starts := (callId, r) :: w.starts }
      | some challenges =>
          let account := matchedAccount h w.accounts r
          { w.answer r (.ok (challengeView id (now + minutes 10))) with
            challenges
            sends := if account.isSome then (id, r) :: w.sends else w.sends
            issued := id :: w.issued
            created := ⟨id, r, now + minutes 10, account⟩ :: w.created }
  | .lookUp callId =>
      match w.starts.find? fun s ↦ s.1 = callId with
      | none => w
      | some (_, r) =>
          { w.answer r (match existingChallenge h w.challenges r with
              | none => .error .idempotencyConflict
              | some c => .ok (challengeView c.id c.expiresAt)) with
            starts := w.starts.filter fun s ↦ s.1 ≠ callId }
  | .purge now limit => { w with challenges := purgeChallenges w.challenges now limit }
  | .forget userId =>
      { w with
        challenges := forgetChallenges w.challenges userId
        sessions := w.sessions.delete fun s ↦ s.userId = userId }

/-- `send_in` as far as the row of the delivery. -/
def generate (context : Option Uuid) (phone : List Char) (language : Mobile.Language) (key : Uuid)
    (code : List Char) (deliveryId : Uuid) (times : SendTimes) : WebBilling :=
  { w with
    otp := w.otp.next (.begin
      { language := language, id := deliveryId, phoneHash := h.hmac phone,
        otpHash := codeHash h context code, idempotencyKey := key, ttl := times.ttl,
        settlement := times.settlement } times.now times.later)
    issued := deliveryId :: w.issued
    codes := ⟨deliveryId, context, code⟩ :: w.codes }

/-- The call of the store in `consume`. -/
def consumption (context : Option Uuid) (phone code : List Char) (blocked : Bool) (now : ℤ) :
    OtpCall := .consume (h.hmac phone) (codeHash h context code) blocked now

/-- `consume`, whose store call a code of another form does not reach. -/
def consumeCode (context : Option Uuid) (phone code : List Char) (blocked : Bool) (now : ℤ) :
    Option OtpRow × WebBilling :=
  if isCode code then
    let call := consumption h context phone code blocked now
    let row := consumed w.otp call
    (row,
      { w with
        otp := w.otp.next call
        accepted := (row.map fun r ↦ ⟨r.id, context⟩).toList ++ w.accepted })
  else (none, w)

def next : WebStep → WebBilling
  | .request a => w.requestNext h a
  | .changeAccounts accounts => { w with accounts }
  | .sendCode challengeId code deliveryId times =>
      match w.sends.find? fun s ↦ s.1 = challengeId with
      | none => w
      | some (_, r) =>
          { w.generate h (some challengeId) r.phone r.language challengeId code deliveryId times with
            sends := w.sends.filter fun s ↦ s.1 ≠ challengeId }
  | .sendMobileCode phone language key code deliveryId times =>
      w.generate h none phone language key code deliveryId times
  | .report call => { w with otp := w.otp.next call }
  | .purgeCodes kept =>
      { w with otp := { w.otp with rows := w.otp.rows.delete fun r ↦ !kept r.id } }
  | .login phone code blocked now => (w.consumeCode h none phone code blocked now).2
  | .verify callId challengeId phone code =>
      { w with calls := (w.calls.insert? ⟨callId, challengeId, phone, code, .started⟩).getD w.calls }
  | .beginVerify callId now =>
      match w.calls.find? callId with
      | some ⟨_, challengeId, phone, _, .started⟩ =>
          match Billing.beginVerify w.challenges challengeId (h.hmac phone) now with
          | none => { w with calls := w.move callId .answered }
          | some (challenges, none) => { w with challenges, calls := w.move callId .answered }
          | some (challenges, some userId) =>
              { w with challenges, calls := w.move callId (.attempted userId) }
      | _ => w
  | .examine callId blocked now =>
      match w.calls.find? callId with
      | some ⟨_, challengeId, phone, code, .attempted userId⟩ =>
          let result := w.consumeCode h (some challengeId) phone code blocked now
          { result.2 with
            examined := challengeId :: w.examined
            calls := w.move callId (if result.1.isSome then .accepted userId else .answered) }
      | _ => w
  | .checkAccount callId now =>
      match w.calls.find? callId with
      | some ⟨_, challengeId, _, _, .accepted userId⟩ =>
          { w with
            calls := w.move callId
              (match (activeAccount w.accounts userId).filter
                  fun _ ↦ isConsumable w.challenges challengeId userId now with
                | none => .answered
                | some account => .checked userId account) }
      | _ => w
  | .openSession callId tokenHash now =>
      match w.calls.find? callId with
      | some ⟨_, challengeId, phone, _, .checked userId account⟩ =>
          if isConsumable w.challenges challengeId userId now then
            match w.sessions.insert? ⟨tokenHash, userId, now + minutes 30⟩ with
            | none => { w with calls := w.move callId .answered }
            | some sessions =>
                { w with
                  sessions
                  challenges := w.challenges.modify (fun c ↦ c.id = challengeId)
                    WebBillingChallenge.consume WebBillingChallenge.id_consume
                  calls := w.move callId .answered
                  opened := ⟨challengeId, userId, phone, account⟩ :: w.opened }
          else { w with calls := w.move callId .answered }
      | _ => w

/-- Identifiers are never drawn twice, codes have six digits, and the reports
are those of the provider. -/
def Enabled : WebStep → Prop
  | .request (.create _ _ id _) => id ∉ w.issued
  | .sendCode _ code deliveryId _ | .sendMobileCode _ _ _ code deliveryId _ =>
      isCode code = true ∧ deliveryId ∉ w.issued
  | .report call => call.Admissible ∧
      match call with
      | .begin .. | .consume .. => False
      | _ => True
  | _ => True

end WebBilling

def webBilling (h : CodeHash) : System WebBilling WebStep where
  Enabled := WebBilling.Enabled
  next := WebBilling.next h

end Service

end Histae.Billing
