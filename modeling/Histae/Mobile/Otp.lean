import Mathlib
import Histae.Relational.Table
import Histae.Shared.Time
import Histae.Systems.Run

/-!
# One-time codes

A row of `otp_verification` is one attempt to deliver a code to a phone.
Every transaction takes the advisory lock of the phone before it reads a row
of that phone for the second time, and the phone of a row never changes, so a
transaction is one step at the moment it holds the lock.
`clock_timestamp()` goes on while a transaction runs; the operations take one
reading for each of their statements that reads it.

`attempt_number` is drawn from a sequence when a row is inserted, also when
the insertion then meets a stored key. `provider` is always `sweego`, its
default, and is left out, as is `created_at`, which only statistics read.
-/

namespace Histae.Mobile

open Relational Systems

inductive OtpDeliveryState
  | pending
  | accepted
  | sent
  | failed
  | unknown
  deriving DecidableEq

inductive Language
  | fr
  | en
  | es
  | it
  deriving DecidableEq

inductive SmsFailureReason
  | notConfigured
  | phoneBlocked
  | providerRejected
  | providerUnavailable
  | providerNetworkError
  | providerInvalidResponse
  | phoneHourlyLimit
  | phoneDailyLimit
  | globalHourlyLimit
  | globalDailyLimit
  | sendingSuspended
  | safetyUnavailable
  | attemptAlreadyReserved
  deriving DecidableEq

namespace SmsFailureReason

def asStr : SmsFailureReason → String
  | phoneBlocked => "sms_phone_blocked"
  | notConfigured => "not_configured"
  | providerRejected => "provider_rejected"
  | providerUnavailable => "provider_unavailable"
  | providerNetworkError => "provider_network_error"
  | providerInvalidResponse => "provider_invalid_response"
  | phoneHourlyLimit => "sms_phone_hourly_limit"
  | phoneDailyLimit => "sms_phone_daily_limit"
  | globalHourlyLimit => "sms_global_hourly_limit"
  | globalDailyLimit => "sms_global_daily_limit"
  | sendingSuspended => "sms_sending_suspended"
  | safetyUnavailable => "sms_safety_unavailable"
  | attemptAlreadyReserved => "sms_attempt_already_reserved"

def policyRejection : String → Option SmsFailureReason
  | "sms_phone_hourly_limit" => some phoneHourlyLimit
  | "sms_phone_daily_limit" => some phoneDailyLimit
  | "sms_global_hourly_limit" => some globalHourlyLimit
  | "sms_global_daily_limit" => some globalDailyLimit
  | "sms_phone_blocked" => some phoneBlocked
  | "sms_sending_suspended" => some sendingSuspended
  | "sms_safety_unavailable" => some safetyUnavailable
  | "sms_attempt_already_reserved" => some attemptAlreadyReserved
  | _ => none

end SmsFailureReason

structure OtpRow where
  id : Uuid
  phoneHash : String
  otpHash : String
  language : Language
  expiresAt : ℤ
  used : Bool
  idempotencyKey : Uuid
  deliveryStatus : OtpDeliveryState
  providerTransactionId : Option String
  providerMessageId : Option String
  deliveryErrorCode : Option String
  sentAt : Option ℤ
  attemptNumber : ℕ
  settlementDeadline : ℤ
  providerSentAt : Option ℤ
  failedAt : Option ℤ
  lastWebhookAt : Option ℤ
  deriving DecidableEq

/-- The durations are whole milliseconds. -/
structure BeginOtpDelivery where
  language : Language
  id : Uuid
  phoneHash : String
  otpHash : String
  idempotencyKey : Uuid
  ttl : ℕ
  settlement : ℕ
  deriving DecidableEq

inductive OtpDeliveryStart
  | created (id : Uuid)
  | existing (state : OtpDeliveryState) (id : Uuid)
  | conflict
  | policyRejected (reason : SmsFailureReason)
  deriving DecidableEq

inductive SmsEventKind
  | sent
  | undelivered
  deriving DecidableEq

structure SmsDeliveryEvent where
  deliveryId : Uuid
  messageId : String
  transactionId : Option String
  kind : SmsEventKind
  deriving DecidableEq

inductive SmsEventOutcome
  | applied
  | ignored
  | conflict
  deriving DecidableEq

inductive DatabaseError
  | constraint
  | queryFailed
  deriving DecidableEq

def milliseconds (n : ℕ) : ℤ := n * 1000

/-- The duration as the `i64` that is bound to the statement. -/
def durationMillis (millis : ℕ) : Except DatabaseError ℕ :=
  if millis < 2 ^ 63 then .ok millis else .error .queryFailed

namespace OtpRow

/-- Accepted by the provider, or confirmed as sent. -/
def delivered (r : OtpRow) : Bool := r.deliveryStatus = .accepted || r.deliveryStatus = .sent

/-- The condition of the partial index `idx_otp_one_usable_per_phone`. -/
def usable (r : OtpRow) : Bool := r.delivered && !r.used

def new (input : BeginOtpDelivery) (ttlMillis settlementMillis attemptNumber : ℕ) (now : ℤ) :
    OtpRow where
  id := input.id
  phoneHash := input.phoneHash
  otpHash := input.otpHash
  language := input.language
  expiresAt := now + milliseconds ttlMillis
  used := false
  idempotencyKey := input.idempotencyKey
  deliveryStatus := .pending
  providerTransactionId := none
  providerMessageId := none
  deliveryErrorCode := none
  sentAt := none
  attemptNumber := attemptNumber
  settlementDeadline := now + milliseconds settlementMillis
  providerSentAt := none
  failedAt := none
  lastWebhookAt := none

def markUsed (r : OtpRow) : OtpRow := { r with used := true }

def lapse (r : OtpRow) : OtpRow :=
  { r with deliveryStatus := .unknown, deliveryErrorCode := some "delivery_unknown" }

def accept (transactionId messageId : String) (now : ℤ) (r : OtpRow) : OtpRow :=
  { r with
    deliveryStatus := if r.deliveryStatus = .sent then .sent else .accepted
    providerTransactionId := some transactionId
    providerMessageId := some messageId
    sentAt := r.sentAt <|> some now
    deliveryErrorCode := none }

def conclude (state : OtpDeliveryState) (reason : SmsFailureReason) (now : ℤ) (r : OtpRow) :
    OtpRow :=
  { r with
    deliveryStatus := state
    deliveryErrorCode := some reason.asStr
    failedAt := if state = .failed then r.failedAt <|> some now else r.failedAt }

def confirm (event : SmsDeliveryEvent) (now : ℤ) (r : OtpRow) : OtpRow :=
  { r with
    deliveryStatus := .sent
    providerMessageId := some event.messageId
    providerTransactionId := r.providerTransactionId <|> event.transactionId
    sentAt := r.sentAt <|> some now
    providerSentAt := r.providerSentAt <|> some now
    deliveryErrorCode := none
    lastWebhookAt := some now }

def reject (event : SmsDeliveryEvent) (now : ℤ) (r : OtpRow) : OtpRow :=
  { r with
    deliveryStatus := .failed
    providerMessageId := some event.messageId
    providerTransactionId := r.providerTransactionId <|> event.transactionId
    failedAt := r.failedAt <|> some now
    deliveryErrorCode := some "provider_undelivered"
    lastWebhookAt := some now }

def matchesReceipt (r : OtpRow) (messageId : String) (transactionId : Option String) : Bool :=
  r.providerMessageId.all (fun stored ↦ stored = messageId) &&
    r.providerTransactionId.all fun stored ↦
      transactionId.all fun supplied ↦ supplied = stored

/-- The rows that `consume` sets to used. -/
def redeemable (phoneHash otpHash : String) (now : ℤ) (r : OtpRow) : Bool :=
  r.phoneHash = phoneHash && r.otpHash = otpHash && r.delivered && !r.used && now < r.expiresAt

end OtpRow

abbrev OtpTable := Table OtpRow.id

/-- A statement that puts a row into the partial index fails when the phone
already has one there. -/
def checkUsable (rows : OtpTable) : Except DatabaseError OtpTable :=
  if ∀ r ∈ rows.rows, ∀ s ∈ rows.rows,
      r.usable = true → s.usable = true → r.phoneHash = s.phoneHash → r.id = s.id then
    .ok rows
  else .error .constraint

def lockedDelivery (rows : OtpTable) (id : Uuid) (phoneHash : String) : Option OtpRow :=
  (rows.find? id).filter fun r ↦ r.phoneHash = phoneHash

/-- Some later attempt for the phone has been accepted or sent. -/
def overtaken (rows : OtpTable) (row : OtpRow) : Bool :=
  0 < rows.count fun r ↦
    r.phoneHash = row.phoneHash && row.attemptNumber < r.attemptNumber && r.sentAt.isSome

def activate (rows : OtpTable) (row : OtpRow) (now : ℤ) : OtpTable :=
  if row.used then rows
  else
    let rows := rows.modify
      (fun r ↦ r.id = row.id && (r.expiresAt ≤ now || overtaken rows row)) OtpRow.markUsed
      fun _ ↦ rfl
    rows.modify
      (fun r ↦ r.phoneHash = row.phoneHash && r.attemptNumber < row.attemptNumber && !r.used &&
        0 < rows.count fun s ↦ s.id = row.id && !s.used) OtpRow.markUsed
      fun _ ↦ rfl

/-- `now` is read by the insertion, `later` by the update that follows a
conflict. -/
def begin (rows : OtpTable) (attemptNumber : ℕ) (input : BeginOtpDelivery) (now later : ℤ) :
    Except DatabaseError (OtpTable × OtpDeliveryStart) := do
  let ttlMillis ← durationMillis input.ttl
  let settlementMillis ← durationMillis input.settlement
  match rows.rows.find? fun r ↦ r.idempotencyKey = input.idempotencyKey with
  | none =>
      match rows.insert? (.new input ttlMillis settlementMillis attemptNumber now) with
      | none => .error .constraint
      | some rows => .ok (rows, .created input.id)
  | some _ =>
      let rows := rows.modify
        (fun r ↦ r.idempotencyKey = input.idempotencyKey && r.phoneHash = input.phoneHash &&
          r.language = input.language && r.deliveryStatus = .pending &&
          r.settlementDeadline ≤ later) OtpRow.lapse
        fun _ ↦ rfl
      match rows.rows.find? fun r ↦ r.idempotencyKey = input.idempotencyKey with
      | none => .error .queryFailed
      | some existing =>
          if existing.phoneHash ≠ input.phoneHash ∨ existing.language ≠ input.language then
            .ok (rows, .conflict)
          else
            match existing.deliveryStatus,
                existing.deliveryErrorCode.bind SmsFailureReason.policyRejection with
            | .failed, some reason => .ok (rows, .policyRejected reason)
            | state, _ => .ok (rows, .existing state existing.id)

/-- `now` is read by `activate`, `later` by the update; the answer says
whether the code is unexpired. -/
def markAccepted (rows : OtpTable) (id : Uuid) (phoneHash transactionId messageId : String)
    (now later : ℤ) : Except DatabaseError (OtpTable × Bool) :=
  match lockedDelivery rows id phoneHash with
  | none => .ok (rows, false)
  | some row =>
      if ¬ row.matchesReceipt messageId (some transactionId) ∨ row.deliveryStatus = .failed then
        .ok (rows, false)
      else do
        let rows ← checkUsable ((activate rows row now).modify (fun r ↦ r.id = id)
          (OtpRow.accept transactionId messageId later) fun _ ↦ rfl)
        .ok (rows, later < row.expiresAt)

def markOutcome (rows : OtpTable) (id : Uuid) (phoneHash : String) (state : OtpDeliveryState)
    (reason : SmsFailureReason) (now : ℤ) : OtpTable × OtpDeliveryState :=
  match lockedDelivery rows id phoneHash with
  | none => (rows, state)
  | some row =>
      if row.deliveryStatus = .pending ∨ row.deliveryStatus = .unknown then
        (rows.modify (fun r ↦ r.id = id) (OtpRow.conclude state reason now) fun _ ↦ rfl, state)
      else (rows, row.deliveryStatus)

def applySmsEvent (rows : OtpTable) (event : SmsDeliveryEvent) (now later : ℤ) :
    Except DatabaseError (OtpTable × SmsEventOutcome) :=
  match rows.find? event.deliveryId with
  | none => .ok (rows, .ignored)
  | some row =>
      if ¬ row.matchesReceipt event.messageId event.transactionId then .ok (rows, .conflict)
      else if row.deliveryStatus = .failed ∨
          row.deliveryStatus = .sent ∧ event.kind = .sent then
        .ok (rows, .ignored)
      else
        match event.kind with
        | .sent => do
            let rows ← checkUsable ((activate rows row now).modify
              (fun r ↦ r.id = event.deliveryId) (OtpRow.confirm event later) fun _ ↦ rfl)
            .ok (rows, .applied)
        | .undelivered =>
            .ok (rows.modify (fun r ↦ r.id = event.deliveryId) (OtpRow.reject event later)
              fun _ ↦ rfl, .applied)

/-- `blocked` is the answer of `otp_blocked_on`. -/
def consume (rows : OtpTable) (phoneHash otpHash : String) (blocked : Bool) (now : ℤ) :
    OtpTable × Bool :=
  if blocked then (rows, false)
  else
    (rows.modify (OtpRow.redeemable phoneHash otpHash now) OtpRow.markUsed fun _ ↦ rfl,
      rows.count (OtpRow.redeemable phoneHash otpHash now) = 1)

inductive OtpCall
  | begin (input : BeginOtpDelivery) (now later : ℤ)
  | markAccepted (id : Uuid) (phoneHash transactionId messageId : String) (now later : ℤ)
  | markOutcome (id : Uuid) (phoneHash : String) (state : OtpDeliveryState)
      (reason : SmsFailureReason) (now : ℤ)
  | applySmsEvent (event : SmsDeliveryEvent) (now later : ℤ)
  | consume (phoneHash otpHash : String) (blocked : Bool) (now : ℤ)
  deriving DecidableEq

structure OtpStore where
  rows : OtpTable
  nextAttempt : ℕ

def OtpStore.empty : OtpStore := ⟨∅, 1⟩

/-- A transaction that fails is rolled back. -/
def committed {α : Type} (rows : OtpTable) (result : Except DatabaseError (OtpTable × α)) :
    OtpTable :=
  match result with
  | .ok (rows, _) => rows
  | .error _ => rows

def OtpStore.next (s : OtpStore) : OtpCall → OtpStore
  | .begin input now later =>
      ⟨committed s.rows (begin s.rows s.nextAttempt input now later), s.nextAttempt + 1⟩
  | .markAccepted id phoneHash transactionId messageId now later =>
      { s with
        rows := committed s.rows
          (markAccepted s.rows id phoneHash transactionId messageId now later) }
  | .markOutcome id phoneHash state reason now =>
      { s with rows := (markOutcome s.rows id phoneHash state reason now).1 }
  | .applySmsEvent event now later =>
      { s with rows := committed s.rows (applySmsEvent s.rows event now later) }
  | .consume phoneHash otpHash blocked now =>
      { s with rows := (consume s.rows phoneHash otpHash blocked now).1 }

/-- `mark_outcome` asserts that it is told of a failed or an unknown outcome. -/
def OtpCall.Admissible : OtpCall → Prop
  | .markOutcome _ _ state _ _ => state = .unknown ∨ state = .failed
  | _ => True

instance : DecidablePred OtpCall.Admissible
  | .markOutcome _ _ state _ _ =>
      inferInstanceAs (Decidable (state = .unknown ∨ state = .failed))
  | .begin .. | .markAccepted .. | .applySmsEvent .. | .consume .. => .isTrue trivial

/-- The instant at which `activate`, or else the first statement that reads
the clock, reads it. -/
def OtpCall.now : OtpCall → ℤ
  | .begin _ now _ | .markAccepted _ _ _ _ now _ | .markOutcome _ _ _ _ now
  | .applySmsEvent _ now _ | .consume _ _ _ now => now

def OtpCall.later : OtpCall → ℤ
  | .begin _ _ later | .markAccepted _ _ _ _ _ later | .markOutcome _ _ _ _ later
  | .applySmsEvent _ _ later | .consume _ _ _ later => later

/-- Any order of the transactions, of any number of callers. -/
def deliveries : System OtpStore OtpCall where
  Enabled _ call := call.Admissible
  next := OtpStore.next

instance (s : OtpStore) (call : OtpCall) : Decidable (deliveries.Enabled s call) :=
  inferInstanceAs (Decidable call.Admissible)

/-- The delivery that a call consumes with success. -/
def consumed (s : OtpStore) : OtpCall → Option OtpRow
  | .consume phoneHash otpHash blocked now =>
      if (consume s.rows phoneHash otpHash blocked now).2 then
        s.rows.rows.find? (OtpRow.redeemable phoneHash otpHash now)
      else none
  | _ => none

section Activation

variable {rows : OtpTable} {row r : OtpRow} {now : ℤ}

theorem overtaken_iff : overtaken rows row = true ↔
    ∃ r ∈ rows, r.phoneHash = row.phoneHash ∧ row.attemptNumber < r.attemptNumber ∧
      r.sentAt.isSome = true := by
  rw [overtaken, decide_eq_true_eq, Table.count_pos_iff]
  simp [and_assoc]

def OtpRow.retireIf (condition : Bool) (r : OtpRow) : OtpRow :=
  { r with used := r.used || condition }

@[simp] theorem OtpRow.id_retireIf (condition : Bool) (r : OtpRow) :
    (r.retireIf condition).id = r.id := rfl

@[simp] theorem OtpRow.retireIf_false (r : OtpRow) : r.retireIf false = r := by
  simp [retireIf]

theorem OtpRow.retireIf_of_used (condition : Bool) (h : r.used = true) :
    r.retireIf condition = r := by
  cases r
  simp_all [retireIf]

theorem mem_modify_markUsed {p : OtpRow → Bool} :
    r ∈ rows.modify p OtpRow.markUsed (fun _ ↦ rfl) ↔ ∃ q ∈ rows, r = q.retireIf (p q) := by
  rw [Table.mem_modify (f := OtpRow.markUsed) fun _ ↦ rfl]
  refine exists_congr fun q ↦ and_congr_right fun _ ↦ ?_
  cases hp : p q <;> simp [OtpRow.markUsed, OtpRow.retireIf]

/-- The rows that `activate` sets to used. -/
def retired (rows : OtpTable) (row : OtpRow) (now : ℤ) (r : OtpRow) : Bool :=
  !row.used && if row.expiresAt ≤ now || overtaken rows row then r.id = row.id
    else r.phoneHash = row.phoneHash && r.attemptNumber < row.attemptNumber

theorem mem_activate (hrow : row ∈ rows) : r ∈ activate rows row now ↔
    ∃ q ∈ rows, r = q.retireIf (retired rows row now q) := by
  cases hused : row.used with
  | true => simp [activate, retired, hused]
  | false =>
      simp only [activate, hused, Bool.false_eq_true, if_false]
      generalize hone : rows.modify (fun q ↦ q.id = row.id &&
        (q.expiresAt ≤ now || overtaken rows row)) OtpRow.markUsed (fun _ ↦ rfl) = one
      generalize hstale : (decide (row.expiresAt ≤ now) || overtaken rows row) = stale
      have hself : ∀ p, p ∈ one ↔ ∃ q ∈ rows, p = q.retireIf (q.id = row.id && stale) := by
        intro p
        rw [← hone, mem_modify_markUsed]
        refine exists_congr fun q ↦ and_congr_right fun hq ↦ ?_
        by_cases hid : q.id = row.id
        · rw [Table.eq_of_key_eq hq hrow hid, hstale]
        · simp [hid]
      have hopen : decide (0 < one.count fun s ↦ s.id = row.id && !s.used) = !stale := by
        rw [Bool.eq_iff_iff, decide_eq_true_eq, Table.count_pos_iff, Bool.not_eq_true']
        constructor
        · rintro ⟨p, hp, hopen⟩
          obtain ⟨q, hq, rfl⟩ := (hself p).mp hp
          simp only [OtpRow.retireIf, Bool.and_eq_true, decide_eq_true_eq, Bool.not_eq_true',
            Bool.or_eq_false_iff, Bool.and_eq_false_imp] at hopen
          exact hopen.2.2 (of_decide_eq_true hopen.1)
        · intro hfalse
          refine ⟨row, (hself row).mpr ⟨row, hrow, ?_⟩, by simp [hused]⟩
          rw [hfalse, Bool.and_false, OtpRow.retireIf_false]
      have hboth : ∀ q : OtpRow, (q.retireIf (q.id = row.id && stale)).retireIf
          (q.phoneHash = row.phoneHash && q.attemptNumber < row.attemptNumber &&
            !(q.retireIf (q.id = row.id && stale)).used && !stale) =
          q.retireIf (retired rows row now q) := by
        intro q
        simp only [retired, hused, hstale]
        cases stale with
        | true => simp
        | false =>
            cases hq : q.used with
            | true => simp only [OtpRow.retireIf_of_used _ hq, Bool.and_false]
            | false => simp [hq]
      simp only [hopen]
      rw [mem_modify_markUsed]
      constructor
      · rintro ⟨p, hp, rfl⟩
        obtain ⟨q, hq, rfl⟩ := (hself p).mp hp
        exact ⟨q, hq, hboth q⟩
      · rintro ⟨q, hq, rfl⟩
        exact ⟨_, (hself _).mpr ⟨q, hq, rfl⟩, (hboth q).symm⟩

end Activation

end Histae.Mobile
