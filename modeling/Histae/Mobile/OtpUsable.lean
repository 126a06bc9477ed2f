import Mathlib
import Histae.Mobile.Otp

/-!
# One usable code per phone

An update that does not deliver a code makes no row usable: it `Settles` the
rows. The others run `activate` first, which either retires the row itself
(it has expired, or a later attempt has been accepted) or retires every
earlier attempt for the phone. So below a usable row every attempt for its
phone is used; that is the invariant which the interleavings preserve.
-/

namespace Histae.Mobile

open Relational Systems

namespace OtpRow

/-- What no transaction changes, and what none takes back. -/
structure Evolves (r r' : OtpRow) : Prop where
  id : r'.id = r.id
  phoneHash : r'.phoneHash = r.phoneHash
  otpHash : r'.otpHash = r.otpHash
  attemptNumber : r'.attemptNumber = r.attemptNumber
  expiresAt : r'.expiresAt = r.expiresAt
  used : r.used = true → r'.used = true
  sentAt : r.sentAt.isSome = true → r'.sentAt.isSome = true
  failed : r.deliveryStatus = .failed → r'.deliveryStatus = .failed

/-- An update that delivers nothing; it sets to used only what had been
delivered. -/
structure Settles (r r' : OtpRow) : Prop extends Evolves r r' where
  unsent : r'.sentAt = r.sentAt
  undelivered : r'.delivered = true → r.delivered = true
  taken : r'.used = true → r.used = true ∨ r.delivered = true

theorem Evolves.refl (r : OtpRow) : r.Evolves r :=
  ⟨rfl, rfl, rfl, rfl, rfl, fun h ↦ h, fun h ↦ h, fun h ↦ h⟩

theorem Evolves.trans {r r' r'' : OtpRow} (h : r.Evolves r') (h' : r'.Evolves r'') :
    r.Evolves r'' where
  id := h'.id.trans h.id
  phoneHash := h'.phoneHash.trans h.phoneHash
  otpHash := h'.otpHash.trans h.otpHash
  attemptNumber := h'.attemptNumber.trans h.attemptNumber
  expiresAt := h'.expiresAt.trans h.expiresAt
  used hused := h'.used (h.used hused)
  sentAt hsent := h'.sentAt (h.sentAt hsent)
  failed hfailed := h'.failed (h.failed hfailed)

theorem Settles.refl (r : OtpRow) : r.Settles r := ⟨Evolves.refl r, rfl, fun h ↦ h, Or.inl⟩

theorem Settles.usable {r r' : OtpRow} (h : r.Settles r') (hr' : r'.usable = true) :
    r.usable = true := by
  simp only [OtpRow.usable, Bool.and_eq_true, Bool.not_eq_true'] at hr' ⊢
  refine ⟨h.undelivered hr'.1, ?_⟩
  cases hused : r.used with
  | false => rfl
  | true => exact absurd (h.used hused) (by simp [hr'.2])

end OtpRow

/-- The assignments of an update that records a delivery. -/
structure Delivers (f : OtpRow → OtpRow) : Prop where
  id : ∀ r, (f r).id = r.id
  phoneHash : ∀ r, (f r).phoneHash = r.phoneHash
  otpHash : ∀ r, (f r).otpHash = r.otpHash
  attemptNumber : ∀ r, (f r).attemptNumber = r.attemptNumber
  expiresAt : ∀ r, (f r).expiresAt = r.expiresAt
  used : ∀ r, (f r).used = r.used
  delivered : ∀ r, (f r).delivered = true
  sentAt : ∀ r, (f r).sentAt.isSome = true

theorem delivers_accept (transactionId messageId : String) (now : ℤ) :
    Delivers (OtpRow.accept transactionId messageId now) where
  id _ := rfl
  phoneHash _ := rfl
  otpHash _ := rfl
  attemptNumber _ := rfl
  expiresAt _ := rfl
  used _ := rfl
  delivered r := by
    by_cases h : r.deliveryStatus = .sent <;> simp [OtpRow.accept, OtpRow.delivered, h]
  sentAt r := by cases h : r.sentAt <;> simp [OtpRow.accept, h]

theorem delivers_confirm (event : SmsDeliveryEvent) (now : ℤ) :
    Delivers (OtpRow.confirm event now) where
  id _ := rfl
  phoneHash _ := rfl
  otpHash _ := rfl
  attemptNumber _ := rfl
  expiresAt _ := rfl
  used _ := rfl
  delivered _ := by simp [OtpRow.confirm, OtpRow.delivered]
  sentAt r := by cases h : r.sentAt <;> simp [OtpRow.confirm, h]

/-- `activate` followed by the update of the row itself. -/
def deliver (rows : OtpTable) (row : OtpRow) (now : ℤ) (f : OtpRow → OtpRow)
    (hf : ∀ r, (f r).id = r.id) : OtpTable :=
  (activate rows row now).modify (fun r ↦ r.id = row.id) f hf

/-- What `deliver` makes of one row. -/
def delivery (rows : OtpTable) (row : OtpRow) (now : ℤ) (f : OtpRow → OtpRow) (r : OtpRow) :
    OtpRow :=
  if r.id = row.id then f (r.retireIf (retired rows row now r))
  else r.retireIf (retired rows row now r)

theorem mem_deliver {rows : OtpTable} {row r : OtpRow} {now : ℤ} {f : OtpRow → OtpRow}
    (hf : ∀ r, (f r).id = r.id) (hrow : row ∈ rows) :
    r ∈ deliver rows row now f hf ↔ ∃ q ∈ rows, r = delivery rows row now f q := by
  rw [deliver, Table.mem_modify hf]
  constructor
  · rintro ⟨p, hp, rfl⟩
    obtain ⟨q, hq, rfl⟩ := (mem_activate hrow).mp hp
    exact ⟨q, hq, by by_cases hid : q.id = row.id <;> simp [delivery, hid]⟩
  · rintro ⟨q, hq, rfl⟩
    exact ⟨_, (mem_activate hrow).mpr ⟨q, hq, rfl⟩,
      by by_cases hid : q.id = row.id <;> simp [delivery, hid]⟩

section Delivery

variable {rows : OtpTable} {row r : OtpRow} {now : ℤ} {f : OtpRow → OtpRow}

theorem delivery_used (hf : Delivers f) :
    (delivery rows row now f r).used = (r.used || retired rows row now r) := by
  unfold delivery
  split
  · rw [hf.used]
    rfl
  · rfl

theorem delivery_evolves (hf : Delivers f) (hrow : row ∈ rows) (hr : r ∈ rows)
    (hfailed : row.deliveryStatus ≠ .failed) : r.Evolves (delivery rows row now f r) := by
  have hused : r.used = true → (delivery rows row now f r).used = true := by
    intro h
    rw [delivery_used hf, h, Bool.true_or]
  by_cases hid : r.id = row.id
  · have heq := Table.eq_of_key_eq hr hrow hid
    subst heq
    have hdef : delivery rows r now f r = f (r.retireIf (retired rows r now r)) := if_pos rfl
    rw [hdef] at hused ⊢
    exact ⟨hf.id _, hf.phoneHash _, hf.otpHash _, hf.attemptNumber _, hf.expiresAt _, hused,
      fun _ ↦ hf.sentAt _, fun h ↦ absurd h hfailed⟩
  · have hdef : delivery rows row now f r = r.retireIf (retired rows row now r) := if_neg hid
    rw [hdef] at hused ⊢
    exact ⟨rfl, rfl, rfl, rfl, rfl, hused, fun h ↦ h, fun h ↦ h⟩

theorem delivery_delivered (hid : r.id ≠ row.id) :
    (delivery rows row now f r).delivered = r.delivered := by
  rw [delivery, if_neg hid]
  rfl

theorem delivery_sentAt (hid : r.id ≠ row.id) :
    (delivery rows row now f r).sentAt = r.sentAt := by
  rw [delivery, if_neg hid]
  rfl

end Delivery

/-- Every row is replaced by one it settles to. -/
def SettlesTo (rows rows' : OtpTable) : Prop :=
  ∃ g : OtpRow → OtpRow, (∀ r, r ∈ rows' ↔ ∃ q ∈ rows, r = g q) ∧ ∀ r ∈ rows, r.Settles (g r)

theorem SettlesTo.refl (rows : OtpTable) : SettlesTo rows rows :=
  ⟨fun r ↦ r, by simp, fun r _ ↦ OtpRow.Settles.refl r⟩

theorem settlesTo_modify {rows : OtpTable} {p : OtpRow → Bool} {f : OtpRow → OtpRow}
    (hf : ∀ r, (f r).id = r.id) (h : ∀ r ∈ rows, p r = true → r.Settles (f r)) :
    SettlesTo rows (rows.modify p f hf) := by
  refine ⟨fun r ↦ if p r then f r else r, fun r ↦ Table.mem_modify hf, ?_⟩
  intro r hr
  by_cases hp : p r = true
  · simpa only [hp, if_true] using h r hr hp
  · simpa only [if_neg hp] using OtpRow.Settles.refl r

section Cases

variable {rows rows' : OtpTable} {id : Uuid} {phoneHash : String}

theorem lockedDelivery_eq_some {row : OtpRow} (h : lockedDelivery rows id phoneHash = some row) :
    row ∈ rows ∧ row.id = id := by
  obtain ⟨hfind, _⟩ := Option.filter_eq_some_iff.mp h
  exact Table.find?_eq_some_iff.mp hfind

theorem checkUsable_eq_ok (h : checkUsable rows = .ok rows') : rows' = rows := by
  unfold checkUsable at h
  split at h
  · exact (Except.ok.inj h).symm
  · exact absurd h (by simp)

theorem checkUsable_bind_eq_ok {α : Type} {a b : α}
    (h : (do let t ← checkUsable rows; Except.ok (t, b)) = .ok (rows', a)) : rows' = rows := by
  cases hcheck : checkUsable rows with
  | error e => simp [hcheck, bind, Except.bind] at h
  | ok t =>
      simp only [hcheck, bind, Except.bind, Except.ok.injEq, Prod.mk.injEq] at h
      rw [← h.1, checkUsable_eq_ok hcheck]

theorem begin_cases {n : ℕ} {input : BeginOtpDelivery} {now later : ℤ} {start : OtpDeliveryStart}
    (h : begin rows n input now later = .ok (rows', start)) :
    rows.insert? (.new input input.ttl input.settlement n now) = some rows' ∨
      SettlesTo rows rows' := by
  simp only [begin, durationMillis] at h
  split at h
  · split at h
    · simp only [bind, Except.bind] at h
      split at h
      · split at h
        · exact absurd h (by simp)
        · rename_i t hinsert
          simp only [Except.ok.injEq, Prod.mk.injEq] at h
          exact Or.inl (h.1 ▸ hinsert)
      · right
        have hlapse : rows' = rows.modify
            (fun r ↦ r.idempotencyKey = input.idempotencyKey && r.phoneHash = input.phoneHash &&
              r.language = input.language && r.deliveryStatus = .pending &&
              r.settlementDeadline ≤ later) OtpRow.lapse (fun _ ↦ rfl) := by
          split at h
          · exact absurd h (by simp)
          · split at h
            · exact ((Prod.mk.inj (Except.ok.inj h)).1).symm
            · split at h <;> exact ((Prod.mk.inj (Except.ok.inj h)).1).symm
        rw [hlapse]
        apply settlesTo_modify
        intro r _ hp
        have hpending : r.deliveryStatus = .pending := by
          simp only [Bool.and_eq_true, decide_eq_true_eq] at hp
          exact hp.1.2
        exact
          { id := rfl, phoneHash := rfl, otpHash := rfl, attemptNumber := rfl, expiresAt := rfl
            used := fun h ↦ h
            sentAt := fun h ↦ h
            failed := fun h ↦ absurd h (by simp [hpending])
            unsent := rfl
            undelivered := fun h ↦ absurd h (by simp [OtpRow.delivered, OtpRow.lapse])
            taken := Or.inl }
    · exact absurd h (by simp [bind, Except.bind])
  · exact absurd h (by simp [bind, Except.bind])

theorem markAccepted_cases {transactionId messageId : String} {now later : ℤ} {answer : Bool}
    (h : markAccepted rows id phoneHash transactionId messageId now later = .ok (rows', answer)) :
    rows' = rows ∨ ∃ row ∈ rows, row.deliveryStatus ≠ .failed ∧
      rows' = deliver rows row now (OtpRow.accept transactionId messageId later) fun _ ↦ rfl := by
  unfold markAccepted at h
  split at h
  · exact Or.inl (Prod.mk.inj (Except.ok.inj h)).1.symm
  · rename_i row hlocked
    obtain ⟨hrow, rfl⟩ := lockedDelivery_eq_some hlocked
    split at h
    · exact Or.inl (Prod.mk.inj (Except.ok.inj h)).1.symm
    · rename_i hguard
      rw [not_or] at hguard
      exact Or.inr ⟨row, hrow, hguard.2, checkUsable_bind_eq_ok h⟩

theorem applySmsEvent_cases {event : SmsDeliveryEvent} {now later : ℤ}
    {outcome : SmsEventOutcome} (h : applySmsEvent rows event now later = .ok (rows', outcome)) :
    SettlesTo rows rows' ∨ ∃ row ∈ rows, row.deliveryStatus ≠ .failed ∧
      rows' = deliver rows row now (OtpRow.confirm event later) fun _ ↦ rfl := by
  unfold applySmsEvent at h
  split at h
  · exact Or.inl ((Prod.mk.inj (Except.ok.inj h)).1 ▸ SettlesTo.refl rows)
  · rename_i row hfind
    obtain ⟨hrow, hid⟩ := Table.find?_eq_some_iff.mp hfind
    split at h
    · exact Or.inl ((Prod.mk.inj (Except.ok.inj h)).1 ▸ SettlesTo.refl rows)
    · split at h
      · exact Or.inl ((Prod.mk.inj (Except.ok.inj h)).1 ▸ SettlesTo.refl rows)
      · rename_i hguard
        rw [not_or] at hguard
        split at h
        · rw [← hid] at h
          exact Or.inr ⟨row, hrow, hguard.1, checkUsable_bind_eq_ok h⟩
        · left
          rw [← (Prod.mk.inj (Except.ok.inj h)).1]
          apply settlesTo_modify
          intro r _ _
          exact
            { id := rfl, phoneHash := rfl, otpHash := rfl, attemptNumber := rfl, expiresAt := rfl
              used := fun h ↦ h
              sentAt := fun h ↦ h
              failed := fun _ ↦ rfl
              unsent := rfl
              undelivered := fun h ↦ absurd h (by simp [OtpRow.delivered, OtpRow.reject])
              taken := Or.inl }

theorem markOutcome_settles {state : OtpDeliveryState} {reason : SmsFailureReason} {now : ℤ}
    (hstate : state = .unknown ∨ state = .failed) :
    SettlesTo rows (markOutcome rows id phoneHash state reason now).1 := by
  unfold markOutcome
  split
  · exact SettlesTo.refl rows
  · rename_i row hlocked
    obtain ⟨hrow, rfl⟩ := lockedDelivery_eq_some hlocked
    split
    · rename_i hopen
      dsimp only
      apply settlesTo_modify
      intro r hr hid
      rw [Table.eq_of_key_eq hr hrow (by simpa using hid)]
      exact
        { id := rfl, phoneHash := rfl, otpHash := rfl, attemptNumber := rfl, expiresAt := rfl
          used := fun h ↦ h
          sentAt := fun h ↦ h
          failed := fun h ↦ absurd h (by rcases hopen with h | h <;> simp [h])
          unsent := rfl
          undelivered := fun h ↦ absurd h (by
            rcases hstate with h | h <;> simp [OtpRow.delivered, OtpRow.conclude, h])
          taken := Or.inl }
    · exact SettlesTo.refl rows

theorem consume_settles {otpHash : String} {blocked : Bool} {now : ℤ} :
    SettlesTo rows (consume rows phoneHash otpHash blocked now).1 := by
  unfold consume
  split
  · exact SettlesTo.refl rows
  · dsimp only
    apply settlesTo_modify
    intro r _ hp
    have hdelivered : r.delivered = true := by
      simp only [OtpRow.redeemable, Bool.and_eq_true] at hp
      exact hp.1.1.2
    exact
      { id := rfl, phoneHash := rfl, otpHash := rfl, attemptNumber := rfl, expiresAt := rfl
        used := fun _ ↦ rfl
        sentAt := fun h ↦ h
        failed := fun h ↦ h
        unsent := rfl
        undelivered := fun h ↦ h
        taken := fun _ ↦ Or.inr hdelivered }

end Cases

/-- Everything one transaction can do. -/
theorem next_cases (s : OtpStore) {call : OtpCall} (hcall : call.Admissible) :
    (∃ input now later, call = .begin input now later ∧
      s.rows.insert? (.new input input.ttl input.settlement s.nextAttempt now) =
        some (s.next call).rows) ∨
    SettlesTo s.rows (s.next call).rows ∨
    ∃ row ∈ s.rows, row.deliveryStatus ≠ .failed ∧ ∃ f, ∃ hf : Delivers f,
      (s.next call).rows = deliver s.rows row call.now f hf.id := by
  cases call with
  | begin input now later =>
      cases hbegin : begin s.rows s.nextAttempt input now later with
      | error e => exact Or.inr (Or.inl (by
          simpa [OtpStore.next, hbegin, committed] using SettlesTo.refl s.rows))
      | ok result =>
          obtain ⟨rows', start⟩ := result
          have hnext : (s.next (.begin input now later)).rows = rows' := by
            simp [OtpStore.next, hbegin, committed]
          rw [hnext]
          rcases begin_cases hbegin with hinsert | hsettles
          · exact Or.inl ⟨input, now, later, rfl, hinsert⟩
          · exact Or.inr (Or.inl hsettles)
  | markAccepted id phoneHash transactionId messageId now later =>
      right
      cases hmark : markAccepted s.rows id phoneHash transactionId messageId now later with
      | error e => exact Or.inl (by
          simpa [OtpStore.next, hmark, committed] using SettlesTo.refl s.rows)
      | ok result =>
          obtain ⟨rows', answer⟩ := result
          have hnext : (s.next (.markAccepted id phoneHash transactionId messageId now later)).rows =
              rows' := by simp [OtpStore.next, hmark, committed]
          rw [hnext]
          rcases markAccepted_cases hmark with rfl | ⟨row, hrow, hfailed, hrows⟩
          · exact Or.inl (SettlesTo.refl _)
          · exact Or.inr ⟨row, hrow, hfailed, _, delivers_accept .., hrows⟩
  | markOutcome id phoneHash state reason now =>
      exact Or.inr (Or.inl (markOutcome_settles hcall))
  | applySmsEvent event now later =>
      right
      cases happly : applySmsEvent s.rows event now later with
      | error e => exact Or.inl (by
          simpa [OtpStore.next, happly, committed] using SettlesTo.refl s.rows)
      | ok result =>
          obtain ⟨rows', outcome⟩ := result
          have hnext : (s.next (.applySmsEvent event now later)).rows = rows' := by
            simp [OtpStore.next, happly, committed]
          rw [hnext]
          rcases applySmsEvent_cases happly with hsettles | ⟨row, hrow, hfailed, hrows⟩
          · exact Or.inl hsettles
          · exact Or.inr ⟨row, hrow, hfailed, _, delivers_confirm .., hrows⟩
  | consume phoneHash otpHash blocked now => exact Or.inr (Or.inl consume_settles)

theorem next_evolves {s : OtpStore} {call : OtpCall} (hcall : call.Admissible) {r : OtpRow}
    (hr : r ∈ s.rows) : ∃ r' ∈ (s.next call).rows, r.Evolves r' := by
  rcases next_cases s hcall with ⟨input, now, later, rfl, hinsert⟩ | ⟨g, hmem, hsettles⟩ |
    ⟨row, hrow, hfailed, f, hf, hrows⟩
  · exact ⟨r, (Table.mem_insert hinsert).mpr (Or.inr hr), OtpRow.Evolves.refl r⟩
  · exact ⟨g r, (hmem (g r)).mpr ⟨r, hr, rfl⟩, (hsettles r hr).toEvolves⟩
  · rw [hrows]
    exact ⟨_, (mem_deliver hf.id hrow).mpr ⟨r, hr, rfl⟩, delivery_evolves hf hrow hr hfailed⟩

/-- Where a row of the next state comes from. -/
theorem next_origin {s : OtpStore} {call : OtpCall} (hcall : call.Admissible) {r' : OtpRow}
    (hr' : r' ∈ (s.next call).rows) :
    (∃ input now later, call = .begin input now later ∧
      r' = .new input input.ttl input.settlement s.nextAttempt now) ∨
    ∃ r ∈ s.rows, r.Evolves r' := by
  rcases next_cases s hcall with ⟨input, now, later, rfl, hinsert⟩ | ⟨g, hmem, hsettles⟩ |
    ⟨row, hrow, hfailed, f, hf, hrows⟩
  · rcases (Table.mem_insert hinsert).mp hr' with rfl | hr
    · exact Or.inl ⟨input, now, later, rfl, rfl⟩
    · exact Or.inr ⟨r', hr, OtpRow.Evolves.refl r'⟩
  · obtain ⟨r, hr, rfl⟩ := (hmem r').mp hr'
    exact Or.inr ⟨r, hr, (hsettles r hr).toEvolves⟩
  · rw [hrows] at hr'
    obtain ⟨r, hr, rfl⟩ := (mem_deliver hf.id hrow).mp hr'
    exact Or.inr ⟨r, hr, delivery_evolves hf hrow hr hfailed⟩

theorem exec_evolves {s : OtpStore} {calls : List OtpCall} (h : deliveries.Valid s calls)
    {r : OtpRow} (hr : r ∈ s.rows) : ∃ r' ∈ (deliveries.exec s calls).rows, r.Evolves r' := by
  induction calls generalizing s r with
  | nil => exact ⟨r, hr, OtpRow.Evolves.refl r⟩
  | cons call calls ih =>
      obtain ⟨r', hr', hevolves⟩ := next_evolves h.1 hr
      obtain ⟨r'', hr'', hrest⟩ := ih h.2 hr'
      exact ⟨r'', hr'', hevolves.trans hrest⟩

/-- Where a row comes from: an older row, or a number drawn since. -/
theorem exec_origin {s : OtpStore} {calls : List OtpCall} (h : deliveries.Valid s calls)
    {r' : OtpRow} (hr' : r' ∈ (deliveries.exec s calls).rows) :
    s.nextAttempt ≤ r'.attemptNumber ∨ ∃ r ∈ s.rows, r.Evolves r' := by
  induction calls generalizing s with
  | nil => exact Or.inr ⟨r', hr', OtpRow.Evolves.refl r'⟩
  | cons call calls ih =>
      have hmono : s.nextAttempt ≤ (s.next call).nextAttempt := by
        cases call <;> simp [OtpStore.next]
      rcases ih h.2 hr' with hnew | ⟨q, hq, hrest⟩
      · exact Or.inl (hmono.trans hnew)
      rcases next_origin h.1 hq with ⟨input, now, later, rfl, rfl⟩ | ⟨r, hr, hevolves⟩
      · exact Or.inl hrest.attemptNumber.ge
      · exact Or.inr ⟨r, hr, hevolves.trans hrest⟩

structure Orderly (rows : OtpTable) (nextAttempt : ℕ) : Prop where
  fresh : ∀ r ∈ rows, r.attemptNumber < nextAttempt
  distinct : ∀ r ∈ rows, ∀ q ∈ rows, r.attemptNumber = q.attemptNumber → r.id = q.id
  sent : ∀ r ∈ rows, r.delivered = true → r.sentAt.isSome = true
  below : ∀ r ∈ rows, ∀ q ∈ rows, r.usable = true → q.phoneHash = r.phoneHash →
    q.attemptNumber < r.attemptNumber → q.used = true

theorem OtpRow.usable_iff {r : OtpRow} : r.usable = true ↔ r.delivered = true ∧ r.used = false := by
  simp [usable]

namespace Orderly

variable {rows rows' : OtpTable} {n : ℕ}

theorem usable_unique (h : Orderly rows n) {r q : OtpRow} (hr : r ∈ rows) (hq : q ∈ rows)
    (hru : r.usable = true) (hqu : q.usable = true) (hphone : r.phoneHash = q.phoneHash) :
    r = q := by
  have hr' := (OtpRow.usable_iff.mp hru).2
  have hq' := (OtpRow.usable_iff.mp hqu).2
  rcases lt_trichotomy r.attemptNumber q.attemptNumber with hlt | heq | hlt
  · exact absurd (h.below q hq r hr hqu hphone hlt) (by simp [hr'])
  · exact Table.eq_of_key_eq hr hq (h.distinct r hr q hq heq)
  · exact absurd (h.below r hr q hq hru hphone.symm hlt) (by simp [hq'])

theorem checkUsable (h : Orderly rows n) : checkUsable rows = .ok rows := by
  rw [Mobile.checkUsable, if_pos]
  intro r hr q hq hru hqu hphone
  rw [h.usable_unique hr hq hru hqu hphone]

theorem mono (h : Orderly rows n) {m : ℕ} (hm : n ≤ m) : Orderly rows m :=
  { h with fresh := fun r hr ↦ (h.fresh r hr).trans_le hm }

theorem insert (h : Orderly rows n) {input : BeginOtpDelivery} {ttl settlement : ℕ} {now : ℤ}
    (hinsert : rows.insert? (.new input ttl settlement n now) = some rows') :
    Orderly rows' (n + 1) where
  fresh r hr := by
    rcases (Table.mem_insert hinsert).mp hr with rfl | hr
    · exact Nat.lt_succ_self n
    · exact (h.fresh r hr).trans (Nat.lt_succ_self n)
  distinct r hr q hq heq := by
    rcases (Table.mem_insert hinsert).mp hr with rfl | hr <;>
      rcases (Table.mem_insert hinsert).mp hq with rfl | hq
    · rfl
    · exact absurd heq.symm (h.fresh q hq).ne
    · exact absurd heq (h.fresh r hr).ne
    · exact h.distinct r hr q hq heq
  sent r hr hdelivered := by
    rcases (Table.mem_insert hinsert).mp hr with rfl | hr
    · simp [OtpRow.delivered, OtpRow.new] at hdelivered
    · exact h.sent r hr hdelivered
  below r hr q hq husable hphone hlt := by
    rcases (Table.mem_insert hinsert).mp hr with rfl | hr
    · simp [OtpRow.usable, OtpRow.delivered, OtpRow.new] at husable
    · rcases (Table.mem_insert hinsert).mp hq with rfl | hq
      · exact absurd hlt (h.fresh r hr).le.not_gt
      · exact h.below r hr q hq husable hphone hlt

/-- Rows that evolve keep their numbers. -/
theorem numbers (h : Orderly rows n) {g : OtpRow → OtpRow}
    (hmem : ∀ r, r ∈ rows' ↔ ∃ q ∈ rows, r = g q) (hg : ∀ r ∈ rows, r.Evolves (g r)) :
    (∀ r ∈ rows', r.attemptNumber < n) ∧
      ∀ r ∈ rows', ∀ q ∈ rows', r.attemptNumber = q.attemptNumber → r.id = q.id := by
  constructor
  · intro r' hr'
    obtain ⟨r, hr, rfl⟩ := (hmem r').mp hr'
    rw [(hg r hr).attemptNumber]
    exact h.fresh r hr
  · intro r' hr' q' hq' heq
    obtain ⟨r, hr, rfl⟩ := (hmem r').mp hr'
    obtain ⟨q, hq, rfl⟩ := (hmem q').mp hq'
    rw [(hg r hr).attemptNumber, (hg q hq).attemptNumber] at heq
    rw [(hg r hr).id, (hg q hq).id]
    exact h.distinct r hr q hq heq

theorem settles (h : Orderly rows n) (hsettles : SettlesTo rows rows') : Orderly rows' n := by
  obtain ⟨g, hmem, hg⟩ := hsettles
  obtain ⟨hfresh, hdistinct⟩ := h.numbers hmem fun r hr ↦ (hg r hr).toEvolves
  refine ⟨hfresh, hdistinct, ?_, ?_⟩
  · intro r' hr' hdelivered
    obtain ⟨r, hr, rfl⟩ := (hmem r').mp hr'
    exact (hg r hr).sentAt (h.sent r hr ((hg r hr).undelivered hdelivered))
  · intro r' hr' q' hq' husable hphone hlt
    obtain ⟨r, hr, rfl⟩ := (hmem r').mp hr'
    obtain ⟨q, hq, rfl⟩ := (hmem q').mp hq'
    rw [(hg r hr).phoneHash, (hg q hq).phoneHash] at hphone
    rw [(hg r hr).attemptNumber, (hg q hq).attemptNumber] at hlt
    exact (hg q hq).used (h.below r hr q hq ((hg r hr).usable husable) hphone hlt)

theorem deliver (h : Orderly rows n) {row : OtpRow} (hrow : row ∈ rows)
    (hfailed : row.deliveryStatus ≠ .failed) {now : ℤ} {f : OtpRow → OtpRow} (hf : Delivers f) :
    Orderly (deliver rows row now f hf.id) n := by
  have hmem : ∀ r, r ∈ Mobile.deliver rows row now f hf.id ↔
      ∃ q ∈ rows, r = delivery rows row now f q := fun r ↦ mem_deliver hf.id hrow
  have hg : ∀ r ∈ rows, r.Evolves (delivery rows row now f r) :=
    fun r hr ↦ delivery_evolves hf hrow hr hfailed
  obtain ⟨hfresh, hdistinct⟩ := h.numbers hmem hg
  refine ⟨hfresh, hdistinct, ?_, ?_⟩
  · intro r' hr' hdelivered
    obtain ⟨r, hr, rfl⟩ := (hmem r').mp hr'
    by_cases hid : r.id = row.id
    · rw [delivery, if_pos hid]
      exact hf.sentAt _
    · rw [delivery_delivered hid] at hdelivered
      rw [delivery_sentAt hid]
      exact h.sent r hr hdelivered
  · intro r' hr' q' hq' husable hphone hlt
    obtain ⟨r, hr, rfl⟩ := (hmem r').mp hr'
    obtain ⟨q, hq, rfl⟩ := (hmem q').mp hq'
    rw [(hg r hr).phoneHash, (hg q hq).phoneHash] at hphone
    rw [(hg r hr).attemptNumber, (hg q hq).attemptNumber] at hlt
    obtain ⟨hdelivered, hused⟩ := OtpRow.usable_iff.mp husable
    rw [delivery_used hf, Bool.or_eq_false_iff] at hused
    rw [delivery_used hf]
    by_cases hid : r.id = row.id
    · have heq := Table.eq_of_key_eq hr hrow hid
      subst heq
      have hlower : retired rows r now q = true := by
        have hstale := hused.2
        simp only [retired, hused.1, Bool.not_false, Bool.true_and, decide_true] at hstale ⊢
        split at hstale
        · exact absurd hstale (by simp)
        · rename_i hopen
          rw [if_neg hopen]
          simp [hphone, hlt]
      rw [hlower, Bool.or_true]
    · rw [delivery_delivered hid] at hdelivered
      have hbelow := h.below r hr q hq (OtpRow.usable_iff.mpr ⟨hdelivered, hused.1⟩) hphone hlt
      rw [hbelow, Bool.true_or]

end Orderly

end Histae.Mobile
