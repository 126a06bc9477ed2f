import Mathlib
import Histae.Mobile.OtpUsable

/-!
# A code is consumed once

A consumed row is used from then on, a failed row stays failed, and a row
below a row that was once usable is used. A later attempt that is accepted
only after it has expired retires nothing; the earlier attempts then are
expired as well, provided that every delivery is given the same time to live
and that the clock does not go back.
-/

namespace Histae.Mobile

open Relational Systems

def rowsAfter (calls : List OtpCall) : OtpTable := (deliveries.exec .empty calls).rows

theorem orderly_next {s : OtpStore} {call : OtpCall} (h : Orderly s.rows s.nextAttempt)
    (hcall : call.Admissible) : Orderly (s.next call).rows (s.next call).nextAttempt := by
  have hmono : s.nextAttempt ≤ (s.next call).nextAttempt := by
    cases call <;> simp [OtpStore.next]
  rcases next_cases s hcall with ⟨input, now, later, rfl, hinsert⟩ | hsettles |
    ⟨row, hrow, hfailed, f, hf, hrows⟩
  · exact h.insert hinsert
  · exact (h.settles hsettles).mono hmono
  · rw [hrows]
    exact (h.deliver hrow hfailed hf).mono hmono

theorem orderly_exec {calls : List OtpCall} (h : deliveries.Valid .empty calls) :
    Orderly (rowsAfter calls) (deliveries.exec .empty calls).nextAttempt := by
  refine h.invariant (I := fun s ↦ Orderly s.rows s.nextAttempt) ?_ fun s call hs hcall ↦
    orderly_next hs hcall
  exact ⟨by simp [OtpStore.empty], by simp [OtpStore.empty], by simp [OtpStore.empty],
    by simp [OtpStore.empty]⟩

section Overtaken

variable {s : OtpStore} {call : OtpCall}

/-- No row becomes usable below one that has been sent. -/
theorem usable_before (hcall : call.Admissible) {ahead r' : OtpRow} (hahead : ahead ∈ s.rows)
    (hsent : ahead.sentAt.isSome = true) (hr' : r' ∈ (s.next call).rows)
    (hphone : r'.phoneHash = ahead.phoneHash) (hlt : r'.attemptNumber < ahead.attemptNumber)
    (husable : r'.usable = true) : ∃ r ∈ s.rows, r.id = r'.id ∧ r.usable = true := by
  rcases next_cases s hcall with ⟨input, now, later, rfl, hinsert⟩ | ⟨g, hmem, hg⟩ |
    ⟨row, hrow, hfailed, f, hf, hrows⟩
  · rcases (Table.mem_insert hinsert).mp hr' with rfl | hr'
    · simp [OtpRow.usable, OtpRow.delivered, OtpRow.new] at husable
    · exact ⟨r', hr', rfl, husable⟩
  · obtain ⟨r, hr, rfl⟩ := (hmem r').mp hr'
    exact ⟨r, hr, (hg r hr).id.symm, (hg r hr).usable husable⟩
  · rw [hrows] at hr'
    obtain ⟨r, hr, rfl⟩ := (mem_deliver hf.id hrow).mp hr'
    have hevolves : r.Evolves (delivery s.rows row call.now f r) :=
      delivery_evolves hf hrow hr hfailed
    obtain ⟨hdelivered, hused⟩ := OtpRow.usable_iff.mp husable
    rw [delivery_used hf, Bool.or_eq_false_iff] at hused
    refine ⟨r, hr, hevolves.id.symm, ?_⟩
    by_cases hid : r.id = row.id
    · have heq := Table.eq_of_key_eq hr hrow hid
      subst heq
      rw [hevolves.phoneHash] at hphone
      rw [hevolves.attemptNumber] at hlt
      have hover : overtaken s.rows r = true :=
        overtaken_iff.mpr ⟨ahead, hahead, hphone.symm, hlt, hsent⟩
      simp [retired, hused.1, hover] at hused
    · rw [delivery_delivered hid] at hdelivered
      exact OtpRow.usable_iff.mpr ⟨hdelivered, hused.1⟩

end Overtaken

theorem consumed_eq_some {s : OtpStore} {call : OtpCall} {r : OtpRow}
    (h : consumed s call = some r) :
    r ∈ s.rows ∧ r.delivered = true ∧ r.used = false ∧ call.now < r.expiresAt ∧
      ∃ r' ∈ (s.next call).rows, r'.id = r.id ∧ r'.used = true := by
  cases call with
  | consume phoneHash otpHash blocked now =>
      simp only [consumed] at h
      split at h
      · rename_i hanswer
        have hmem : r ∈ s.rows := List.mem_of_find?_eq_some h
        have hredeemable := List.find?_some h
        have hparts := hredeemable
        simp only [OtpRow.redeemable, Bool.and_eq_true, decide_eq_true_eq, Bool.not_eq_true']
          at hparts
        have hopen : blocked = false := by
          cases blocked with
          | false => rfl
          | true => simp [consume] at hanswer
        refine ⟨hmem, hparts.1.1.2, hparts.1.2, hparts.2, r.retireIf true, ?_, rfl, by
          simp [OtpRow.retireIf]⟩
        simp only [OtpStore.next, consume, hopen, Bool.false_eq_true, if_false]
        rw [mem_modify_markUsed]
        exact ⟨r, hmem, by rw [hredeemable]⟩
      · exact absurd h (by simp)
  | _ => simp [consumed] at h

/-- Every delivery lives for `ttl` milliseconds, and the clock, which stands
at `t` before the first call, does not go back. -/
def Timely (ttl : ℕ) : ℤ → List OtpCall → Prop
  | _, [] => True
  | t, call :: calls =>
      t ≤ call.now ∧ call.now ≤ call.later ∧
        (∀ input now later, call = .begin input now later → input.ttl = ttl) ∧
          Timely ttl call.later calls

/-- What the deliveries of equal lives satisfy at the instant `t`. -/
structure Paced (ttl : ℕ) (rows : OtpTable) (t : ℤ) : Prop where
  bound : ∀ r ∈ rows, r.expiresAt ≤ t + milliseconds ttl
  ordered : ∀ r ∈ rows, ∀ q ∈ rows, r.attemptNumber < q.attemptNumber → r.expiresAt ≤ q.expiresAt
  past : ∀ r ∈ rows, ∀ q ∈ rows, r.sentAt.isSome = true ∨ r.used = true →
    q.phoneHash = r.phoneHash → q.attemptNumber < r.attemptNumber →
    q.used = true ∨ q.expiresAt ≤ t

namespace Paced

variable {ttl : ℕ} {rows rows' : OtpTable} {t u : ℤ}

/-- Rows that evolve keep their expiry. -/
theorem expiries (h : Paced ttl rows t) {g : OtpRow → OtpRow}
    (hmem : ∀ r, r ∈ rows' ↔ ∃ q ∈ rows, r = g q) (hg : ∀ r ∈ rows, r.Evolves (g r))
    (hu : t ≤ u) :
    (∀ r ∈ rows', r.expiresAt ≤ u + milliseconds ttl) ∧
      ∀ r ∈ rows', ∀ q ∈ rows', r.attemptNumber < q.attemptNumber → r.expiresAt ≤ q.expiresAt := by
  constructor
  · intro r' hr'
    obtain ⟨r, hr, rfl⟩ := (hmem r').mp hr'
    have hbound := h.bound r hr
    rw [(hg r hr).expiresAt]
    omega
  · intro r' hr' q' hq' hlt
    obtain ⟨r, hr, rfl⟩ := (hmem r').mp hr'
    obtain ⟨q, hq, rfl⟩ := (hmem q').mp hq'
    rw [(hg r hr).attemptNumber, (hg q hq).attemptNumber] at hlt
    rw [(hg r hr).expiresAt, (hg q hq).expiresAt]
    exact h.ordered r hr q hq hlt

theorem insert (h : Paced ttl rows t) {n : ℕ} (hn : Orderly rows n) {input : BeginOtpDelivery}
    {settlement : ℕ} {now : ℤ} (hnow : t ≤ now) (hu : now ≤ u)
    (hinsert : rows.insert? (.new input ttl settlement n now) = some rows') :
    Paced ttl rows' u where
  bound r hr := by
    rcases (Table.mem_insert hinsert).mp hr with rfl | hr
    · simp only [OtpRow.new]
      omega
    · have hbound := h.bound r hr
      omega
  ordered r hr q hq hlt := by
    rcases (Table.mem_insert hinsert).mp hq with rfl | hq
    · rcases (Table.mem_insert hinsert).mp hr with rfl | hr
      · exact le_rfl
      · have hbound := h.bound r hr
        simp only [OtpRow.new]
        omega
    · rcases (Table.mem_insert hinsert).mp hr with rfl | hr
      · exact absurd hlt (hn.fresh q hq).le.not_gt
      · exact h.ordered r hr q hq hlt
  past r hr q hq htouched hphone hlt := by
    rcases (Table.mem_insert hinsert).mp hr with rfl | hr
    · simp [OtpRow.new] at htouched
    · rcases (Table.mem_insert hinsert).mp hq with rfl | hq
      · exact absurd hlt (hn.fresh r hr).le.not_gt
      · rcases h.past r hr q hq htouched hphone hlt with hused | hexpired
        · exact Or.inl hused
        · exact Or.inr (by omega)

theorem settles (h : Paced ttl rows t) {n : ℕ} (hn : Orderly rows n) (hu : t ≤ u)
    (hsettles : SettlesTo rows rows') : Paced ttl rows' u := by
  obtain ⟨g, hmem, hg⟩ := hsettles
  obtain ⟨hbound, hordered⟩ := h.expiries hmem (fun r hr ↦ (hg r hr).toEvolves) hu
  refine ⟨hbound, hordered, ?_⟩
  intro r' hr' q' hq' htouched hphone hlt
  obtain ⟨r, hr, rfl⟩ := (hmem r').mp hr'
  obtain ⟨q, hq, rfl⟩ := (hmem q').mp hq'
  rw [(hg r hr).phoneHash, (hg q hq).phoneHash] at hphone
  rw [(hg r hr).attemptNumber, (hg q hq).attemptNumber] at hlt
  have hbefore : r.sentAt.isSome = true ∨ r.used = true := by
    rcases htouched with hsent | hused
    · rw [(hg r hr).unsent] at hsent
      exact Or.inl hsent
    · rcases (hg r hr).taken hused with hused | hdelivered
      · exact Or.inr hused
      · exact Or.inl (hn.sent r hr hdelivered)
  rw [(hg q hq).expiresAt]
  rcases h.past r hr q hq hbefore hphone hlt with hused | hexpired
  · exact Or.inl ((hg q hq).used hused)
  · exact Or.inr (hexpired.trans hu)

theorem deliver (h : Paced ttl rows t) {row : OtpRow} (hrow : row ∈ rows)
    (hfailed : row.deliveryStatus ≠ .failed) {now : ℤ} (hnow : t ≤ now) (hu : now ≤ u)
    {f : OtpRow → OtpRow} (hf : Delivers f) : Paced ttl (deliver rows row now f hf.id) u := by
  have hmem : ∀ r, r ∈ Mobile.deliver rows row now f hf.id ↔
      ∃ q ∈ rows, r = delivery rows row now f q := fun r ↦ mem_deliver hf.id hrow
  have hg : ∀ r ∈ rows, r.Evolves (delivery rows row now f r) :=
    fun r hr ↦ delivery_evolves hf hrow hr hfailed
  obtain ⟨hbound, hordered⟩ := h.expiries hmem hg (hnow.trans hu)
  refine ⟨hbound, hordered, ?_⟩
  intro r' hr' q' hq' htouched hphone hlt
  obtain ⟨r, hr, rfl⟩ := (hmem r').mp hr'
  obtain ⟨q, hq, rfl⟩ := (hmem q').mp hq'
  rw [(hg r hr).phoneHash, (hg q hq).phoneHash] at hphone
  rw [(hg r hr).attemptNumber, (hg q hq).attemptNumber] at hlt
  rw [delivery_used hf, (hg q hq).expiresAt, Bool.or_eq_true]
  have hkeep : q.used = true ∨ q.expiresAt ≤ t →
      (q.used = true ∨ retired rows row now q = true) ∨ q.expiresAt ≤ u := by
    rintro (hused | hexpired)
    · exact Or.inl (Or.inl hused)
    · exact Or.inr (hexpired.trans (hnow.trans hu))
  by_cases hbefore : r.sentAt.isSome = true ∨ r.used = true
  · exact hkeep (h.past r hr q hq hbefore hphone hlt)
  rw [not_or, Bool.not_eq_true, Bool.not_eq_true] at hbefore
  by_cases hid : r.id = row.id
  · have heq := Table.eq_of_key_eq hr hrow hid
    subst heq
    by_cases hexpired : r.expiresAt ≤ now
    · exact Or.inr ((h.ordered q hq r hr hlt).trans (hexpired.trans hu))
    by_cases hover : overtaken rows r = true
    · obtain ⟨ahead, hahead, hsame, hmore, hsent⟩ := overtaken_iff.mp hover
      exact hkeep (h.past ahead hahead q hq (Or.inl hsent) (hphone.trans hsame.symm)
        (hlt.trans hmore))
    · exact Or.inl (Or.inr (by simp [retired, hbefore.2, hexpired, hover, hphone, hlt]))
  · rw [delivery_sentAt hid, delivery_used hf, hbefore.1, hbefore.2, Bool.false_or] at htouched
    have hretired : retired rows row now r = true := by simpa using htouched
    refine Or.inl (Or.inr ?_)
    simp only [retired, Bool.and_eq_true] at hretired ⊢
    refine ⟨hretired.1, ?_⟩
    have hlower := hretired.2
    split at hlower
    · exact absurd hlower (by simp [hid])
    · rename_i hopen
      rw [if_neg hopen]
      simp only [Bool.and_eq_true, decide_eq_true_eq] at hlower ⊢
      exact ⟨hphone.trans hlower.1, hlt.trans hlower.2⟩

theorem next {s : OtpStore} {call : OtpCall} (h : Paced ttl s.rows t)
    (hs : Orderly s.rows s.nextAttempt) (hcall : call.Admissible) (hnow : t ≤ call.now)
    (hlater : call.now ≤ call.later)
    (httl : ∀ input now later, call = .begin input now later → input.ttl = ttl) :
    Paced ttl (s.next call).rows call.later := by
  rcases next_cases s hcall with ⟨input, now, later, rfl, hinsert⟩ | hsettles |
    ⟨row, hrow, hfailed, f, hf, hrows⟩
  · rw [httl input now later rfl] at hinsert
    exact h.insert hs hnow hlater hinsert
  · exact h.settles hs (hnow.trans hlater) hsettles
  · rw [hrows]
    exact h.deliver hrow hfailed hnow hlater hf

theorem exec {s : OtpStore} {calls : List OtpCall} {call : OtpCall} (h : Paced ttl s.rows t)
    (hs : Orderly s.rows s.nextAttempt) (hvalid : deliveries.Valid s calls)
    (htimely : Timely ttl t (calls ++ [call])) :
    ∃ u ≤ call.now, Paced ttl (deliveries.exec s calls).rows u := by
  induction calls generalizing s t with
  | nil => exact ⟨t, htimely.1, h⟩
  | cons first calls ih =>
      obtain ⟨hnow, hlater, httl, hrest⟩ := htimely
      exact ih (h.next hs hvalid.1 hnow hlater httl) (orderly_next hs hvalid.1) hvalid.2 hrest

end Paced

section Runs

variable {earlier calls : List OtpCall}

theorem evolves_of_prefix (h : deliveries.Valid .empty calls) (hpre : earlier <+: calls)
    {r : OtpRow} (hr : r ∈ rowsAfter earlier) : ∃ r' ∈ rowsAfter calls, r.Evolves r' := by
  obtain ⟨rest, rfl⟩ := hpre
  obtain ⟨_, hrest⟩ := System.valid_append.mp h
  rw [rowsAfter, System.exec_append]
  exact exec_evolves hrest hr

/-- A row that has been used before is not consumed. -/
theorem consumed_unused (h : deliveries.Valid .empty calls) (hpre : earlier <+: calls)
    {call : OtpCall} {r q : OtpRow} (hconsumed : consumed (deliveries.exec .empty calls) call = some r)
    (hq : q ∈ rowsAfter earlier) (hid : q.id = r.id) : q.used = false := by
  obtain ⟨hr, _, hunused, _⟩ := consumed_eq_some hconsumed
  obtain ⟨q', hq', hevolves⟩ := evolves_of_prefix h hpre hq
  rw [Table.eq_of_key_eq hq' hr (hevolves.id.trans hid)] at hevolves
  cases hused : q.used with
  | false => rfl
  | true => exact absurd (hevolves.used hused) (by simp [hunused])

theorem markAccepted_isOk {rows : OtpTable} {n : ℕ} (h : Orderly rows n) (id : Uuid)
    (phoneHash transactionId messageId : String) (now later : ℤ) :
    (markAccepted rows id phoneHash transactionId messageId now later).isOk = true := by
  unfold markAccepted
  split
  · rfl
  · rename_i row hlocked
    obtain ⟨hrow, rfl⟩ := lockedDelivery_eq_some hlocked
    split
    · rfl
    · rename_i hguard
      rw [not_or] at hguard
      have horderly : Orderly ((activate rows row now).modify (fun r ↦ r.id = row.id)
          (OtpRow.accept transactionId messageId later) fun _ ↦ rfl) n :=
        h.deliver hrow hguard.2 (delivers_accept transactionId messageId later)
      rw [horderly.checkUsable]
      rfl

theorem applySmsEvent_isOk {rows : OtpTable} {n : ℕ} (h : Orderly rows n)
    (event : SmsDeliveryEvent) (now later : ℤ) :
    (applySmsEvent rows event now later).isOk = true := by
  unfold applySmsEvent
  split
  · rfl
  · rename_i row hfind
    obtain ⟨hrow, hid⟩ := Table.find?_eq_some_iff.mp hfind
    split
    · rfl
    · split
      · rfl
      · rename_i hguard
        rw [not_or] at hguard
        split
        · have horderly : Orderly ((activate rows row now).modify (fun r ↦ r.id = row.id)
              (OtpRow.confirm event later) fun _ ↦ rfl) n :=
            h.deliver hrow hguard.1 (delivers_confirm event later)
          rw [← hid, horderly.checkUsable]
          rfl
        · rfl

/-- A row that is consumed was not overtaken. -/
theorem consumed_not_overtaken (h : deliveries.Valid .empty calls) (hpre : earlier <+: calls)
    {call : OtpCall} {r ahead : OtpRow}
    (hconsumed : consumed (deliveries.exec .empty calls) call = some r)
    (hahead : ahead ∈ rowsAfter earlier) (hphone : ahead.phoneHash = r.phoneHash)
    (hlt : r.attemptNumber < ahead.attemptNumber) : ahead.usable = false := by
  obtain ⟨hr, _, hunused, _⟩ := consumed_eq_some hconsumed
  have horderly := orderly_exec (h.of_prefix hpre)
  have hnumber := horderly.fresh ahead hahead
  obtain ⟨rest, rfl⟩ := hpre
  have hrest := (System.valid_append.mp h).2
  rw [System.exec_append] at hr
  rcases exec_origin hrest hr with hnew | ⟨q, hq, hevolves⟩
  · omega
  by_contra husable
  have hused := horderly.below ahead hahead q hq (by simpa using husable)
    (hevolves.phoneHash.symm.trans hphone.symm) (hevolves.attemptNumber ▸ hlt)
  exact absurd (hevolves.used hused) (by simp [hunused])

theorem consumed_not_superseded (h : deliveries.Valid .empty calls) (hpre : earlier <+: calls)
    {call : OtpCall} {r ahead : OtpRow}
    (hconsumed : consumed (deliveries.exec .empty calls) call = some r)
    (hahead : ahead ∈ rowsAfter earlier) (hphone : ahead.phoneHash = r.phoneHash)
    (hlt : r.attemptNumber < ahead.attemptNumber) {ttl : ℕ} {t : ℤ}
    (htimely : Timely ttl t (calls ++ [call])) : ahead.delivered = false := by
  obtain ⟨hr, _, hunused, hunexpired, _⟩ := consumed_eq_some hconsumed
  have hempty : Paced ttl OtpStore.empty.rows t :=
    ⟨by simp [OtpStore.empty], by simp [OtpStore.empty], by simp [OtpStore.empty]⟩
  have hnone : deliveries.Valid .empty [] := trivial
  have hstart : Orderly (rowsAfter []) (deliveries.exec .empty []).nextAttempt := orderly_exec hnone
  obtain ⟨u, hu, hpaced⟩ := hempty.exec hstart h htimely
  obtain ⟨ahead', hahead', hevolves⟩ := evolves_of_prefix h hpre hahead
  by_contra hdelivered
  rw [Bool.not_eq_false] at hdelivered
  have hsent := hevolves.sentAt ((orderly_exec (h.of_prefix hpre)).sent ahead hahead hdelivered)
  have hlt' : r.attemptNumber < ahead'.attemptNumber := hevolves.attemptNumber.symm ▸ hlt
  rcases hpaced.past ahead' hahead' r hr (Or.inl hsent) (hphone.symm.trans hevolves.phoneHash.symm)
    hlt' with hused | hexpired
  · exact absurd hused (by simp [hunused])
  · omega

theorem one_usable_code (h : deliveries.Valid .empty calls) :
    (∀ r ∈ rowsAfter calls, ∀ q ∈ rowsAfter calls, r.usable = true → q.usable = true →
      r.phoneHash = q.phoneHash → r = q) ∧
    (∀ id phoneHash transactionId messageId now later,
      (markAccepted (rowsAfter calls) id phoneHash transactionId messageId now later).isOk =
        true) ∧
    (∀ event now later, (applySmsEvent (rowsAfter calls) event now later).isOk = true) ∧
    (∀ earlier, earlier <+: calls → ∀ ahead ∈ rowsAfter earlier, ahead.delivered = true →
      ∀ call, call.Admissible → ∀ r ∈ rowsAfter (calls ++ [call]),
        r.phoneHash = ahead.phoneHash → r.attemptNumber < ahead.attemptNumber →
          r.usable = true → ∃ q ∈ rowsAfter calls, q.id = r.id ∧ q.usable = true) ∧
    (∀ call r, consumed (deliveries.exec .empty calls) call = some r →
      call.now < r.expiresAt ∧
      (∀ pre first post q, calls = pre ++ first :: post →
        consumed (deliveries.exec .empty pre) first = some q → q.id ≠ r.id) ∧
      ∀ earlier, earlier <+: calls →
        (∀ q ∈ rowsAfter earlier, q.id = r.id → q.deliveryStatus ≠ .failed) ∧
        ∀ ahead ∈ rowsAfter earlier, ahead.phoneHash = r.phoneHash →
          r.attemptNumber < ahead.attemptNumber → ahead.usable = false ∧
            ∀ ttl t, Timely ttl t (calls ++ [call]) → ahead.delivered = false) ∧
    ∀ earlier, earlier <+: calls → ∀ r ∈ rowsAfter earlier, r.deliveryStatus = .failed →
      ∃ q ∈ rowsAfter calls, q.id = r.id ∧ q.deliveryStatus = .failed := by
  have horderly := orderly_exec h
  refine ⟨fun r hr q hq hru hqu hphone ↦ horderly.usable_unique hr hq hru hqu hphone,
    fun id phoneHash transactionId messageId now later ↦ markAccepted_isOk horderly ..,
    fun event now later ↦ applySmsEvent_isOk horderly .., ?_, ?_, ?_⟩
  · intro earlier hpre ahead hahead hdelivered call hcall r hr hphone hlt husable
    have hsent := (orderly_exec (h.of_prefix hpre)).sent ahead hahead hdelivered
    obtain ⟨ahead', hahead', hevolves⟩ := evolves_of_prefix h hpre hahead
    rw [rowsAfter, System.exec_concat] at hr
    exact usable_before hcall hahead' (hevolves.sentAt hsent) hr
      (hphone.trans hevolves.phoneHash.symm) (hevolves.attemptNumber.symm ▸ hlt) husable
  · intro call r hconsumed
    obtain ⟨hr, hdelivered, _, hunexpired, _⟩ := consumed_eq_some hconsumed
    refine ⟨hunexpired, ?_, ?_⟩
    · rintro pre first post q rfl hfirst hid
      obtain ⟨_, _, _, _, q', hq', hid', hused⟩ := consumed_eq_some hfirst
      have hpre : pre ++ [first] <+: pre ++ first :: post := ⟨post, by simp⟩
      have hmem : q' ∈ rowsAfter (pre ++ [first]) := by
        rw [rowsAfter, System.exec_concat]
        exact hq'
      exact absurd hused (by simp [consumed_unused h hpre hconsumed hmem (hid'.trans hid)])
    · intro earlier hpre
      refine ⟨?_, fun ahead hahead hphone hlt ↦
        ⟨consumed_not_overtaken h hpre hconsumed hahead hphone hlt, fun ttl t htimely ↦
          consumed_not_superseded h hpre hconsumed hahead hphone hlt htimely⟩⟩
      intro q hq hid hfailed
      obtain ⟨q', hq', hevolves⟩ := evolves_of_prefix h hpre hq
      rw [Table.eq_of_key_eq hq' hr (hevolves.id.trans hid)] at hevolves
      simp [OtpRow.delivered, hevolves.failed hfailed] at hdelivered
  · intro earlier hpre r hr hfailed
    obtain ⟨q, hq, hevolves⟩ := evolves_of_prefix h hpre hr
    exact ⟨q, hq, hevolves.id, hevolves.failed hfailed⟩

end Runs

/-- The receipt of the first attempt arrives after the second attempt has
been accepted. -/
def lateReceipt : List OtpCall :=
  [.begin ⟨.fr, 1, "phone", "first", 11, 600000, 15000⟩ 0 0,
    .begin ⟨.fr, 2, "phone", "second", 12, 600000, 15000⟩ 1 1,
    .markAccepted 2 "phone" "t2" "m2" 2 2,
    .applySmsEvent ⟨1, "m1", none, .sent⟩ 3 3,
    .applySmsEvent ⟨2, "m2", some "t2", .sent⟩ 4 4]

theorem one_usable_code_lateReceipt :
    ((rowsAfter lateReceipt).rows.map fun r ↦ (r.id, r.delivered, r.used)) =
        [(2, true, false), (1, true, true)] ∧
      (consumed (deliveries.exec .empty lateReceipt)
        (.consume "phone" "second" false 5)).map OtpRow.id = some 2 ∧
      ∀ r ∈ rowsAfter lateReceipt, ∀ q ∈ rowsAfter lateReceipt, r.usable = true →
        q.usable = true → r.phoneHash = q.phoneHash → r = q :=
  ⟨by decide +kernel, by decide +kernel, (one_usable_code (by decide +kernel)).1⟩

end Histae.Mobile
