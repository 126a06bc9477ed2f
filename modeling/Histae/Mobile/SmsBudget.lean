import Mathlib
import Histae.Mobile.Otp
import Histae.Systems.SlidingWindow

/-!
# Budgets of provider attempts

`reserve` locks the control row first, so that reservations and suspension
changes follow one another, and reads the clock while it holds that lock. The
clean-up at its end removes attempts that no later window can reach.

`reserved` lists every attempt that was ever reserved, the newest first; the
program keeps only those in its table.
-/

namespace Histae.Mobile

open Relational Systems

structure SmsSafetyConfig where
  hourlyGlobal : ℕ
  dailyGlobal : ℕ
  hourlyPerPhone : ℕ
  dailyPerPhone : ℕ
  deriving DecidableEq

inductive SmsSendRejection
  | suspended
  | phoneBlocked
  | hourlyLimit
  | dailyLimit
  | globalHourlyLimit
  | globalDailyLimit
  | alreadyReserved
  | unavailable
  deriving DecidableEq

inductive SmsControlError
  | forbidden
  | conflict
  deriving DecidableEq

structure SmsAttempt where
  deliveryId : Uuid
  phoneHash : String
  reservedAt : ℤ
  deriving DecidableEq

abbrev SmsAttempts := Table SmsAttempt.deliveryId

structure SmsSafety where
  suspended : Bool
  version : ℤ
  updatedAt : Option ℤ
  attempts : SmsAttempts

/-- The attempts that the clean-up of `reserve` removes; `locked` are the rows
that other transactions hold, which it skips. -/
def outdated (attempts : SmsAttempts) (now : ℤ) (locked : List Uuid) : List SmsAttempt :=
  ((attempts.select fun a ↦ a.reservedAt ≤ now - hours 25 && !decide (a.deliveryId ∈ locked)
    ).insertionSort fun a b ↦ a.reservedAt ≤ b.reservedAt).take 1000

/-- `permit` is the answer of `permit_on`. -/
def reserve (policy : SmsSafetyConfig) (s : SmsSafety) (deliveryId : Uuid) (phoneHash : String)
    (permit : Except SmsSendRejection Unit) (now : ℤ) (locked : List Uuid) :
    SmsSafety × Except SmsSendRejection Unit :=
  if s.suspended then (s, .error .suspended)
  else
    match permit with
    | .error reason => (s, .error reason)
    | .ok () =>
        let own := fun a : SmsAttempt ↦ a.phoneHash = phoneHash && now - hours 24 < a.reservedAt
        let all := fun a : SmsAttempt ↦ decide (now - hours 24 < a.reservedAt)
        let recent := fun a : SmsAttempt ↦ decide (now - hours 1 < a.reservedAt)
        if policy.dailyPerPhone ≤ s.attempts.count own then (s, .error .dailyLimit)
        else if policy.hourlyPerPhone ≤ s.attempts.count fun a ↦ own a && recent a then
          (s, .error .hourlyLimit)
        else if policy.dailyGlobal ≤ s.attempts.count all then (s, .error .globalDailyLimit)
        else if policy.hourlyGlobal ≤ s.attempts.count fun a ↦ all a && recent a then
          (s, .error .globalHourlyLimit)
        else
          match s.attempts.insert? ⟨deliveryId, phoneHash, now⟩ with
          | none => (s, .error .alreadyReserved)
          | some attempts =>
              let stale := outdated attempts now locked
              ({ s with attempts := attempts.delete fun a ↦ a ∈ stale }, .ok ())

/-- `role` is the role of the actor, when the account is usable. -/
def setSuspended (s : SmsSafety) (role : Option String) (suspended : Bool) (version : ℤ)
    (now : ℤ) : SmsSafety × Except SmsControlError Unit :=
  if role ≠ some "superadmin" then (s, .error .forbidden)
  else if s.version ≠ version then (s, .error .conflict)
  else ({ s with suspended, version := s.version + 1, updatedAt := some now }, .ok ())

inductive SmsCall
  | reserve (deliveryId : Uuid) (phoneHash : String) (permit : Except SmsSendRejection Unit)
      (now : ℤ) (locked : List Uuid)
  | setSuspended (role : Option String) (suspended : Bool) (version : ℤ) (now : ℤ)

def SmsCall.now : SmsCall → ℤ
  | .reserve _ _ _ now _ | .setSuspended _ _ _ now => now

structure SmsWorld where
  safety : SmsSafety
  clock : ℤ
  reserved : List SmsAttempt

def SmsWorld.next (policy : SmsSafetyConfig) (w : SmsWorld) : SmsCall → SmsWorld
  | .reserve deliveryId phoneHash permit now locked =>
      let result := reserve policy w.safety deliveryId phoneHash permit now locked
      { safety := result.1
        clock := now
        reserved := if result.2.isOk then ⟨deliveryId, phoneHash, now⟩ :: w.reserved
          else w.reserved }
  | .setSuspended role suspended version now =>
      { w with safety := (setSuspended w.safety role suspended version now).1, clock := now }

/-- The database clock does not go back. -/
def smsSystem (policy : SmsSafetyConfig) : System SmsWorld SmsCall where
  Enabled w call := w.clock ≤ call.now
  next := SmsWorld.next policy

instance (policy : SmsSafetyConfig) (w : SmsWorld) (call : SmsCall) :
    Decidable ((smsSystem policy).Enabled w call) :=
  inferInstanceAs (Decidable (w.clock ≤ call.now))

/-- No attempt has been reserved yet. -/
def SmsWorld.start (suspended : Bool) (version clock : ℤ) : SmsWorld :=
  ⟨⟨suspended, version, none, ∅⟩, clock, []⟩

theorem mem_outdated {attempts : SmsAttempts} {a : SmsAttempt} {now : ℤ} {locked : List Uuid}
    (h : a ∈ outdated attempts now locked) : a.reservedAt ≤ now - hours 25 := by
  have hmem := (List.mem_insertionSort _).mp (List.mem_of_mem_take h)
  have hselected := (Table.mem_select.mp hmem).2
  simp only [Bool.and_eq_true, decide_eq_true_eq] at hselected
  exact hselected.1

/-- What a reservation found, and what it leaves. -/
structure Reserves (policy : SmsSafetyConfig) (s s' : SmsSafety) (new : SmsAttempt) : Prop where
  unsuspended : s.suspended = false
  dailyPerPhone : (s.attempts.count fun a ↦ a.phoneHash = new.phoneHash &&
    new.reservedAt - hours 24 < a.reservedAt) < policy.dailyPerPhone
  hourlyPerPhone : (s.attempts.count fun a ↦ a.phoneHash = new.phoneHash &&
    new.reservedAt - hours 1 < a.reservedAt) < policy.hourlyPerPhone
  dailyGlobal : (s.attempts.count fun a ↦ new.reservedAt - hours 24 < a.reservedAt) <
    policy.dailyGlobal
  hourlyGlobal : (s.attempts.count fun a ↦ new.reservedAt - hours 1 < a.reservedAt) <
    policy.hourlyGlobal
  absent : ∀ a ∈ s.attempts, a.deliveryId ≠ new.deliveryId
  kept : ∀ a, a ∈ s'.attempts → a = new ∨ a ∈ s.attempts
  present : ∀ a, a = new ∨ a ∈ s.attempts → new.reservedAt - hours 25 < a.reservedAt →
    a ∈ s'.attempts

theorem reserve_cases (policy : SmsSafetyConfig) (s : SmsSafety) (deliveryId : Uuid)
    (phoneHash : String) (permit : Except SmsSendRejection Unit) (now : ℤ) (locked : List Uuid) :
    (reserve policy s deliveryId phoneHash permit now locked).1 = s ∧
        (reserve policy s deliveryId phoneHash permit now locked).2.isOk = false ∨
      (reserve policy s deliveryId phoneHash permit now locked).2.isOk = true ∧
        Reserves policy s (reserve policy s deliveryId phoneHash permit now locked).1
          ⟨deliveryId, phoneHash, now⟩ := by
  unfold reserve
  split
  · exact Or.inl ⟨rfl, rfl⟩
  rename_i hopen
  split
  · exact Or.inl ⟨rfl, rfl⟩
  dsimp only
  split
  · exact Or.inl ⟨rfl, rfl⟩
  rename_i hdaily
  split
  · exact Or.inl ⟨rfl, rfl⟩
  rename_i hhourly
  split
  · exact Or.inl ⟨rfl, rfl⟩
  rename_i hglobal
  split
  · exact Or.inl ⟨rfl, rfl⟩
  rename_i hglobalHourly
  split
  · exact Or.inl ⟨rfl, rfl⟩
  rename_i attempts hinsert
  have hnarrow : ∀ a : SmsAttempt, (decide (now - hours 24 < a.reservedAt) &&
      decide (now - hours 1 < a.reservedAt)) = decide (now - hours 1 < a.reservedAt) := by
    intro a
    rw [Bool.eq_iff_iff]
    simp only [Bool.and_eq_true, decide_eq_true_eq]
    unfold hours
    omega
  refine Or.inr ⟨rfl, ?_⟩
  constructor
  · simpa using hopen
  · simpa using hdaily
  · simpa [Bool.and_assoc, hnarrow] using hhourly
  · simpa using hglobal
  · simpa [hnarrow] using hglobalHourly
  · intro a ha heq
    have hnone := (Table.insert?_eq_some_iff.mp hinsert).1
    exact Table.find?_eq_none_iff.mp hnone a ha heq
  · intro a ha
    exact (Table.mem_insert hinsert).mp (Table.mem_delete.mp ha).1
  · intro a ha hrecent
    refine Table.mem_delete.mpr ⟨(Table.mem_insert hinsert).mpr ha, ?_⟩
    by_contra hstale
    have hmem : a ∈ outdated attempts now locked := by simpa using hstale
    exact absurd (mem_outdated hmem) (not_le.mpr hrecent)

/-- The table holds every attempt of the last 25 hours, and an id that was
reserved again had been reserved at least 25 hours before. -/
structure Accounted (w : SmsWorld) : Prop where
  past : ∀ a ∈ w.reserved, a.reservedAt ≤ w.clock
  stored : ∀ a ∈ w.safety.attempts, a ∈ w.reserved
  retained : ∀ a ∈ w.reserved, w.clock - hours 25 < a.reservedAt → a ∈ w.safety.attempts
  spaced : w.reserved.Pairwise fun a b ↦
    a.deliveryId = b.deliveryId → b.reservedAt + hours 25 ≤ a.reservedAt

namespace Accounted

variable {w : SmsWorld}

theorem nodup (h : Accounted w) : w.reserved.Nodup := by
  refine h.spaced.imp ?_
  rintro a b hspaced rfl
  have hgap := hspaced rfl
  simp only [hours] at hgap
  omega

/-- Counting in the table is counting what was ever reserved. -/
theorem count_le (h : Accounted w) (counted : SmsAttempt → Bool) {now width : ℤ}
    (hnow : w.clock ≤ now) (hwidth : width ≤ hours 25) :
    (w.reserved.countP fun a ↦ counted a && decide (now - width < a.reservedAt)) ≤
      w.safety.attempts.count fun a ↦ counted a && decide (now - width < a.reservedAt) := by
  rw [Table.count, List.countP_eq_length_filter, List.countP_eq_length_filter]
  apply List.Subperm.length_le
  apply List.subperm_of_subset (h.nodup.filter _)
  intro a ha
  obtain ⟨hmem, hcounted⟩ := List.mem_filter.mp ha
  have hrecent : now - width < a.reservedAt := by
    simp only [Bool.and_eq_true, decide_eq_true_eq] at hcounted
    exact hcounted.2
  exact List.mem_filter.mpr ⟨h.retained a hmem (by omega), hcounted⟩

theorem reserve (h : Accounted w) {policy : SmsSafetyConfig} {safety : SmsSafety}
    {new : SmsAttempt} (hnew : w.clock ≤ new.reservedAt)
    (hreserves : Reserves policy w.safety safety new) :
    Accounted ⟨safety, new.reservedAt, new :: w.reserved⟩ := by
  constructor
  · intro a ha
    rcases List.mem_cons.mp ha with rfl | ha
    · exact le_rfl
    · exact (h.past a ha).trans hnew
  · intro a ha
    rcases hreserves.kept a ha with rfl | ha
    · exact List.mem_cons_self
    · exact List.mem_cons_of_mem _ (h.stored a ha)
  · intro a ha hrecent
    refine hreserves.present a ?_ hrecent
    rcases List.mem_cons.mp ha with rfl | ha
    · exact Or.inl rfl
    · have hclock : w.clock - hours 25 < a.reservedAt := by
        simp only at hrecent
        omega
      exact Or.inr (h.retained a ha hclock)
  · refine List.pairwise_cons.mpr ⟨?_, h.spaced⟩
    intro b hb heq
    by_contra hclose
    have hclock : w.clock - hours 25 < b.reservedAt := by omega
    exact hreserves.absent b (h.retained b hb hclock) heq.symm

theorem tick (h : Accounted w) {safety : SmsSafety} {now : ℤ} (hnow : w.clock ≤ now)
    (hattempts : safety.attempts = w.safety.attempts) : Accounted ⟨safety, now, w.reserved⟩ where
  past a ha := (h.past a ha).trans hnow
  stored a ha := h.stored a (hattempts ▸ ha)
  retained a ha hrecent := by
    rw [hattempts]
    exact h.retained a ha (by
      simp only at hrecent
      omega)
  spaced := h.spaced

end Accounted

/-- The four budgets of a policy. -/
structure Budgets (policy : SmsSafetyConfig) (reserved : List SmsAttempt) : Prop where
  hourlyPerPhone : ∀ phoneHash, WithinBudget SmsAttempt.reservedAt (hours 1)
    (fun a ↦ a.phoneHash = phoneHash) policy.hourlyPerPhone reserved
  dailyPerPhone : ∀ phoneHash, WithinBudget SmsAttempt.reservedAt (hours 24)
    (fun a ↦ a.phoneHash = phoneHash) policy.dailyPerPhone reserved
  hourlyGlobal : WithinBudget SmsAttempt.reservedAt (hours 1) (fun _ ↦ true)
    policy.hourlyGlobal reserved
  dailyGlobal : WithinBudget SmsAttempt.reservedAt (hours 24) (fun _ ↦ true)
    policy.dailyGlobal reserved

theorem Budgets.reserve {policy : SmsSafetyConfig} {w : SmsWorld} (h : Budgets policy w.reserved)
    (hw : Accounted w) {safety : SmsSafety} {new : SmsAttempt} (hnew : w.clock ≤ new.reservedAt)
    (hreserves : Reserves policy w.safety safety new) : Budgets policy (new :: w.reserved) := by
  have hnewest : ∀ a ∈ w.reserved, a.reservedAt ≤ new.reservedAt :=
    fun a ha ↦ (hw.past a ha).trans hnew
  have hday : hours 24 ≤ hours 25 := by decide
  have hhour : hours 1 ≤ hours 25 := by decide
  constructor
  · intro phoneHash
    refine (h.hourlyPerPhone phoneHash).cons hnewest fun hphone ↦ ?_
    rw [decide_eq_true_eq] at hphone
    subst hphone
    exact (hw.count_le _ hnew hhour).trans_lt hreserves.hourlyPerPhone
  · intro phoneHash
    refine (h.dailyPerPhone phoneHash).cons hnewest fun hphone ↦ ?_
    rw [decide_eq_true_eq] at hphone
    subst hphone
    exact (hw.count_le _ hnew hday).trans_lt hreserves.dailyPerPhone
  · refine h.hourlyGlobal.cons hnewest fun _ ↦ ?_
    exact (hw.count_le (fun _ ↦ true) hnew hhour).trans_lt hreserves.hourlyGlobal
  · refine h.dailyGlobal.cons hnewest fun _ ↦ ?_
    exact (hw.count_le (fun _ ↦ true) hnew hday).trans_lt hreserves.dailyGlobal

section Runs

variable {policy : SmsSafetyConfig} {w : SmsWorld} {call : SmsCall}

theorem setSuspended_attempts (s : SmsSafety) (role : Option String) (suspended : Bool)
    (version now : ℤ) : (setSuspended s role suspended version now).1.attempts = s.attempts := by
  unfold setSuspended
  split
  · rfl
  · split <;> rfl

theorem budgets_next (h : Accounted w ∧ Budgets policy w.reserved)
    (hcall : (smsSystem policy).Enabled w call) :
    Accounted (w.next policy call) ∧ Budgets policy (w.next policy call).reserved := by
  cases call with
  | reserve deliveryId phoneHash permit now locked =>
      have hnow : w.clock ≤ now := hcall
      rcases reserve_cases policy w.safety deliveryId phoneHash permit now locked with
        ⟨hsame, hrefused⟩ | ⟨hok, hreserves⟩
      · simp only [SmsWorld.next, hrefused, hsame, Bool.false_eq_true, if_false]
        exact ⟨h.1.tick hcall rfl, h.2⟩
      · simp only [SmsWorld.next, hok, if_true]
        exact ⟨h.1.reserve hnow hreserves, h.2.reserve h.1 hnow hreserves⟩
  | setSuspended role suspended version now =>
      exact ⟨h.1.tick hcall (setSuspended_attempts ..), h.2⟩

theorem reserved_of_suspended (h : w.safety.suspended = true) :
    (w.next policy call).reserved = w.reserved := by
  cases call with
  | reserve deliveryId phoneHash permit now locked =>
      simp [SmsWorld.next, reserve, h, Except.isOk, Except.toBool]
  | setSuspended role suspended version now => rfl

variable {calls : List SmsCall} {suspended : Bool} {version clock : ℤ}

theorem sms_budgets_hold (h : (smsSystem policy).Valid (.start suspended version clock) calls) :
    Budgets policy ((smsSystem policy).exec (.start suspended version clock) calls).reserved ∧
    (((smsSystem policy).exec (.start suspended version clock) calls).reserved.Pairwise
      fun a b ↦ a.deliveryId = b.deliveryId → b.reservedAt + hours 25 ≤ a.reservedAt) ∧
    ∀ pre call post, calls = pre ++ call :: post →
      ((smsSystem policy).exec (.start suspended version clock) pre).safety.suspended = true →
      ((smsSystem policy).exec (.start suspended version clock) (pre ++ [call])).reserved =
        ((smsSystem policy).exec (.start suspended version clock) pre).reserved := by
  have hstart : Accounted (.start suspended version clock) :=
    ⟨by simp [SmsWorld.start], by simp [SmsWorld.start], by simp [SmsWorld.start],
      by simp [SmsWorld.start]⟩
  have hnone : Budgets policy (SmsWorld.start suspended version clock).reserved :=
    ⟨fun _ ↦ withinBudget_nil, fun _ ↦ withinBudget_nil, withinBudget_nil, withinBudget_nil⟩
  obtain ⟨haccounted, hbudgets⟩ := h.invariant
    (I := fun w ↦ Accounted w ∧ Budgets policy w.reserved) ⟨hstart, hnone⟩
    fun w call hw hcall ↦ budgets_next hw hcall
  refine ⟨hbudgets, haccounted.spaced, ?_⟩
  intro pre call post _ hsuspended
  rw [System.exec_concat]
  exact reserved_of_suspended hsuspended

end Runs

/-- The limits of `SmsSafetyConfig::default`. -/
def SmsSafetyConfig.default : SmsSafetyConfig := ⟨100, 500, 5, 10⟩

/-- The second reservation removes the first attempt, whose id is then free. -/
def reusedDelivery : List SmsCall :=
  [.reserve 1 "phone" (.ok ()) 0 [], .reserve 2 "phone" (.ok ()) (hours 25) [],
    .reserve 1 "phone" (.ok ()) (hours 25 + 1) []]

theorem delivery_reserved_twice :
    (smsSystem .default).Valid (.start false 0 0) reusedDelivery ∧
      ¬ (((smsSystem .default).exec (.start false 0 0) reusedDelivery).reserved.map
        SmsAttempt.deliveryId).Nodup :=
  ⟨by decide +kernel, by decide +kernel⟩

theorem sms_budgets_hold_reusedDelivery :
    (smsSystem .default).Valid (.start false 0 0) reusedDelivery ∧
      Budgets .default ((smsSystem .default).exec (.start false 0 0) reusedDelivery).reserved :=
  ⟨by decide +kernel, (sms_budgets_hold (by decide +kernel)).1⟩

end Histae.Mobile
