import Histae.Billing.WebEffects
import Histae.Matches.Cursor

/-!
# Runs of web billing

The invariants of a run bound the codes that are examined and the sessions that
are opened. What a challenge is answered with depends on the requests alone:
the machine that keeps only their columns gives the same answers, and it has no
accounts.
-/

namespace Histae.Billing

open Relational Systems Mobile

section Invariants

variable {h : CodeHash} {w : WebBilling} {a : WebStep}

structure WebInvariant (h : CodeHash) (w : WebBilling) : Prop where
  records : ChallengeRecords h w.challenges w.created w.issued w.answers
  budget : AttemptBudget w.challenges w.calls w.issued w.examined
  sessions : OpenedSessions w.challenges w.calls w.created w.opened
  codes : CodeRecords h w.otp w.codes w.issued w.accepted

theorem webInvariant_start (h : CodeHash) (accounts : WebAccounts) :
    WebInvariant h (.start accounts) where
  records :=
    ⟨fun c hc ↦ absurd hc (Table.notMem_empty c), fun c hc ↦ absurd hc (Table.notMem_empty c),
      fun r hr ↦ absurd hr List.not_mem_nil, List.nodup_nil, fun r hr ↦ absurd hr List.not_mem_nil,
      fun p hp ↦ absurd hp List.not_mem_nil⟩
  budget := ⟨fun c hc ↦ absurd hc (Table.notMem_empty c), fun _ ↦ Nat.zero_le _, fun _ _ ↦ rfl⟩
  sessions :=
    ⟨fun c hc ↦ absurd hc (Table.notMem_empty c), fun c hc ↦ absurd hc (Table.notMem_empty c),
      fun c hc ↦ absurd hc (Table.notMem_empty c), List.nodup_nil,
      fun o ho ↦ absurd ho List.not_mem_nil, fun o ho ↦ absurd ho List.not_mem_nil⟩
  codes :=
    ⟨fun r hr ↦ absurd hr (Table.notMem_empty r), fun d hd ↦ absurd hd List.not_mem_nil,
      List.nodup_nil, fun a ha ↦ absurd ha List.not_mem_nil⟩

theorem WebInvariant.drawn (hw : WebInvariant h w) : ∀ c ∈ w.challenges, c.id ∈ w.issued := by
  intro c hc
  obtain ⟨r, hr, hrecords⟩ := hw.records.recorded c hc
  rw [← hrecords.id]
  exact hw.records.drawn r hr

theorem WebInvariant.request (hw : WebInvariant h w) (hh : h.Lawful) {r : RequestStep}
    (ha : w.Enabled (.request r)) : WebInvariant h (w.requestNext h r) := by
  cases r with
  | create callId request id now =>
      have hid : id ∉ w.issued := ha
      unfold WebBilling.requestNext
      dsimp only
      split
      · exact ⟨hw.records, hw.budget, hw.sessions, hw.codes⟩
      · rename_i challenges hcreate
        have hinsert := (createChallenge_eq_some hcreate).1
        have hfresh : ∀ q ∈ w.created, q.id ≠ (newChallenge h w.accounts request id now).id := by
          intro q hq hsame
          have hdrawn := hw.records.drawn q hq
          rw [hsame] at hdrawn
          exact hid hdrawn
        exact ⟨hw.records.create hid hcreate, hw.budget.create hid hinsert,
          hw.sessions.create hfresh hinsert, hw.codes.draw [id]⟩
  | lookUp callId =>
      unfold WebBilling.requestNext
      dsimp only
      split
      · exact hw
      · exact ⟨hw.records.lookUp hh _, hw.budget, hw.sessions, hw.codes⟩
  | purge now limit =>
      have hremain := remain_delete w.challenges
      exact ⟨hw.records.remain (hremain _) [], hw.budget.same (fun _ ↦ rfl) (hremain _) [],
        hw.sessions.remain (hremain _), hw.codes⟩
  | forget userId =>
      have hremain := remain_delete w.challenges
      exact ⟨hw.records.remain (hremain _) [], hw.budget.same (fun _ ↦ rfl) (hremain _) [],
        hw.sessions.remain (hremain _), hw.codes⟩

/-- The user of a challenge that begins a verification. -/
theorem WebInvariant.named (hw : WebInvariant h w) (hh : h.Lawful) {call : VerifyCall} {now : ℤ}
    {challenges : ChallengeTable} {userId : Uuid}
    (hbegin : beginVerify w.challenges call.challengeId (h.hmac call.phone) now =
      some (challenges, some userId)) :
    Named w.created call.challengeId userId call.phone := by
  obtain ⟨c, hc, hid, hphone, _, _, huser, _⟩ := beginVerify_eq_some hbegin
  obtain ⟨r, hr, hrecords⟩ := hw.records.recorded c hc
  rw [hrecords.userId] at huser
  obtain ⟨account, haccount, rfl⟩ := Option.map_eq_some_iff.mp huser
  refine ⟨r, hr, hrecords.id.trans hid, (hw.records.matched r hr account haccount).1.symm,
    hh.hmac (hrecords.phoneHash.symm.trans hphone), ?_⟩
  rw [haccount]
  rfl

theorem WebInvariant.next (hw : WebInvariant h w) (hh : h.Lawful) (ha : w.Enabled a) :
    WebInvariant h (w.next h a) := by
  have hsame : ∀ id, taken w.calls w.examined id = taken w.calls w.examined id := fun _ ↦ rfl
  have heffect := next_effect h w a
  generalize w.next h a = w' at heffect
  cases heffect with
  | skip => exact hw
  | request r => exact hw.request hh ha
  | accounts => exact ⟨hw.records, hw.budget, hw.sessions, hw.codes⟩
  | sent challengeId r code deliveryId times sends =>
      exact ⟨hw.records.remain (Remain.refl _) [deliveryId],
        hw.budget.same hsame (Remain.refl _) [deliveryId], hw.sessions, hw.codes.generate ha.1 ha.2⟩
  | sentMobile phone language key code deliveryId times =>
      exact ⟨hw.records.remain (Remain.refl _) [deliveryId],
        hw.budget.same hsame (Remain.refl _) [deliveryId], hw.sessions, hw.codes.generate ha.1 ha.2⟩
  | reported call =>
      refine ⟨hw.records, hw.budget, hw.sessions, hw.codes.next ha.1 ?_⟩
      rintro input now later rfl
      exact ha.2
  | purged kept =>
      exact ⟨hw.records, hw.budget, hw.sessions,
        fun r hr ↦ hw.codes.rows r (Table.mem_delete.mp hr).1, hw.codes.drawn, hw.codes.distinct,
        hw.codes.accepted⟩
  | loggedIn phone code blocked now =>
      have hcodes := hw.codes.consume hh none phone code blocked now
      unfold WebBilling.consumeCode at hcodes ⊢
      split at hcodes
      · rename_i hcode
        rw [if_pos hcode]
        exact ⟨hw.records, hw.budget, hw.sessions, hcodes⟩
      · rename_i hcode
        rw [if_neg hcode]
        exact hw
  | began call calls hinsert =>
      have hcount : ∀ id, calls.count (VerifyCall.attempts id) =
          w.calls.count (VerifyCall.attempts id) := by
        intro id
        rw [Table.count_insert hinsert, attempts_of_not_isAttempted rfl]
        rfl
      refine ⟨hw.records, hw.budget.same (fun id ↦ congrArg (w.examined.count id + ·) (hcount id))
        (Remain.refl _) [], ⟨?_, ?_, hw.sessions.unconsumed, hw.sessions.once, hw.sessions.named,
        hw.sessions.seen⟩, hw.codes⟩
      · intro c hc userId huser
        rcases (Table.mem_insert hinsert).mp hc with rfl | hc
        · cases huser
        · exact hw.sessions.holds c hc userId huser
      · intro c hc userId account hphase
        rcases (Table.mem_insert hinsert).mp hc with rfl | hc
        · cases hphase
        · exact hw.sessions.checked c hc userId account hphase
  | closed _ call hcall hphase =>
      have hbefore : call.phase.isAttempted = false := by
        cases hcase : call.phase with
        | attempted userId => exact absurd hcase (hphase userId)
        | started | accepted | checked | answered => rfl
      exact ⟨hw.records, hw.budget.same (taken_move hcall hbefore rfl) (Remain.refl _) [],
        hw.sessions.close hcall, hw.codes⟩
  | wasted call now challenges hcall hphase hbegin =>
      have hbefore : call.phase.isAttempted = false := by rw [hphase]; rfl
      have hremain := remain_beginVerify hbegin
      exact ⟨hw.records.remain hremain [], hw.budget.same (taken_move hcall hbefore rfl) hremain [],
        (hw.sessions.close hcall).remain hremain, hw.codes⟩
  | attempted call now challenges userId hcall hphase hbegin =>
      have hremain := remain_beginVerify hbegin
      have hnamed := hw.named hh hbegin
      refine ⟨hw.records.remain hremain [], hw.budget.attempt hw.drawn hcall hphase hbegin, ?_, hw.codes⟩
      refine OpenedSessions.remain (hw.sessions.move hcall (fun u hu ↦ ?_) fun _ _ hchecked ↦ ?_) hremain
      · obtain rfl := Option.some.inj hu
        exact hnamed
      · cases hchecked
  | examined call blocked now userId phase hcall hphase hnext =>
      have hcodes := hw.codes.consume hh (some call.challengeId) call.phone call.code blocked now
      have hafter : phase.isAttempted = false := by
        rcases hnext with rfl | rfl <;> rfl
      have hbudget := hw.budget.same (taken_examined hcall hphase hafter) (Remain.refl _) []
      have hsessions : OpenedSessions w.challenges (w.move call.callId phase) w.created w.opened := by
        refine hw.sessions.move hcall (fun u hu ↦ ?_) fun _ _ hchecked ↦ ?_
        · refine hw.sessions.holds call hcall u ?_
          rcases hnext with rfl | rfl
          · rw [hphase]
            exact hu
          · cases hu
        · rcases hnext with rfl | rfl <;> cases hchecked
      unfold WebBilling.consumeCode at hcodes ⊢
      split at hcodes
      · rename_i hcode
        rw [if_pos hcode]
        exact ⟨hw.records, hbudget, hsessions, hcodes⟩
      · rename_i hcode
        rw [if_neg hcode]
        exact ⟨hw.records, hbudget, hsessions, hw.codes⟩
  | checked call now userId account hcall hphase haccount =>
      have hbefore : call.phase.isAttempted = false := by rw [hphase]; rfl
      refine ⟨hw.records, hw.budget.same (taken_move hcall hbefore rfl) (Remain.refl _) [],
        hw.sessions.move hcall (fun u hu ↦ ?_) fun u b hchecked ↦ ?_, hw.codes⟩
      · refine hw.sessions.holds call hcall u ?_
        rw [hphase]
        exact hu
      · obtain ⟨rfl, rfl⟩ := VerifyPhase.checked.inj hchecked
        obtain ⟨hfound, hactive⟩ := Option.filter_eq_some_iff.mp haccount
        exact ⟨(Table.find?_eq_some_iff.mp hfound).2, hactive⟩
  | opened call tokenHash now userId account sessions hcall hphase hconsumable =>
      have hbefore : call.phase.isAttempted = false := by rw [hphase]; rfl
      have hremain : Remain w.challenges (w.challenges.modify (fun c ↦ c.id = call.challengeId)
          WebBillingChallenge.consume WebBillingChallenge.id_consume) :=
        remain_modify _ stays_consume
      have hopened := hw.sessions.open_ hcall hphase hconsumable
      exact ⟨hw.records.remain hremain [], hw.budget.same (taken_move hcall hbefore rfl) hremain [],
        OpenedSessions.close hopened hcall, hw.codes⟩

end Invariants

section Answers

variable {h : CodeHash} {w : WebBilling}

/-- The columns of a challenge that its creation answers from. -/
structure AnsweredChallenge where
  id : Uuid
  idempotencyKey : Uuid
  requestedUserId : Uuid
  phoneHash : String
  language : Mobile.Language
  expiresAt : ℤ
  deriving DecidableEq

def WebBillingChallenge.answered (c : WebBillingChallenge) : AnsweredChallenge where
  id := c.id
  idempotencyKey := c.idempotencyKey
  requestedUserId := c.requestedUserId
  phoneHash := c.phoneHash
  language := c.language
  expiresAt := c.expiresAt

/-- What the creation of challenges depends on. There are no accounts in it. -/
structure Answering where
  rows : List AnsweredChallenge
  starts : List (ℕ × ChallengeRequest)
  answers : List (ChallengeRequest × Except WebBillingError ChallengeView)

def WebBilling.answering (w : WebBilling) : Answering where
  rows := w.challenges.rows.map WebBillingChallenge.answered
  starts := w.starts
  answers := w.answers

namespace Answering

variable (h : CodeHash) (o : Answering)

def stored (r : ChallengeRequest) (id : Uuid) (now : ℤ) : AnsweredChallenge where
  id := id
  idempotencyKey := r.key
  requestedUserId := r.userId
  phoneHash := h.hmac r.phone
  language := r.language
  expiresAt := now + minutes 10

def answers? (r : ChallengeRequest) (c : AnsweredChallenge) : Bool :=
  c.idempotencyKey = r.key && c.requestedUserId = r.userId && c.phoneHash = h.hmac r.phone &&
    c.language = r.language

def next : RequestStep → Answering
  | .create callId r id now =>
      if o.rows.any fun c ↦ c.idempotencyKey = r.key || c.id = id then
        { o with starts := (callId, r) :: o.starts }
      else
        { o with
          rows := stored h r id now :: o.rows
          answers := (r, .ok (challengeView id (now + minutes 10))) :: o.answers }
  | .lookUp callId =>
      match o.starts.find? fun s ↦ s.1 = callId with
      | none => o
      | some (_, r) =>
          { o with
            starts := o.starts.filter fun s ↦ s.1 ≠ callId
            answers := (r, match o.rows.find? (answers? h r) with
              | none => .error .idempotencyConflict
              | some c => .ok (challengeView c.id c.expiresAt)) :: o.answers }
  | .purge now limit =>
      let expired := (((o.rows.filter fun c ↦ decide (c.expiresAt ≤ now)).insertionSort fun c d ↦
        c.expiresAt < d.expiresAt ∨ c.expiresAt = d.expiresAt ∧ c.id ≤ d.id).take limit).map
          AnsweredChallenge.id
      { o with rows := o.rows.filter fun c ↦ !decide (c.id ∈ expired) }
  | .forget userId => { o with rows := o.rows.filter fun c ↦ !decide (c.requestedUserId = userId) }

end Answering

theorem map_answered_delete {challenges : ChallengeTable} {p : WebBillingChallenge → Bool}
    {q : AnsweredChallenge → Bool} (hpq : ∀ c ∈ challenges, p c = q c.answered) :
    (challenges.delete p).rows.map WebBillingChallenge.answered =
      (challenges.rows.map WebBillingChallenge.answered).filter fun c ↦ !q c := by
  rw [List.filter_map]
  refine congrArg (List.map _) (List.filter_congr fun c hc ↦ ?_)
  exact congrArg not (hpq c hc)

theorem map_answered_modify {challenges : ChallengeTable} {p : WebBillingChallenge → Bool}
    {f : WebBillingChallenge → WebBillingChallenge} (hf : ∀ c, (f c).id = c.id)
    (hsame : ∀ c, (f c).answered = c.answered) :
    (challenges.modify p f hf).rows.map WebBillingChallenge.answered =
      challenges.rows.map WebBillingChallenge.answered := by
  have hrows : (challenges.modify p f hf).rows = challenges.rows.map fun c ↦ if p c then f c else c :=
    rfl
  rw [hrows, List.map_map]
  refine List.map_congr_left fun c _ ↦ ?_
  rw [Function.comp_apply]
  split
  · exact hsame c
  · rfl

theorem map_answered_purge (challenges : ChallengeTable) (now : ℤ) (limit : ℕ) :
    ((((challenges.rows.map WebBillingChallenge.answered).filter fun c ↦
      decide (c.expiresAt ≤ now)).insertionSort fun c d ↦
        c.expiresAt < d.expiresAt ∨ c.expiresAt = d.expiresAt ∧ c.id ≤ d.id).take limit).map
          AnsweredChallenge.id =
      (((challenges.select fun c ↦ decide (c.expiresAt ≤ now)).insertionSort fun c d ↦
        c.expiresAt < d.expiresAt ∨ c.expiresAt = d.expiresAt ∧ c.id ≤ d.id).take limit).map
          WebBillingChallenge.id := by
  have hsort := List.map_insertionSort
    (fun c d : WebBillingChallenge ↦
      c.expiresAt < d.expiresAt ∨ c.expiresAt = d.expiresAt ∧ c.id ≤ d.id)
    (fun c d : AnsweredChallenge ↦
      c.expiresAt < d.expiresAt ∨ c.expiresAt = d.expiresAt ∧ c.id ≤ d.id)
    WebBillingChallenge.answered (challenges.select fun c ↦ decide (c.expiresAt ≤ now))
    fun _ _ _ _ ↦ Iff.rfl
  rw [List.filter_map]
  have hselect : (challenges.rows.filter ((fun c : AnsweredChallenge ↦ decide (c.expiresAt ≤ now)) ∘
      WebBillingChallenge.answered)) = challenges.select fun c ↦ decide (c.expiresAt ≤ now) := rfl
  rw [hselect, ← hsort, ← List.map_take, List.map_map]
  rfl

theorem any_answered (challenges : ChallengeTable) (r : ChallengeRequest) (id : Uuid) :
    ((challenges.rows.map WebBillingChallenge.answered).any fun c ↦
        c.idempotencyKey = r.key || c.id = id) = true ↔
      (challenges.rows.any fun c ↦ c.idempotencyKey = r.key) = true ∨
        id ∈ challenges.rows.map WebBillingChallenge.id := by
  simp only [List.any_map, List.any_eq_true, Function.comp_apply, Bool.or_eq_true, decide_eq_true_eq,
    List.mem_map]
  constructor
  · rintro ⟨c, hc, hkey | hid⟩
    · exact Or.inl ⟨c, hc, hkey⟩
    · exact Or.inr ⟨c, hc, hid⟩
  · rintro (⟨c, hc, hkey⟩ | ⟨c, hc, hid⟩)
    · exact ⟨c, hc, Or.inl hkey⟩
    · exact ⟨c, hc, Or.inr hid⟩

theorem answering_create (callId : ℕ) (r : ChallengeRequest) (id : Uuid) (now : ℤ) :
    (w.requestNext h (.create callId r id now)).answering =
      w.answering.next h (.create callId r id now) := by
  have hany := any_answered w.challenges r id
  unfold WebBilling.requestNext Answering.next
  dsimp only
  cases hcreate : createChallenge h w.accounts w.challenges r id now with
  | none =>
      dsimp only
      rw [if_pos]
      · rfl
      refine hany.mpr ?_
      unfold createChallenge at hcreate
      split at hcreate
      · rename_i hkey
        exact Or.inl hkey
      · refine Or.inr ?_
        unfold Table.insert? at hcreate
        split at hcreate
        · rename_i hid
          exact hid
        · cases hcreate
  | some challenges =>
      obtain ⟨hinsert, hkey⟩ := createChallenge_eq_some hcreate
      unfold Table.insert? at hinsert
      split at hinsert
      · cases hinsert
      · rename_i hid
        obtain rfl := Option.some.inj hinsert
        have hnew : ¬ (w.answering.rows.any fun c ↦ c.idempotencyKey = r.key || c.id = id) = true := by
          intro hcontra
          rcases hany.mp hcontra with hsame | hsame
          · obtain ⟨c, hc, hc'⟩ := List.any_eq_true.mp hsame
            exact hkey c hc (of_decide_eq_true hc')
          · exact hid hsame
        rw [if_neg hnew]
        rfl

theorem answering_lookUp (callId : ℕ) :
    (w.requestNext h (.lookUp callId)).answering = w.answering.next h (.lookUp callId) := by
  unfold WebBilling.requestNext Answering.next
  have hstarts : w.answering.starts = w.starts := rfl
  rw [hstarts]
  dsimp only
  cases w.starts.find? fun s ↦ s.1 = callId with
  | none => rfl
  | some s =>
      obtain ⟨_, r⟩ := s
      have hfind : w.answering.rows.find? (Answering.answers? h r) =
          (existingChallenge h w.challenges r).map WebBillingChallenge.answered := List.find?_map ..
      dsimp only
      rw [hfind]
      cases existingChallenge h w.challenges r <;> rfl

/-- The steps of the creation see no account. -/
theorem answering_requestNext (hw : WebInvariant h w) (a : RequestStep) :
    (w.requestNext h a).answering = w.answering.next h a := by
  cases a with
  | create callId r id now => exact answering_create callId r id now
  | lookUp callId => exact answering_lookUp callId
  | purge now limit =>
      refine (Answering.mk.injEq ..).mpr ⟨?_, rfl, rfl⟩
      have hexpired := map_answered_purge w.challenges now limit
      refine map_answered_delete fun c _ ↦ decide_eq_decide.mpr ?_
      exact Iff.of_eq (congrArg (c.id ∈ ·) hexpired.symm)
  | forget userId =>
      refine (Answering.mk.injEq ..).mpr ⟨?_, rfl, rfl⟩
      refine map_answered_delete fun c hc ↦ ?_
      have hrequested : c.userId = some userId → c.requestedUserId = userId := by
        intro huser
        obtain ⟨r, hr, hrecords⟩ := hw.records.recorded c hc
        rw [hrecords.userId] at huser
        obtain ⟨account, haccount, rfl⟩ := Option.map_eq_some_iff.mp huser
        rw [hrecords.requestedUserId]
        exact (hw.records.matched r hr account haccount).1.symm
      have hrow : c.answered.requestedUserId = c.requestedUserId := rfl
      rw [hrow, Bool.eq_iff_iff]
      simp only [Bool.or_eq_true, decide_eq_true_eq]
      exact ⟨fun hor ↦ hor.elim hrequested id, Or.inr⟩

def WebStep.request? : WebStep → Option RequestStep
  | .request a => some a
  | _ => none

/-- A verification changes no column that a creation answers from. -/
theorem answering_next_of_not_request {a : WebStep} (ha : a.request? = none) :
    (w.next h a).answering = w.answering := by
  have heffect := next_effect h w a
  generalize w.next h a = w' at heffect
  have hbegun : ∀ {challenges : ChallengeTable} {id : Uuid} {phoneHash : String} {now : ℤ}
      {user : Option Uuid}, beginVerify w.challenges id phoneHash now = some (challenges, user) →
      challenges.rows.map WebBillingChallenge.answered = w.answering.rows := by
    intro challenges id phoneHash now user hbegin
    obtain ⟨_, _, _, _, _, _, _, rfl⟩ := beginVerify_eq_some hbegin
    exact map_answered_modify _ fun _ ↦ rfl
  have hconsumed : ∀ (context : Option Uuid) (phone code : List Char) (blocked : Bool) (now : ℤ),
      (w.consumeCode h context phone code blocked now).2.answering = w.answering := by
    intro context phone code blocked now
    unfold WebBilling.consumeCode
    split <;> rfl
  cases heffect with
  | request a => cases ha
  | skip | accounts | sent | sentMobile | reported | purged | began | closed => rfl
  | loggedIn phone code blocked now => exact hconsumed none phone code blocked now
  | wasted call now challenges hcall hphase hbegin =>
      exact (Answering.mk.injEq ..).mpr ⟨hbegun hbegin, rfl, rfl⟩
  | attempted call now challenges userId hcall hphase hbegin =>
      exact (Answering.mk.injEq ..).mpr ⟨hbegun hbegin, rfl, rfl⟩
  | examined call blocked now userId phase hcall hphase hnext =>
      exact hconsumed (some call.challengeId) call.phone call.code blocked now
  | checked => rfl
  | opened call tokenHash now userId account sessions hcall hphase hconsumable =>
      have hrows : (w.challenges.modify (fun c ↦ c.id = call.challengeId) WebBillingChallenge.consume
          WebBillingChallenge.id_consume).rows.map WebBillingChallenge.answered = w.answering.rows :=
        map_answered_modify _ fun _ ↦ rfl
      exact (Answering.mk.injEq ..).mpr ⟨hrows, rfl, rfl⟩

/-- What a run answers is what its requests alone are answered with. -/
theorem answering_exec (hh : h.Lawful) (hw : WebInvariant h w) {steps : List WebStep}
    (hvalid : (webBilling h).Valid w steps) :
    ((webBilling h).exec w steps).answering =
      (steps.filterMap WebStep.request?).foldl (Answering.next h) w.answering := by
  induction steps generalizing w with
  | nil => rfl
  | cons a steps ih =>
      obtain ⟨ha, hrest⟩ := hvalid
      have hnext : WebInvariant h ((webBilling h).next w a) := hw.next hh ha
      rw [System.exec_cons, ih hnext hrest]
      cases hrequest : a.request? with
      | none =>
          have hanswering : ((webBilling h).next w a).answering = w.answering :=
            answering_next_of_not_request hrequest
          rw [List.filterMap_cons_none hrequest, hanswering]
      | some r =>
          obtain rfl : a = .request r := by
            cases a with
            | request b => exact congrArg _ (Option.some.inj hrequest)
            | _ => cases hrequest
          have hanswering : ((webBilling h).next w (.request r)).answering = w.answering.next h r :=
            answering_requestNext hw r
          rw [List.filterMap_cons_some hrequest, List.foldl_cons, hanswering]

/-- Two worlds with the same requests give the same answers, whatever accounts
there are and whatever else happens. -/
theorem answers_exec_eq (hh : h.Lawful) {accounts accounts' : WebAccounts} {steps steps' : List WebStep}
    (hvalid : (webBilling h).Valid (.start accounts) steps)
    (hvalid' : (webBilling h).Valid (.start accounts') steps')
    (hsame : steps.filterMap WebStep.request? = steps'.filterMap WebStep.request?) :
    ((webBilling h).exec (.start accounts) steps).answers =
      ((webBilling h).exec (.start accounts') steps').answers := by
  have hleft := answering_exec hh (webInvariant_start h accounts) hvalid
  have hright := answering_exec hh (webInvariant_start h accounts') hvalid'
  have hstart : (WebBilling.start accounts).answering = (WebBilling.start accounts').answering := rfl
  rw [hstart, hsame, ← hright] at hleft
  exact congrArg Answering.answers hleft

end Answers

section Bounds

variable {h : CodeHash} {w : WebBilling}

def WebBilling.Initial (w : WebBilling) : Prop := ∃ accounts, w = .start accounts

theorem webInvariant_of_reachable (hh : h.Lawful)
    (hw : (webBilling h).Reachable WebBilling.Initial w) : WebInvariant h w := by
  refine hw.invariant ?_ fun s a hs ha ↦ hs.next hh ha
  rintro _ ⟨accounts, rfl⟩
  exact webInvariant_start h accounts

/-- The account that a session is opened for matched at the creation, and the
statement that consumed the challenge has read it as active. -/
theorem WebInvariant.opening (hw : WebInvariant h w) {o : SessionOpening} (ho : o ∈ w.opened) :
    (∃ r ∈ w.created, r.id = o.challengeId ∧ r.request.userId = o.userId ∧ r.request.phone = o.phone ∧
      ∃ a ∈ r.account, a.userId = o.userId ∧ a.phoneNumberHash = h.hmac o.phone ∧ a.active = true) ∧
    o.account.userId = o.userId ∧ o.account.active = true := by
  obtain ⟨r, hr, hid, huser, hphone, hsome⟩ := hw.sessions.named o ho
  obtain ⟨a, ha⟩ := Option.isSome_iff_exists.mp hsome
  obtain ⟨huser', hphone', hactive⟩ := hw.records.matched r hr a ha
  refine ⟨⟨r, hr, hid, huser, hphone, a, ha, huser'.trans huser, ?_, hactive⟩, hw.sessions.seen o ho⟩
  rw [← hphone]
  exact hphone'

/-- The code of a delivery is accepted in the context it was generated for. -/
theorem WebInvariant.context (hw : WebInvariant h w) {a : Acceptance} (ha : a ∈ w.accepted)
    {d : GeneratedCode} (hd : d ∈ w.codes) (hsame : d.deliveryId = a.deliveryId) :
    d.context = a.context := by
  obtain ⟨e, he, hid, hcontext⟩ := hw.codes.accepted a ha
  obtain rfl := List.inj_on_of_nodup_map hw.codes.distinct hd he (hsame.trans hid.symm)
  exact hcontext

/-- While a challenge is stored, its key with other data is refused. -/
theorem WebInvariant.reused (hw : WebInvariant h w) (hh : h.Lawful) {q : Creation} (hq : q ∈ w.created)
    (hstored : ∃ c ∈ w.challenges, c.id = q.id) {r : ChallengeRequest} (hkey : r.key = q.request.key)
    (hother : r ≠ q.request) (callId : ℕ) (id : Uuid) (now : ℤ) :
    w.requestNext h (.create callId r id now) = { w with starts := (callId, r) :: w.starts } ∧
      existingChallenge h w.challenges r = none := by
  obtain ⟨c, hc, hid⟩ := hstored
  obtain ⟨p, hp, hrecords⟩ := hw.records.recorded c hc
  obtain rfl := List.inj_on_of_nodup_map hw.records.distinct hp hq (hrecords.id.trans hid)
  obtain ⟨hcreate, hexisting⟩ := hw.records.conflict hc hrecords hkey hother hh w.accounts id now
  refine ⟨?_, hexisting⟩
  unfold WebBilling.requestNext
  dsimp only
  rw [hcreate]

theorem WebInvariant.answer_inj (hw : WebInvariant h w) {p p' : ChallengeRequest × Except _ ChallengeView}
    (hp : p ∈ w.answers) (hp' : p' ∈ w.answers) {view view' : ChallengeView} (hview : p.2 = .ok view)
    (hview' : p'.2 = .ok view') (hsame : view.challengeId = view'.challengeId) : p.1 = p'.1 := by
  obtain ⟨r, hr, hid, hrequest, _⟩ := hw.records.answers p hp view hview
  obtain ⟨r', hr', hid', hrequest', _⟩ := hw.records.answers p' hp' view' hview'
  obtain rfl := List.inj_on_of_nodup_map hw.records.distinct hr hr' (hid.trans (hsame.trans hid'.symm))
  exact hrequest.symm.trans hrequest'

theorem web_challenges_bounded_and_bound (h : CodeHash) (hh : h.Lawful) :
    (∀ w, (webBilling h).Reachable WebBilling.Initial w →
      (∀ id, w.examined.count id ≤ 5) ∧ (w.opened.map SessionOpening.challengeId).Nodup ∧
      (∀ o ∈ w.opened,
        (∃ r ∈ w.created, r.id = o.challengeId ∧ r.request.userId = o.userId ∧
          r.request.phone = o.phone ∧
          ∃ a ∈ r.account, a.userId = o.userId ∧ a.phoneNumberHash = h.hmac o.phone ∧
            a.active = true) ∧
        o.account.userId = o.userId ∧ o.account.active = true) ∧
      (∀ a ∈ w.accepted, ∀ d ∈ w.codes, d.deliveryId = a.deliveryId → d.context = a.context) ∧
      (∀ q ∈ w.created, (∃ c ∈ w.challenges, c.id = q.id) → ∀ r : ChallengeRequest,
        r.key = q.request.key → r ≠ q.request → ∀ callId id now,
          w.requestNext h (.create callId r id now) = { w with starts := (callId, r) :: w.starts } ∧
            existingChallenge h w.challenges r = none) ∧
      ∀ p ∈ w.answers, ∀ p' ∈ w.answers, ∀ view view', p.2 = .ok view → p'.2 = .ok view' →
        view.challengeId = view'.challengeId → p.1 = p'.1) ∧
    ∀ accounts accounts' steps steps', (webBilling h).Valid (.start accounts) steps →
      (webBilling h).Valid (.start accounts') steps' →
      steps.filterMap WebStep.request? = steps'.filterMap WebStep.request? →
      ((webBilling h).exec (.start accounts) steps).answers =
        ((webBilling h).exec (.start accounts') steps').answers := by
  refine ⟨fun w hw ↦ ?_, fun accounts accounts' steps steps' hvalid hvalid' hsame ↦
    answers_exec_eq hh hvalid hvalid' hsame⟩
  have hinvariant := webInvariant_of_reachable hh hw
  have htaken : ∀ id, w.examined.count id ≤ taken w.calls w.examined id := fun id ↦ Nat.le_add_right _ _
  exact ⟨fun id ↦ (htaken id).trans (hinvariant.budget.bound id), hinvariant.sessions.once,
    fun o ho ↦ hinvariant.opening ho, fun a ha d hd hsame ↦ hinvariant.context ha hd hsame,
    fun q hq hstored r hkey hother callId id now ↦
      hinvariant.reused hh hq hstored hkey hother callId id now,
    fun p hp p' hp' view view' hview hview' hsame ↦ hinvariant.answer_inj hp hp' hview hview' hsame⟩

end Bounds

section Samples

instance (w : WebBilling) : DecidablePred w.Enabled
  | .request (.create _ _ id _) => inferInstanceAs (Decidable (id ∉ w.issued))
  | .sendCode _ code deliveryId _ | .sendMobileCode _ _ _ code deliveryId _ =>
      inferInstanceAs (Decidable (isCode code = true ∧ deliveryId ∉ w.issued))
  | .report (.begin ..) | .report (.consume ..) => inferInstanceAs (Decidable (True ∧ False))
  | .report (.markAccepted ..) | .report (.applySmsEvent ..) =>
      inferInstanceAs (Decidable (True ∧ True))
  | .report (.markOutcome _ _ state _ _) =>
      inferInstanceAs (Decidable ((state = .unknown ∨ state = .failed) ∧ True))
  | .request (.lookUp _) | .request (.purge ..) | .request (.forget _) | .changeAccounts _
  | .purgeCodes _ | .login .. | .verify .. | .beginVerify .. | .examine .. | .checkAccount ..
  | .openSession .. => .isTrue trivial

instance (h : CodeHash) (w : WebBilling) (a : WebStep) : Decidable ((webBilling h).Enabled w a) :=
  inferInstanceAs (Decidable (w.Enabled a))

/-- A hash that keeps its input. -/
def textHash : CodeHash := ⟨String.ofList, Matches.StandardCodec.hyphenated⟩

theorem textHash_lawful : textHash.Lawful where
  hmac _ _ hsame := String.ofList_injective hsame
  hyphenated id id' hsame := by
    have hparse := congrArg Matches.StandardCodec.parseStr hsame
    exact Option.some.inj ((Matches.StandardCodec.parseStr_hyphenated id).symm.trans
      (hparse.trans (Matches.StandardCodec.parseStr_hyphenated id')))

def webCustomer : WebAccount where
  userId := 1
  phoneNumberHash := textHash.hmac ['7']
  isBanned := false
  deletedAt := none

def webCustomers : WebAccounts := ⟨[webCustomer], List.nodup_singleton _⟩

def bannedWebCustomers : WebAccounts :=
  ⟨[{ webCustomer with isBanned := true }], List.nodup_singleton _⟩

def firstRequest : ChallengeRequest := ⟨10, 1, ['7'], .fr⟩

def otherRequest : ChallengeRequest := ⟨10, 2, ['8'], .fr⟩

def webCode : List Char := ['1', '2', '3', '4', '5', '6']

/-- The code of a challenge is delivered, examined and accepted, and the
statement that consumes the challenge has read the account. -/
def checkedAccount : List WebStep :=
  [.request (.create 0 firstRequest 20 0), .sendCode 20 webCode 30 ⟨600000, 1000, 0, 0⟩,
    .report (.markAccepted 30 (textHash.hmac ['7']) "t" "m" 1 1), .verify 1 20 ['7'] webCode,
    .beginVerify 1 2, .examine 1 false 3, .checkAccount 1 4]

def banAfterCheck : List WebStep := checkedAccount ++ [.changeAccounts bannedWebCustomers]

def reusedAfterPurge : List WebStep :=
  [.request (.create 0 firstRequest 20 0), .request (.purge (minutes 10) 1),
    .request (.create 1 otherRequest 21 (minutes 10))]

theorem web_challenges_bounded_and_bound_customer :
    ((webBilling textHash).exec (.start webCustomers) checkedAccount).examined.count 20 ≤ 5 ∧
      (((webBilling textHash).exec (.start webCustomers)
        (checkedAccount ++ [.openSession 1 "s" 5])).opened.map SessionOpening.challengeId).Nodup ∧
      ((webBilling textHash).exec (.start webCustomers) reusedAfterPurge).answers =
        ((webBilling textHash).exec (.start ∅) reusedAfterPurge).answers := by
  have hbounds := web_challenges_bounded_and_bound textHash textHash_lawful
  have hreachable : ∀ steps, (webBilling textHash).Valid (.start webCustomers) steps →
      (webBilling textHash).Reachable WebBilling.Initial
        ((webBilling textHash).exec (.start webCustomers) steps) :=
    fun steps hvalid ↦ ⟨.start webCustomers, steps, ⟨webCustomers, rfl⟩, hvalid, rfl⟩
  have hchecked : (webBilling textHash).Valid (.start webCustomers) checkedAccount := by decide +kernel
  have hopened : (webBilling textHash).Valid (.start webCustomers)
      (checkedAccount ++ [.openSession 1 "s" 5]) := by decide +kernel
  have hreused : (webBilling textHash).Valid (.start webCustomers) reusedAfterPurge := by decide +kernel
  have hreused' : (webBilling textHash).Valid (.start ∅) reusedAfterPurge := by decide +kernel
  exact ⟨(hbounds.1 _ (hreachable _ hchecked)).1 20, (hbounds.1 _ (hreachable _ hopened)).2.1,
    hbounds.2 _ _ _ _ hreused hreused' rfl⟩

/-- A ban that commits after the account was read leaves the session to be
opened, and a key is free again once its challenge is purged. -/
theorem session_of_banned_account_and_key_reused :
    ((webBilling textHash).Valid (.start webCustomers) (banAfterCheck ++ [.openSession 1 "s" 5]) ∧
      activeAccount ((webBilling textHash).exec (.start webCustomers) banAfterCheck).accounts 1 = none ∧
      ((webBilling textHash).exec (.start webCustomers) banAfterCheck).opened = [] ∧
      ((webBilling textHash).exec (.start webCustomers)
        (banAfterCheck ++ [.openSession 1 "s" 5])).opened = [⟨20, 1, ['7'], webCustomer⟩]) ∧
    (webBilling textHash).Valid (.start webCustomers) reusedAfterPurge ∧
      ((webBilling textHash).exec (.start webCustomers) reusedAfterPurge).answers.map
        (fun p ↦ (p.1, p.2.toOption)) =
        [(otherRequest, some (challengeView 21 (minutes 20))),
          (firstRequest, some (challengeView 20 (minutes 10)))] := by
  decide +kernel

end Samples

end Histae.Billing
