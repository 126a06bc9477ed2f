import Mathlib
import Histae.Billing.CheckoutFinality

/-!
# One payable checkout

An attempt is live while Stripe may hold its session, and a new attempt is
begun only when no other attempt of the user is live. The request of an
attempt is kept before it is sent and never changes, so that every call to
Stripe for an attempt is the same call and has the same answer.
-/

namespace Histae.Billing

open Relational Systems

namespace CheckoutAttempt

/-- The request is persisted and unexpired, and the attempt not known to be
completed or expired. -/
def IsPayable (now : ℤ) (c : CheckoutAttempt) : Prop :=
  c.stripeCheckoutRequest.isSome = true ∧ now < c.expiresAt ∧ c.status ≠ .completed ∧
    c.status ≠ .expired

instance (now : ℤ) (c : CheckoutAttempt) : Decidable (c.IsPayable now) :=
  inferInstanceAs (Decidable (_ ∧ _))

variable {c : CheckoutAttempt} {s t : ℤ}

theorem isLive_iff : c.isLive t = true ↔ c.status = .creating ∨ c.status = .open ∨
    c.status = .failed ∧ c.stripeCheckoutRequest.isSome = true ∧ t < c.expiresAt := by
  simp only [isLive, Bool.or_eq_true, Bool.and_eq_true, decide_eq_true_eq]
  tauto

theorem IsPayable.isLive (h : c.IsPayable t) : c.isLive t = true := by
  obtain ⟨hrequest, hexpiry, hcompleted, hexpired⟩ := h
  rw [isLive_iff]
  cases hstatus : c.status with
  | creating => exact Or.inl rfl
  | «open» => exact Or.inr (Or.inl rfl)
  | failed => exact Or.inr (Or.inr ⟨rfl, hrequest, hexpiry⟩)
  | completed => exact absurd hstatus hcompleted
  | expired => exact absurd hstatus hexpired

theorem isLive_anti (h : s ≤ t) (hlive : c.isLive t = true) : c.isLive s = true := by
  rw [isLive_iff] at hlive ⊢
  rcases hlive with hstatus | hstatus | ⟨hstatus, hrequest, hexpiry⟩
  · exact Or.inl hstatus
  · exact Or.inr (Or.inl hstatus)
  · exact Or.inr (Or.inr ⟨hstatus, hrequest, h.trans_lt hexpiry⟩)

end CheckoutAttempt

/-- The customer of a finished attempt is not recovered before the attempt
expires. -/
def SparesUnexpired (w : Desk) : DeskStep → Prop
  | .recover attemptId _ => ∀ c ∈ w.db.checkouts, c.id = attemptId → c.customerErasedAt = none →
      c.status = .completed ∨ c.status = .expired → c.stripeCheckoutRequest.isSome = true →
      c.expiresAt ≤ w.clock
  | _ => True

instance (w : Desk) : ∀ a, Decidable (SparesUnexpired w a)
  | .recover attemptId _ => inferInstanceAs (Decidable (∀ c ∈ w.db.checkouts,
      c.id = attemptId → c.customerErasedAt = none →
      c.status = .completed ∨ c.status = .expired → c.stripeCheckoutRequest.isSome = true →
      c.expiresAt ≤ w.clock))
  | .advance _ | .begin _ _ _ | .replace _ _ _ | .prepare _ _ | .send _ _ | .markOpen _ _ _
  | .markFailed _ _ | .beginCustomer _ | .recordCustomer _ _ | .saveCustomer _ _
  | .eraseCustomer _ | .webhook _ => .isTrue trivial

/-- At most one attempt of a user is live. -/
def OneLive (w : Desk) : Prop :=
  ∀ c ∈ w.db.checkouts, ∀ d ∈ w.db.checkouts, c.userId = d.userId →
    c.isLive w.clock = true → d.isLive w.clock = true → c.id = d.id

section OneLive

variable {stripe : CheckoutInput → StripeSession} {w : Desk} {after : Table CheckoutAttempt.id}
  {a : DeskStep} {c c' : CheckoutAttempt}

/-- The attempt is begun anew, and no other attempt of the user is live. -/
def BegunAlone (w : Desk) (after : Table CheckoutAttempt.id) (c : CheckoutAttempt) : Prop :=
  ∃ now ≤ w.clock, ∀ d ∈ after, d.userId = c.userId → d.id ≠ c.id → d.isLive now = false

/-- A live attempt was live before, or is begun anew. -/
theorem Touch.live (h : Touch stripe w after a c c') (henabled : Desk.Enabled stripe w a)
    (hc : c ∈ w.db.checkouts) (hspares : SparesUnexpired w a) (hlive : c'.isLive w.clock = true) :
    c'.userId = c.userId ∧ (c.isLive w.clock = true ∨ BegunAlone w after c') := by
  rw [CheckoutAttempt.isLive_iff] at hlive
  rw [CheckoutAttempt.isLive_iff]
  cases h with
  | same hsame =>
      rw [hsame.status, hsame.stripeCheckoutRequest, hsame.expiresAt] at hlive
      exact ⟨hsame.userId, Or.inl hlive⟩
  | sweep =>
      rename_i input subscribed onSale
      refine ⟨(sweep_id input w.clock c).2, Or.inl ?_⟩
      rcases c.sweep_cases input w.clock with hsame | ⟨_, _, hexpired⟩ | ⟨hstatus, _, hfailed⟩
      · rwa [hsame] at hlive
      · rw [hexpired] at hlive
        simp [CheckoutAttempt.expire] at hlive
      · exact Or.inl hstatus
  | expire _ _ _ => simp [CheckoutAttempt.expire] at hlive
  | retry hprevious halone =>
      rename_i input subscribed onSale
      obtain ⟨hid, huser⟩ := sweep_id input w.clock c
      refine ⟨huser, Or.inr ⟨input.now, henabled.1, fun d hd hduser hne ↦ ?_⟩⟩
      exact halone d hd (hduser.trans huser) fun heq ↦ hne (heq.trans hid.symm)
  | replace _ _ => simp [CheckoutAttempt.expire] at hlive
  | prepare _ howned => exact ⟨rfl, Or.inl (Or.inl (CheckoutAttempt.isOwned_status howned).1)⟩
  | hold _ howned => exact ⟨rfl, Or.inl (Or.inl (CheckoutAttempt.isOwned_status howned).1)⟩
  | fail _ howned => exact ⟨rfl, Or.inl (Or.inl (CheckoutAttempt.isOwned_status howned).1)⟩
  | close hstatus _ _ => rcases hstatus with rfl | rfl <;> simp at hlive
  | customerDeleted hbefore =>
      refine ⟨rfl, Or.inl ?_⟩
      rcases hbefore with hstatus | hstatus
      · exact Or.inl hstatus
      · exact Or.inr (Or.inl hstatus)
  | recover herased =>
      refine ⟨rfl, Or.inl ?_⟩
      have hunexpired : c.stripeCheckoutRequest.isSome = true ∧ w.clock < c.expiresAt := by
        simpa [CheckoutAttempt.fail] using hlive
      cases hstatus : c.status with
      | creating => exact Or.inl rfl
      | «open» => exact Or.inr (Or.inl rfl)
      | failed => exact Or.inr (Or.inr ⟨rfl, hunexpired⟩)
      | completed =>
          exact absurd (hspares c hc rfl herased (Or.inl hstatus) hunexpired.1)
            (not_le.mpr hunexpired.2)
      | expired =>
          exact absurd (hspares c hc rfl herased (Or.inr hstatus) hunexpired.1)
            (not_le.mpr hunexpired.2)

theorem OneLive.next (h : OneLive w) (henabled : Desk.Enabled stripe w a)
    (hspares : SparesUnexpired w a) : OneLive (Desk.next stripe w a) := by
  have htouches := touches_next henabled
  have hclock : w.clock ≤ (Desk.next stripe w a).clock := clock_next henabled
  have hback : ∀ c' ∈ (Desk.next stripe w a).db.checkouts, c'.isLive w.clock = true →
      (∃ c ∈ w.db.checkouts, c'.id = c.id ∧ c'.userId = c.userId ∧ c.isLive w.clock = true) ∨
        BegunAlone w (Desk.next stripe w a).db.checkouts c' := by
    intro c' hc' hlive
    rcases htouches.back c' hc' with ⟨c, hc, hid, htouch⟩ | ⟨input, subscribed, onSale, rfl, rfl, _, _, halone⟩
    · obtain ⟨huser, hbefore | halone⟩ := htouch.live henabled hc hspares hlive
      · exact Or.inl ⟨c, hc, hid, huser, hbefore⟩
      · exact Or.inr halone
    · exact Or.inr ⟨input.now, henabled.1, halone⟩
  intro c' hc' d' hd' huser hlive hlive'
  have hc := CheckoutAttempt.isLive_anti hclock hlive
  have hd := CheckoutAttempt.isLive_anti hclock hlive'
  rcases hback c' hc' hc with ⟨c, hcmem, hcid, hcuser, hclive⟩ | ⟨now, hnow, halone⟩
  · rcases hback d' hd' hd with ⟨d, hdmem, hdid, hduser, hdlive⟩ | ⟨now, hnow, halone⟩
    · rw [hcid, hdid]
      exact h c hcmem d hdmem (hcuser.symm.trans (huser.trans hduser)) hclive hdlive
    · by_contra hne
      have hdead := halone c' hc' huser hne
      rw [CheckoutAttempt.isLive_anti hnow hc] at hdead
      exact absurd hdead (by simp)
  · by_contra hne
    have hdead := halone d' hd' huser.symm fun heq ↦ hne heq.symm
    rw [CheckoutAttempt.isLive_anti hnow hd] at hdead
    exact absurd hdead (by simp)

end OneLive

/-- The worker that takes a step under the generation it was handed. -/
def DeskStep.worker? : DeskStep → Option Grant
  | .prepare g _ | .send g _ | .markOpen g _ _ | .markFailed g _ | .beginCustomer g
  | .recordCustomer g _ | .saveCustomer g _ | .eraseCustomer g => some g
  | .advance _ | .begin _ _ _ | .replace _ _ _ | .webhook _ | .recover _ _ => none

/-- The stored request of the attempt gives the session. -/
def CheckoutAttempt.Gives (stripe : CheckoutInput → StripeSession) (c : CheckoutAttempt)
    (sessionId : String) : Prop :=
  ∃ request, c.stripeCheckoutRequest = some (.input request) ∧ (stripe request).id = sessionId

/-- What every table of attempts satisfies. -/
structure Filed (stripe : CheckoutInput → StripeSession) (checkouts : Table CheckoutAttempt.id) :
    Prop where
  unique : ∀ c ∈ checkouts, ∀ d ∈ checkouts, c.userId = d.userId →
    c.idempotencyKey = d.idempotencyKey → c.id = d.id
  request : ∀ c ∈ checkouts, ∀ request, c.stripeCheckoutRequest = some (.input request) →
    request.idempotencyKey = checkoutKey c.id
  session : ∀ c ∈ checkouts, ∀ sessionId, c.stripeSessionId = some sessionId →
    c.stripeCheckoutRequest = some .legacyUnrecoverable ∨ c.Gives stripe sessionId

/-- What the workers were handed, have read back, have sent and have answered
stands in the table. -/
structure Backed (stripe : CheckoutInput → StripeSession) (w : Desk) : Prop where
  granted : ∀ g ∈ w.granted, ∃ c ∈ w.db.checkouts, c.id = g.attemptId ∧ c.userId = g.userId ∧
    c.idempotencyKey = g.idempotencyKey
  prepared : ∀ x ∈ w.prepared, ∃ c ∈ w.db.checkouts, c.id = x.1 ∧
    c.stripeCheckoutRequest = some (.input x.2)
  sent : w.sent ⊆ w.prepared
  yielded : ∀ y ∈ w.yielded, ∃ c ∈ w.db.checkouts, c.userId = y.1 ∧ c.idempotencyKey = y.2.1 ∧
    c.Gives stripe y.2.2

section Backed

variable {stripe : CheckoutInput → StripeSession} {w w' : Desk}
  {after : Table CheckoutAttempt.id} {a : DeskStep} {c c' : CheckoutAttempt}

theorem sweep_kept (input : BeginCheckoutInput) (clock : ℤ) (c : CheckoutAttempt) :
    (c.sweep input clock).idempotencyKey = c.idempotencyKey ∧
      (c.sweep input clock).stripeSessionId = c.stripeSessionId ∧
      (c.sweep input clock).stripeCheckoutRequest = c.stripeCheckoutRequest := by
  rcases c.sweep_cases input clock with hsame | ⟨_, _, hsame⟩ | ⟨_, _, hsame⟩
  · rw [hsame]
    exact ⟨rfl, rfl, rfl⟩
  · rw [hsame]
    exact ⟨rfl, rfl, rfl⟩
  · rw [hsame]
    exact ⟨rfl, rfl, rfl⟩

/-- The request of an attempt is written once, by the worker that prepares
it. -/
theorem Touch.request (h : Touch stripe w after a c c') :
    c'.stripeCheckoutRequest = c.stripeCheckoutRequest ∨
      ∃ g input, a = .prepare g input ∧ c.id = g.attemptId ∧ c.stripeCheckoutRequest = none ∧
        c'.stripeCheckoutRequest = some (.input input) := by
  cases h with
  | same hsame => exact Or.inl hsame.stripeCheckoutRequest
  | @sweep input subscribed onSale => exact Or.inl (sweep_kept input w.clock c).2.2
  | @retry input subscribed onSale => exact Or.inl (sweep_kept input w.clock c).2.2
  | @prepare g input _ hid _ =>
      cases hrequest : c.stripeCheckoutRequest with
      | none => exact Or.inr ⟨g, input, rfl, hid, rfl, by simp [CheckoutAttempt.prepare, hrequest]⟩
      | some request => exact Or.inl (by simp [CheckoutAttempt.prepare, hrequest])
  | _ => exact Or.inl rfl

theorem Touch.request_kept (h : Touch stripe w after a c c') {request : StoredRequest}
    (hrequest : c.stripeCheckoutRequest = some request) :
    c'.stripeCheckoutRequest = some request := by
  rcases h.request with hsame | ⟨_, _, _, _, hnone, _⟩
  · rw [hsame, hrequest]
  · exact absurd (hnone.symm.trans hrequest) (by simp)

theorem Touch.owner (h : Touch stripe w after a c c') :
    c'.userId = c.userId ∧ c'.idempotencyKey = c.idempotencyKey := by
  cases h with
  | same hsame => exact ⟨hsame.userId, hsame.idempotencyKey⟩
  | @sweep input subscribed onSale =>
      exact ⟨(sweep_id input w.clock c).2, (sweep_kept input w.clock c).1⟩
  | @retry input subscribed onSale =>
      exact ⟨(sweep_id input w.clock c).2, (sweep_kept input w.clock c).1⟩
  | _ => exact ⟨rfl, rfl⟩

/-- The session of an attempt is the answer to a request sent for it. -/
theorem Touch.session (h : Touch stripe w after a c c') (henabled : Desk.Enabled stripe w a) :
    c'.stripeSessionId = none ∨ c'.stripeSessionId = c.stripeSessionId ∨
      ∃ request, (c.id, request) ∈ w.sent ∧ c'.stripeSessionId = some (stripe request).id := by
  cases h with
  | same hsame => exact Or.inr (Or.inl hsame.stripeSessionId)
  | @sweep input subscribed onSale => exact Or.inr (Or.inl (sweep_kept input w.clock c).2.1)
  | retry _ _ => exact Or.inl rfl
  | @hold g request url _ hid _ =>
      refine Or.inr (Or.inr ⟨request, ?_, rfl⟩)
      rw [hid]
      exact henabled.2.1
  | @fail g sessionId _ hid _ =>
      cases sessionId with
      | none => exact Or.inr (Or.inl rfl)
      | some sessionId =>
          obtain ⟨x, hx, hattempt, hanswer⟩ := henabled.2 sessionId rfl
          refine Or.inr (Or.inr ⟨x.2, ?_, by rw [hanswer]; rfl⟩)
          rw [hid, ← hattempt]
          exact hx
  | _ => exact Or.inr (Or.inl rfl)

/-- Every attempt stays, with its owner, its key and its request. -/
theorem kept_next (henabled : Desk.Enabled stripe w a) (hc : c ∈ w.db.checkouts) :
    ∃ c' ∈ (Desk.next stripe w a).db.checkouts, c'.id = c.id ∧ c'.userId = c.userId ∧
      c'.idempotencyKey = c.idempotencyKey ∧ ∀ request,
        c.stripeCheckoutRequest = some request → c'.stripeCheckoutRequest = some request := by
  obtain ⟨c', hc', hid, htouch⟩ := (touches_next henabled).forth c hc
  exact ⟨c', hc', hid, htouch.owner.1, htouch.owner.2, fun _ ↦ htouch.request_kept⟩

theorem CheckoutAttempt.Gives.kept {sessionId : String} (h : c.Gives stripe sessionId)
    (hkept : ∀ request, c.stripeCheckoutRequest = some request →
      c'.stripeCheckoutRequest = some request) : c'.Gives stripe sessionId := by
  obtain ⟨request, hrequest, hsession⟩ := h
  exact ⟨request, hkept _ hrequest, hsession⟩

theorem Filed.next (h : Filed stripe w.db.checkouts) (hbacked : Backed stripe w)
    (henabled : Desk.Enabled stripe w a) : Filed stripe (Desk.next stripe w a).db.checkouts := by
  have hback := (touches_next henabled).back
  constructor
  · intro c' hc' d' hd' huser hkey
    have hnew : ∀ e ∈ w.db.checkouts, ∀ input subscribed onSale,
        a = .begin input subscribed onSale →
        w.db.checkoutOf input.userId input.idempotencyKey = none →
        e.userId = input.userId → e.idempotencyKey ≠ input.idempotencyKey := by
      intro e he input subscribed onSale _ hnone heuser hekey
      have hmissing := List.find?_eq_none.mp hnone e he
      simp [heuser, hekey] at hmissing
    rcases hback c' hc' with ⟨c, hc, hcid, hctouch⟩ | ⟨input, sub, sale, rfl, rfl, hnone, _, _⟩
    · obtain ⟨hcuser, hckey⟩ := hctouch.owner
      rcases hback d' hd' with ⟨d, hd, hdid, hdtouch⟩ | ⟨input, sub, sale, rfl, rfl, hnone, _, _⟩
      · obtain ⟨hduser, hdkey⟩ := hdtouch.owner
        rw [hcid, hdid]
        exact h.unique c hc d hd (hcuser.symm.trans (huser.trans hduser))
          (hckey.symm.trans (hkey.trans hdkey))
      · exact absurd (hckey.symm.trans hkey)
          (hnew c hc input sub sale rfl hnone (hcuser.symm.trans huser))
    · rcases hback d' hd' with ⟨d, hd, hdid, hdtouch⟩ | ⟨_, _, _, hsame, rfl, _, _, _⟩
      · obtain ⟨hduser, hdkey⟩ := hdtouch.owner
        exact absurd (hdkey.symm.trans hkey.symm)
          (hnew d hd input sub sale rfl hnone (hduser.symm.trans huser.symm))
      · cases hsame
        rfl
  · intro c' hc' request hrequest
    rcases hback c' hc' with ⟨c, hc, hcid, hctouch⟩ | ⟨input, sub, sale, rfl, rfl, _, _, _⟩
    · rw [hcid]
      rcases hctouch.request with hsame | ⟨g, input, rfl, hattempt, _, hinput⟩
      · exact h.request c hc request (hsame.symm.trans hrequest)
      · obtain rfl : input = request := by simpa using hinput.symm.trans hrequest
        rw [hattempt]
        exact henabled.2.2
    · exact absurd hrequest (by simp [BillingDb.newCheckout])
  · intro c' hc' sessionId hsession
    rcases hback c' hc' with ⟨c, hc, hcid, hctouch⟩ | ⟨input, sub, sale, rfl, rfl, _, _, _⟩
    · rcases hctouch.session henabled with hnone | hsame | ⟨request, hsent, hanswer⟩
      · exact absurd (hnone.symm.trans hsession) (by simp)
      · rcases h.session c hc sessionId (hsame.symm.trans hsession) with hlegacy | hgives
        · exact Or.inl (hctouch.request_kept hlegacy)
        · exact Or.inr (hgives.kept fun _ ↦ hctouch.request_kept)
      · obtain ⟨d, hd, hdid, hrequest⟩ := hbacked.prepared _ (hbacked.sent hsent)
        obtain rfl : d = c := Table.eq_of_key_eq hd hc hdid
        refine Or.inr ⟨request, hctouch.request_kept hrequest, ?_⟩
        exact Option.some.inj (hanswer.symm.trans hsession)
    · exact absurd hsession (by simp [BillingDb.newCheckout])

/-- The logs stay as they are. -/
theorem Backed.same (h : Backed stripe w)
    (hkept : ∀ c ∈ w.db.checkouts, ∃ c' ∈ w'.db.checkouts, c'.id = c.id ∧ c'.userId = c.userId ∧
      c'.idempotencyKey = c.idempotencyKey ∧ ∀ request,
        c.stripeCheckoutRequest = some request → c'.stripeCheckoutRequest = some request)
    (hgranted : w'.granted = w.granted) (hprepared : w'.prepared = w.prepared)
    (hsent : w'.sent = w.sent) (hyielded : w'.yielded = w.yielded) : Backed stripe w' := by
  constructor
  · intro g hg
    rw [hgranted] at hg
    obtain ⟨c, hc, hid, huser, hkey⟩ := h.granted g hg
    obtain ⟨c', hc', hid', huser', hkey', _⟩ := hkept c hc
    exact ⟨c', hc', hid'.trans hid, huser'.trans huser, hkey'.trans hkey⟩
  · intro x hx
    rw [hprepared] at hx
    obtain ⟨c, hc, hid, hrequest⟩ := h.prepared x hx
    obtain ⟨c', hc', hid', _, _, hkept'⟩ := hkept c hc
    exact ⟨c', hc', hid'.trans hid, hkept' _ hrequest⟩
  · rw [hsent, hprepared]
    exact h.sent
  · intro y hy
    rw [hyielded] at hy
    obtain ⟨c, hc, huser, hkey, hgives⟩ := h.yielded y hy
    obtain ⟨c', hc', _, huser', hkey', hkept'⟩ := hkept c hc
    exact ⟨c', hc', huser'.trans huser, hkey'.trans hkey, hgives.kept hkept'⟩

theorem Backed.grants (h : Backed stripe w) {g : Grant}
    (hg : ∃ c ∈ w.db.checkouts, c.id = g.attemptId ∧ c.userId = g.userId ∧
      c.idempotencyKey = g.idempotencyKey) :
    Backed stripe { w with granted := g :: w.granted } :=
  { h with granted := List.forall_mem_cons.mpr ⟨hg, h.granted⟩ }

theorem Backed.prepares (h : Backed stripe w) {x : Uuid × CheckoutInput}
    (hx : ∃ c ∈ w.db.checkouts, c.id = x.1 ∧ c.stripeCheckoutRequest = some (.input x.2)) :
    Backed stripe { w with prepared := x :: w.prepared } :=
  { h with
    prepared := List.forall_mem_cons.mpr ⟨hx, h.prepared⟩
    sent := fun _ hsent ↦ List.mem_cons_of_mem x (h.sent hsent) }

theorem Backed.sends (h : Backed stripe w) {x : Uuid × CheckoutInput} (hx : x ∈ w.prepared) :
    Backed stripe { w with sent := x :: w.sent } :=
  { h with sent := List.cons_subset.mpr ⟨hx, h.sent⟩ }

theorem Backed.yields (h : Backed stripe w) {y : Uuid × Uuid × String}
    (hy : ∃ c ∈ w.db.checkouts, c.userId = y.1 ∧ c.idempotencyKey = y.2.1 ∧ c.Gives stripe y.2.2) :
    Backed stripe { w with yielded := y :: w.yielded } :=
  { h with yielded := List.forall_mem_cons.mpr ⟨hy, h.yielded⟩ }

end Backed

section BeginCheckout

variable {db db' : BillingDb} {input : BeginCheckoutInput} {subscribed onSale : Bool} {clock : ℤ}
  {result : BeginCheckoutResult}

/-- What `begin_checkout` answers is backed by the attempt of its key. -/
def BeginCheckoutResult.IsBacked (input : BeginCheckoutInput)
    (checkouts : Table CheckoutAttempt.id) : BeginCheckoutResult → Prop
  | .created context | .retry context => ∃ c ∈ checkouts, c.id = context.attemptId ∧
      c.userId = input.userId ∧ c.idempotencyKey = input.idempotencyKey
  | .replay session => ∃ c ∈ checkouts, c.userId = input.userId ∧
      c.idempotencyKey = input.idempotencyKey ∧ c.stripeSessionId = some session.sessionId ∧
      c.stripeCheckoutRequest ≠ some .legacyUnrecoverable
  | _ => True

theorem isBacked_openAttempt {previous : Option CheckoutAttempt}
    (h : db.openAttempt input previous subscribed onSale clock = .ok (db', result))
    (hprevious : ∀ row ∈ previous, row ∈ db.checkouts ∧ row.userId = input.userId ∧
      row.idempotencyKey = input.idempotencyKey) :
    result.IsBacked input db'.checkouts := by
  simp only [BillingDb.openAttempt] at h
  split at h
  · rw [← (Prod.mk.inj (Except.ok.inj h)).2]
    trivial
  split at h
  · rw [← (Prod.mk.inj (Except.ok.inj h)).2]
    trivial
  split at h
  · rw [← (Prod.mk.inj (Except.ok.inj h)).2]
    trivial
  split at h
  · exact absurd h (by simp)
  cases previous with
  | some row =>
      obtain ⟨hrow, huser, hkey⟩ := hprevious row rfl
      obtain ⟨rfl, rfl⟩ := Prod.mk.inj (Except.ok.inj h)
      obtain ⟨hid, hsame⟩ := sweep_id input clock row
      have hretry : ∀ row : CheckoutAttempt, (row.retry input.expiresAt clock).id = row.id :=
        fun _ ↦ rfl
      refine ⟨(row.sweep input clock).retry input.expiresAt clock, ?_, hid, hsame.trans huser,
        (sweep_kept input clock row).1.trans hkey⟩
      refine (Table.mem_modify hretry).mpr ⟨_, mem_sweepCheckouts.mpr ⟨row, hrow, rfl⟩, ?_⟩
      simp [hid, hsame, huser]
  | none =>
      simp only at h
      split at h
      · exact absurd h (by simp)
      · rename_i checkouts hinsert
        obtain ⟨rfl, rfl⟩ := Prod.mk.inj (Except.ok.inj h)
        exact ⟨_, (Table.mem_insert hinsert).mpr (Or.inl rfl), rfl, rfl, rfl⟩

theorem previous_replay {c : CheckoutAttempt} {session : PersistedCheckoutSession}
    (h : c.previous input = .replay session) :
    c.stripeSessionId = some session.sessionId ∧
      c.stripeCheckoutRequest ≠ some .legacyUnrecoverable := by
  unfold CheckoutAttempt.previous at h
  split at h
  · exact absurd h (by simp)
  split at h
  · exact absurd h (by simp)
  rename_i hlegacy
  split at h
  · exact absurd h (by simp)
  split at h
  · split at h
    · rename_i sessionId url hsession hurl
      rw [← Previous.replay.inj h]
      exact ⟨hsession, hlegacy⟩
    · exact absurd h (by simp)
  split at h
  · exact absurd h (by simp)
  split at h <;> exact absurd h (by simp)

theorem isBacked_beginCheckout
    (h : db.beginCheckout input subscribed onSale clock = .ok (db', result)) :
    result.IsBacked input db'.checkouts := by
  unfold BillingDb.beginCheckout at h
  split at h
  · rw [← (Prod.mk.inj (Except.ok.inj h)).2]
    trivial
  split at h
  · exact isBacked_openAttempt h (by simp)
  · rename_i row hrow
    obtain ⟨hmem, huser, hkey⟩ := checkoutOf_spec hrow
    split at h
    · rw [← (Prod.mk.inj (Except.ok.inj h)).2]
      trivial
    · rw [← (Prod.mk.inj (Except.ok.inj h)).2]
      trivial
    · rw [← (Prod.mk.inj (Except.ok.inj h)).2]
      trivial
    · rename_i session hreplay
      obtain ⟨rfl, rfl⟩ := Prod.mk.inj (Except.ok.inj h)
      obtain ⟨hsession, hlegacy⟩ := previous_replay hreplay
      exact ⟨row, hmem, huser, hkey, hsession, hlegacy⟩
    · exact absurd h (by simp)
    · rw [← (Prod.mk.inj (Except.ok.inj h)).2]
      trivial
    · refine isBacked_openAttempt h ?_
      rintro _ ⟨⟩
      exact ⟨hmem, huser, hkey⟩

/-- A prepared request stands in the attempt. -/
theorem prepareCheckoutRequest_stored {attemptId : Uuid} {generation : ℕ}
    {request prepared : CheckoutInput}
    (h : db.prepareCheckoutRequest attemptId generation request = .ok (db', prepared)) :
    ∃ c ∈ db'.checkouts, c.id = attemptId ∧ c.stripeCheckoutRequest = some (.input prepared) := by
  unfold BillingDb.prepareCheckoutRequest at h
  split at h
  · exact absurd h (by simp)
  rename_i row hrow
  obtain ⟨hfind, howned⟩ := Option.filter_eq_some_iff.mp hrow
  obtain ⟨hmem, hid⟩ := Table.find?_eq_some_iff.mp hfind
  split at h
  · rename_i stored hstored
    obtain ⟨rfl, rfl⟩ := Prod.mk.inj (Except.ok.inj h)
    have hprepare : ∀ row : CheckoutAttempt, (row.prepare request).id = row.id := fun _ ↦ rfl
    refine ⟨row.prepare request, (Table.mem_modify hprepare).mpr ⟨row, hmem, ?_⟩, hid, hstored⟩
    simp [hid, howned]
  · exact absurd h (by simp)

end BeginCheckout

section OnePayable

variable {stripe : CheckoutInput → StripeSession} {w : Desk} {a : DeskStep} {as : List DeskStep}

theorem Backed.next (h : Backed stripe w) (hfiled : Filed stripe w.db.checkouts)
    (henabled : Desk.Enabled stripe w a) : Backed stripe (Desk.next stripe w a) := by
  have hkept := fun c hc ↦ kept_next (c := c) henabled hc
  cases a with
  | begin input subscribed onSale =>
      simp only [Desk.next] at hkept ⊢
      cases hbegin : w.db.beginCheckout input subscribed onSale w.clock with
      | error error => exact h
      | ok answer =>
          obtain ⟨db', result⟩ := answer
          rw [hbegin] at hkept
          have hbacked := isBacked_beginCheckout hbegin
          cases result with
          | created context =>
              exact Backed.grants (w := { w with db := db' }) (h.same hkept rfl rfl rfl rfl) hbacked
          | retry context =>
              exact Backed.grants (w := { w with db := db' }) (h.same hkept rfl rfl rfl rfl) hbacked
          | replay session =>
              refine Backed.yields (w := { w with db := db' }) (h.same hkept rfl rfl rfl rfl) ?_
              obtain ⟨c, hc, huser, hkey, hsession, hlegacy⟩ := hbacked
              have hafter := hfiled.next h henabled
              simp only [Desk.next, hbegin] at hafter
              refine ⟨c, hc, huser, hkey, ?_⟩
              exact (hafter.session c hc _ hsession).resolve_left hlegacy
          | _ => exact h.same hkept rfl rfl rfl rfl
  | prepare g input =>
      simp only [Desk.next] at hkept ⊢
      cases hprepare : w.db.prepareCheckoutRequest g.attemptId g.generation input with
      | error error => exact h
      | ok answer =>
          rw [hprepare] at hkept
          exact Backed.prepares (w := { w with db := answer.1 }) (h.same hkept rfl rfl rfl rfl)
            (prepareCheckoutRequest_stored hprepare)
  | send g request => exact h.sends henabled.2
  | markOpen g request url =>
      simp only [Desk.next] at hkept ⊢
      split
      · rename_i db' hopen
        rw [hopen] at hkept
        refine Backed.yields (w := { w with db := db' }) (h.same hkept rfl rfl rfl rfl) ?_
        obtain ⟨c, hc, hid, huser, hkey⟩ := h.granted g henabled.1
        obtain ⟨d, hd, hdid, hrequest⟩ := h.prepared _ (h.sent henabled.2.1)
        obtain rfl : d = c := Table.eq_of_key_eq hd hc (hdid.trans hid.symm)
        obtain ⟨d', hd', _, huser', hkey', hkept'⟩ := hkept d hd
        exact ⟨d', hd', huser'.trans huser, hkey'.trans hkey, request, hkept' _ hrequest, rfl⟩
      · rename_i db' hopen
        rw [hopen] at hkept
        exact h.same hkept rfl rfl rfl rfl
      · exact h
  | markFailed g sessionId =>
      simp only [Desk.next] at hkept ⊢
      split
      · rename_i db' done hfail
        rw [hfail] at hkept
        exact h.same hkept rfl rfl rfl rfl
      · exact h
  | saveCustomer g customerId =>
      simp only [Desk.next] at hkept ⊢
      split
      · rename_i db' done hsave
        rw [hsave] at hkept
        exact h.same hkept rfl rfl rfl rfl
      · exact h
  | _ => exact h.same hkept rfl rfl rfl rfl

/-- A worker of another generation leaves the attempt alone. -/
theorem outdated_worker {g : Grant} {c : CheckoutAttempt} (henabled : Desk.Enabled stripe w a)
    (hworker : a.worker? = some g) (hc : c ∈ w.db.checkouts)
    (houtdated : c.creationGeneration ≠ g.generation) :
    ∃ c' ∈ (Desk.next stripe w a).db.checkouts, c'.id = c.id ∧ c'.status = c.status ∧
      c'.stripeSessionId = c.stripeSessionId ∧
      c'.stripeCheckoutRequest = c.stripeCheckoutRequest := by
  obtain ⟨c', hc', hid', htouch⟩ := (touches_next henabled).forth c hc
  refine ⟨c', hc', hid', ?_⟩
  cases htouch with
  | same hsame => exact ⟨hsame.status, hsame.stripeSessionId, hsame.stripeCheckoutRequest⟩
  | prepare _ howned =>
      cases hworker
      exact absurd (CheckoutAttempt.isOwned_status howned).2 houtdated
  | hold _ howned =>
      cases hworker
      exact absurd (CheckoutAttempt.isOwned_status howned).2 houtdated
  | fail _ howned =>
      cases hworker
      exact absurd (CheckoutAttempt.isOwned_status howned).2 houtdated
  | _ => exact absurd hworker (by simp [DeskStep.worker?])

theorem request_exec {c : CheckoutAttempt} {request : StoredRequest}
    (h : (desk stripe).Valid w as) (hc : c ∈ w.db.checkouts)
    (hrequest : c.stripeCheckoutRequest = some request) :
    ∃ c' ∈ ((desk stripe).exec w as).db.checkouts, c'.id = c.id ∧
      c'.stripeCheckoutRequest = some request := by
  induction as generalizing w c with
  | nil => exact ⟨c, hc, rfl, hrequest⟩
  | cons a as ih =>
      obtain ⟨c₁, hc₁, hid, _, _, hkept⟩ := kept_next h.1 hc
      obtain ⟨c', hc', hid', hrequest'⟩ := ih h.2 hc₁ (hkept _ hrequest)
      exact ⟨c', hc', hid'.trans hid, hrequest'⟩

/-- A table of attempts before any worker has begun. -/
structure Opening (stripe : CheckoutInput → StripeSession) (w : Desk) : Prop where
  granted : w.granted = []
  prepared : w.prepared = []
  sent : w.sent = []
  yielded : w.yielded = []
  filed : Filed stripe w.db.checkouts
  oneLive : OneLive w

theorem Opening.backed (h : Opening stripe w) : Backed stripe w := by
  constructor
  · simp [h.granted]
  · simp [h.prepared]
  · simp [h.sent]
  · simp [h.yielded]

theorem one_payable_checkout (hstart : Opening stripe w) (h : (desk stripe).Valid w as) :
    ((desk stripe).Along SparesUnexpired w as →
      ∀ c ∈ ((desk stripe).exec w as).db.checkouts,
      ∀ d ∈ ((desk stripe).exec w as).db.checkouts, c.userId = d.userId →
      c.IsPayable ((desk stripe).exec w as).clock →
      d.IsPayable ((desk stripe).exec w as).clock → c.id = d.id) ∧
    (∀ x ∈ ((desk stripe).exec w as).sent, x.2.idempotencyKey = checkoutKey x.1 ∧
      ∃ c ∈ ((desk stripe).exec w as).db.checkouts, c.id = x.1 ∧
        c.stripeCheckoutRequest = some (.input x.2)) ∧
    (∀ x ∈ ((desk stripe).exec w as).sent, ∀ y ∈ ((desk stripe).exec w as).sent,
      x.1 = y.1 → x.2 = y.2) ∧
    (∀ pre post, as = pre ++ post → ∀ c ∈ ((desk stripe).exec w pre).db.checkouts,
      ∀ request, c.stripeCheckoutRequest = some request →
      ∃ c' ∈ ((desk stripe).exec w as).db.checkouts, c'.id = c.id ∧
        c'.stripeCheckoutRequest = some request) ∧
    (∀ pre a post, as = pre ++ a :: post → ∀ g, a.worker? = some g →
      ∀ c ∈ ((desk stripe).exec w pre).db.checkouts, c.id = g.attemptId →
      c.creationGeneration ≠ g.generation →
      ∃ c' ∈ ((desk stripe).exec w (pre ++ [a])).db.checkouts, c'.id = c.id ∧
        c'.status = c.status ∧ c'.stripeSessionId = c.stripeSessionId ∧
        c'.stripeCheckoutRequest = c.stripeCheckoutRequest) ∧
    (∀ y ∈ ((desk stripe).exec w as).yielded, ∀ z ∈ ((desk stripe).exec w as).yielded,
      y.1 = z.1 → y.2.1 = z.2.1 → y.2.2 = z.2.2) := by
  obtain ⟨hfiled, hbacked⟩ : Filed stripe ((desk stripe).exec w as).db.checkouts ∧
      Backed stripe ((desk stripe).exec w as) :=
    h.invariant (I := fun w ↦ Filed stripe w.db.checkouts ∧ Backed stripe w)
      ⟨hstart.filed, hstart.backed⟩ fun _ _ hI henabled ↦
        ⟨hI.1.next hI.2 henabled, hI.2.next hI.1 henabled⟩
  have hsent : ∀ x ∈ ((desk stripe).exec w as).sent,
      ∃ c ∈ ((desk stripe).exec w as).db.checkouts, c.id = x.1 ∧
        c.stripeCheckoutRequest = some (.input x.2) := by
    intro x hx
    exact hbacked.prepared x (hbacked.sent hx)
  refine ⟨fun hspares c hc d hd huser hpayable hpayable' ↦ ?_, fun x hx ↦ ?_,
    fun x hx y hy hattempt ↦ ?_, ?_, ?_, fun y hy z hz huser hkey ↦ ?_⟩
  · have hone : OneLive ((desk stripe).exec w as) :=
      h.invariant_along hspares hstart.oneLive fun _ _ hI henabled hspares ↦
        hI.next henabled hspares
    exact hone c hc d hd huser hpayable.isLive hpayable'.isLive
  · obtain ⟨c, hc, hid, hrequest⟩ := hsent x hx
    refine ⟨?_, c, hc, hid, hrequest⟩
    rw [hfiled.request c hc _ hrequest, hid]
  · obtain ⟨c, hc, hid, hrequest⟩ := hsent x hx
    obtain ⟨d, hd, hdid, hrequest'⟩ := hsent y hy
    obtain rfl : c = d := Table.eq_of_key_eq hc hd (hid.trans (hattempt.trans hdid.symm))
    simpa using hrequest.symm.trans hrequest'
  · rintro pre post rfl c hc request hrequest
    rw [System.exec_append]
    exact request_exec (System.valid_append.mp h).2 hc hrequest
  · rintro pre a post rfl g hworker c hc _ houtdated
    rw [System.exec_concat]
    exact outdated_worker h.enabled hworker hc houtdated
  · obtain ⟨c, hc, hcuser, hckey, request, hrequest, hanswer⟩ := hbacked.yielded y hy
    obtain ⟨d, hd, hduser, hdkey, request', hrequest', hanswer'⟩ := hbacked.yielded z hz
    have hid := hfiled.unique c hc d hd (hcuser.trans (huser.trans hduser.symm))
      (hckey.trans (hkey.trans hdkey.symm))
    obtain rfl : c = d := Table.eq_of_key_eq hc hd hid
    obtain rfl : request = request' := by simpa using hrequest.symm.trans hrequest'
    exact hanswer.symm.trans hanswer'

end OnePayable

def emptyDesk : Desk := ⟨0, oneAccount, [], [], [], []⟩

theorem opening_emptyDesk : Opening sampleStripe emptyDesk where
  granted := rfl
  prepared := rfl
  sent := rfl
  yielded := rfl
  filed := ⟨by simp [emptyDesk, oneAccount], by simp [emptyDesk, oneAccount],
    by simp [emptyDesk, oneAccount]⟩
  oneLive := by simp [OneLive, emptyDesk, oneAccount]

/-- User 1 opens a monthly checkout with a new customer, replaces it with an
annual one, and its worker stalls before it hears from Stripe. -/
def replacedPurchase : List DeskStep :=
  [.begin (sampleBegin 7 8 .monthly 0) false true,
    .beginCustomer ⟨8, 1, 1, 7⟩,
    .recordCustomer ⟨8, 1, 1, 7⟩ "cus_1",
    .saveCustomer ⟨8, 1, 1, 7⟩ "cus_1",
    .prepare ⟨8, 1, 1, 7⟩ (sampleRequest 8 .monthly 0),
    .send ⟨8, 1, 1, 7⟩ (sampleRequest 8 .monthly 0),
    .markOpen ⟨8, 1, 1, 7⟩ (sampleRequest 8 .monthly 0) "pay",
    .replace 1 8 ("cs_" ++ checkoutKey 8),
    .begin (sampleBegin 17 18 .annual 0) false true,
    .prepare ⟨18, 1, 1, 17⟩ (sampleRequest 18 .annual 0),
    .send ⟨18, 1, 1, 17⟩ (sampleRequest 18 .annual 0)]

/-- The customer is deleted at Stripe and then recovered from the first
attempt. -/
def recoveredPurchase : List DeskStep :=
  [.webhook (.customerDeleted (sampleMetadata "evt_1" (seconds 30)) "cus_1"),
    .recover 8 (some "cus_1")]

theorem two_payable_checkouts :
    (desk sampleStripe).Valid emptyDesk (replacedPurchase ++ recoveredPurchase) ∧
      (((desk sampleStripe).exec emptyDesk
        (replacedPurchase ++ recoveredPurchase)).db.checkouts.rows.map fun c ↦
          (c.userId, c.id, decide (c.IsPayable ((desk sampleStripe).exec emptyDesk
            (replacedPurchase ++ recoveredPurchase)).clock))) = [(1, 18, true), (1, 8, true)] := by
  decide +kernel

theorem one_payable_checkout_replacement :
    ((desk sampleStripe).exec emptyDesk replacedPurchase).sent ≠ [] ∧
      ∀ c ∈ ((desk sampleStripe).exec emptyDesk replacedPurchase).db.checkouts,
      ∀ d ∈ ((desk sampleStripe).exec emptyDesk replacedPurchase).db.checkouts,
        c.userId = d.userId →
        c.IsPayable ((desk sampleStripe).exec emptyDesk replacedPurchase).clock →
        d.IsPayable ((desk sampleStripe).exec emptyDesk replacedPurchase).clock → c.id = d.id := by
  have hvalid : (desk sampleStripe).Valid emptyDesk replacedPurchase := by decide +kernel
  have hspares : (desk sampleStripe).Along SparesUnexpired emptyDesk replacedPurchase := by
    decide +kernel
  exact ⟨by decide +kernel, (one_payable_checkout opening_emptyDesk hvalid).1 hspares⟩

end Histae.Billing
