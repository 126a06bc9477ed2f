import Histae.Matches.Credits

/-!
# The credit ledger of one user

The abstract account behind the continuation tables: how often a week was
used, how many of its free credits are spent, the wallet with its week, and
the reservations the user holds on undecided matches. A ledger is sound when
spent and held credits together respect the caps. The four moves of a ledger
(time and releases, a new hold, a payment, a grant) keep it sound.
-/

namespace Histae.Matches

structure Caps where
  free : ℕ
  weekly : ℕ
  stock : ℕ

structure Ledger where
  used : ℤ → ℕ
  freeUsed : ℤ → ℕ
  /-- The credits of the wallet and the week they belong to. -/
  wallet : Option (ℕ × ℤ)
  held : Finset Reservation

namespace Ledger

def holds (l : Ledger) (p : Reservation → Bool) : ℕ := {r ∈ l.held | p r}.card

structure Sound (caps : Caps) (l : Ledger) (week : ℤ) : Prop where
  free : ∀ w, l.freeUsed w + l.holds (countsAs .free w) ≤ caps.free
  used : ∀ w, l.used w ≤ caps.weekly
  quota : l.used week + l.holds (countsAsReserved week) ≤ caps.weekly
  future : ∀ w, week < w → l.used w = 0
  stock : ∀ c w, l.wallet = some (c, w) →
    c ≤ caps.stock ∧ w ≤ week ∧ l.holds (countsAs .advertising w) ≤ c
  backed : ∀ r ∈ l.held, r.source = .advertising →
    ∃ c w, l.wallet = some (c, w) ∧ r.weekStart ≤ w

variable {caps : Caps} {l l' : Ledger} {week week' : ℤ} {p : Reservation → Bool}
  {r : Reservation}

theorem holds_mono (h : l'.held ⊆ l.held) : l'.holds p ≤ l.holds p :=
  Finset.card_le_card (Finset.filter_subset_filter _ h)

theorem holds_insert (h : l'.held ⊆ insert r l.held) :
    l'.holds p ≤ l.holds p + if p r then 1 else 0 := by
  have hsub : {s ∈ l'.held | p s} ⊆ {s ∈ insert r l.held | p s} :=
    Finset.filter_subset_filter _ h
  refine (Finset.card_le_card hsub).trans ?_
  rw [Finset.filter_insert]
  split
  · exact Finset.card_insert_le _ _
  · exact le_rfl

theorem holds_erase (hr : r ∈ l.held) (h : l'.held ⊆ l.held.erase r) :
    l'.holds p + (if p r then 1 else 0) ≤ l.holds p := by
  have hle : l'.holds p ≤ ({s ∈ l.held | p s}.erase r).card := by
    apply Finset.card_le_card
    intro s hs
    obtain ⟨hs, hps⟩ := Finset.mem_filter.mp hs
    obtain ⟨hne, hs⟩ := Finset.mem_erase.mp (h hs)
    exact Finset.mem_erase.mpr ⟨hne, Finset.mem_filter.mpr ⟨hs, hps⟩⟩
  split
  · rename_i hp
    have hmem : r ∈ {s ∈ l.held | p s} := Finset.mem_filter.mpr ⟨hr, hp⟩
    have hcard := Finset.card_erase_of_mem hmem
    have hpos := Finset.card_pos.mpr ⟨r, hmem⟩
    unfold holds at hle ⊢
    omega
  · exact hle.trans (Finset.card_le_card (Finset.erase_subset _ _))

theorem holds_pos (hr : r ∈ l.held) (hp : p r = true) : 0 < l.holds p :=
  Finset.card_pos.mpr ⟨r, Finset.mem_filter.mpr ⟨hr, hp⟩⟩

/-- An advertising reservation that is still held belongs to a week that has
begun. -/
theorem Sound.weekStart_le (h : l.Sound caps week) (hr : r ∈ l.held)
    (hsource : r.source = .advertising) : r.weekStart ≤ week := by
  obtain ⟨c, w, hwallet, hle⟩ := h.backed r hr hsource
  exact hle.trans (h.stock c w hwallet).2.1

/-- Reservations may be released while time passes. -/
theorem Sound.release (h : l.Sound caps week) (hweek : week ≤ week')
    (hused : l'.used = l.used) (hfree : l'.freeUsed = l.freeUsed)
    (hwallet : l'.wallet = l.wallet) (hheld : l'.held ⊆ l.held) : l'.Sound caps week' where
  free w := by
    rw [hfree]
    exact (Nat.add_le_add_left (holds_mono hheld) _).trans (h.free w)
  used w := hused ▸ h.used w
  quota := by
    rw [hused]
    rcases hweek.eq_or_lt with rfl | hlt
    · exact (Nat.add_le_add_left (holds_mono hheld) _).trans h.quota
    · have hsub : l'.holds (countsAsReserved week') ≤ l.holds (countsAsReserved week) := by
        apply Finset.card_le_card
        intro r hr
        obtain ⟨hr, hcount⟩ := Finset.mem_filter.mp hr
        refine Finset.mem_filter.mpr ⟨hheld hr, ?_⟩
        have hle := h.weekStart_le (hheld hr)
        cases hsource : r.source with
        | free => simp [countsAsReserved, hsource]
        | premium => simp [countsAsReserved, hsource] at hcount
        | advertising =>
            have heq : r.weekStart = week' := by simpa [countsAsReserved, hsource] using hcount
            have := hle hsource
            omega
      have hzero := h.future week' hlt
      have hquota := h.quota
      omega
  future w hw := hused ▸ h.future w (hweek.trans_lt hw)
  stock c w hw := by
    obtain ⟨hcap, hle, hheld'⟩ := h.stock c w (hwallet ▸ hw)
    exact ⟨hcap, hle.trans hweek, (holds_mono hheld).trans hheld'⟩
  backed r hr hsource := by
    rw [hwallet]
    exact h.backed r (hheld hr) hsource

/-- The room a new reservation needs. -/
structure Room (caps : Caps) (l : Ledger) (week : ℤ) (source : Source) : Prop where
  weekly : source ≠ .premium → l.used week + l.holds (countsAsReserved week) < caps.weekly
  free : source = .free → l.freeUsed week + l.holds (countsAs .free week) < caps.free
  stock : source = .advertising →
    ∃ c, l.wallet = some (c, week) ∧ l.holds (countsAs .advertising week) < c

theorem Sound.hold (h : l.Sound caps week) (hroom : l.Room caps week r.source)
    (hweek : r.weekStart = week) (hused : l'.used = l.used) (hfree : l'.freeUsed = l.freeUsed)
    (hwallet : l'.wallet = l.wallet) (hheld : l'.held ⊆ insert r l.held) :
    l'.Sound caps week where
  free w := by
    have hle : l'.holds (countsAs .free w) ≤ _ := holds_insert hheld
    have hold := h.free w
    rw [hfree]
    cases hcount : countsAs .free w r with
    | false =>
        rw [hcount] at hle
        exact (Nat.add_le_add_left (by simpa using hle) _).trans hold
    | true =>
        rw [hcount] at hle
        have hr : r.source = .free ∧ r.weekStart = w := by simpa [countsAs] using hcount
        have hfits := hroom.free hr.1
        rw [← hweek, hr.2] at hfits
        simp only [if_true] at hle
        omega
  used w := hused ▸ h.used w
  quota := by
    have hle : l'.holds (countsAsReserved week) ≤ _ := holds_insert hheld
    have hold := h.quota
    rw [hused]
    cases hcount : countsAsReserved week r with
    | false =>
        rw [hcount] at hle
        exact (Nat.add_le_add_left (by simpa using hle) _).trans hold
    | true =>
        rw [hcount] at hle
        have hr : r.source ≠ .premium := by
          intro hpremium
          simp [countsAsReserved, hpremium] at hcount
        have hfits := hroom.weekly hr
        simp only [if_true] at hle
        omega
  future w hw := hused ▸ h.future w hw
  stock c w hw := by
    rw [hwallet] at hw
    obtain ⟨hcap, hle, hstock⟩ := h.stock c w hw
    refine ⟨hcap, hle, ?_⟩
    have hins : l'.holds (countsAs .advertising w) ≤ _ := holds_insert hheld
    cases hcount : countsAs .advertising w r with
    | false =>
        rw [hcount] at hins
        exact (by simpa using hins : _ ≤ _).trans hstock
    | true =>
        rw [hcount] at hins
        have hr : r.source = .advertising ∧ r.weekStart = w := by simpa [countsAs] using hcount
        obtain ⟨c', hwallet', hfits⟩ := hroom.stock hr.1
        rw [hw] at hwallet'
        obtain ⟨rfl, rfl⟩ : c = c' ∧ w = week := by simpa using hwallet'
        simp only [if_true] at hins
        omega
  backed s hs hsource := by
    rw [hwallet]
    rcases Finset.mem_insert.mp (hheld hs) with rfl | hs
    · obtain ⟨c, hw, _⟩ := hroom.stock hsource
      exact ⟨c, week, hw, hweek.le⟩
    · exact h.backed s hs hsource

/-- A held reservation is paid: the week counts one more use, and the free
credit or the wallet of the reservation's week is charged. -/
structure Pays (l : Ledger) (week : ℤ) (r : Reservation) (l' : Ledger) : Prop where
  used : ∀ w, l'.used w = l.used w + if w = week then 1 else 0
  free : r.source = .free →
    (∀ w, l'.freeUsed w = l.freeUsed w + if w = r.weekStart then 1 else 0) ∧
      l'.wallet = l.wallet
  stock : r.source = .advertising → l'.freeUsed = l.freeUsed ∧
    ∃ c, l.wallet = some (c + 1, r.weekStart) ∧ l'.wallet = some (c, r.weekStart)

theorem Sound.pay (h : l.Sound caps week) (hr : r ∈ l.held) (hpays : l.Pays week r l')
    (hpremium : r.source ≠ .premium)
    (hcurrent : r.source = .advertising → r.weekStart = week)
    (hheld : l'.held ⊆ l.held.erase r) : l'.Sound caps week := by
  have hreserved : countsAsReserved week r = true := by
    cases hsource : r.source with
    | free => simp [countsAsReserved, hsource]
    | premium => exact absurd hsource hpremium
    | advertising => simp [countsAsReserved, hsource, hcurrent hsource]
  have hsub : l'.held ⊆ l.held := hheld.trans (Finset.erase_subset _ _)
  have hquota : l'.holds (countsAsReserved week) + 1 ≤ l.holds (countsAsReserved week) := by
    have hle : l'.holds (countsAsReserved week) + _ ≤ _ := holds_erase hr hheld
    simpa [hreserved] using hle
  refine ⟨fun w ↦ ?_, fun w ↦ ?_, ?_, fun w hw ↦ ?_, fun c w hw ↦ ?_, fun s hs hs' ↦ ?_⟩
  · have hold := h.free w
    have hle : l'.holds (countsAs .free w) + _ ≤ _ := holds_erase hr hheld
    cases hsource : r.source with
    | free =>
        rw [(hpays.free hsource).1 w]
        have hcount : countsAs .free w r = decide (r.weekStart = w) := by
          simp [countsAs, hsource]
        rw [hcount] at hle
        by_cases hw : w = r.weekStart
        · subst hw
          simp only [decide_true, if_true] at hle ⊢
          omega
        · simp only [Ne.symm hw, hw, decide_false, if_false] at hle ⊢
          simp only [Bool.false_eq_true, if_false] at hle
          omega
    | premium => exact absurd hsource hpremium
    | advertising =>
        rw [(hpays.stock hsource).1]
        omega
  · rw [hpays.used]
    have hold := h.used w
    have hweekly := h.quota
    split
    · rename_i hw
      subst hw
      omega
    · omega
  · rw [hpays.used, if_pos rfl]
    have hweekly := h.quota
    omega
  · rw [hpays.used, if_neg hw.ne', h.future w hw]
  · cases hsource : r.source with
    | free =>
        rw [(hpays.free hsource).2] at hw
        obtain ⟨hcap, hle, hstock⟩ := h.stock c w hw
        exact ⟨hcap, hle, (holds_mono hsub).trans hstock⟩
    | premium => exact absurd hsource hpremium
    | advertising =>
        obtain ⟨_, c', hbefore, hafter⟩ := hpays.stock hsource
        rw [hafter] at hw
        obtain ⟨rfl, rfl⟩ : c' = c ∧ r.weekStart = w := by simpa using hw
        obtain ⟨hcap, hle, hstock⟩ := h.stock _ _ hbefore
        have hcount : countsAs .advertising r.weekStart r = true := by simp [countsAs, hsource]
        have herase : l'.holds (countsAs .advertising r.weekStart) + _ ≤ _ := holds_erase hr hheld
        rw [hcount] at herase
        simp only [if_true] at herase
        exact ⟨by omega, hle, by omega⟩
  · obtain ⟨c, w, hw, hle⟩ := h.backed s (hsub hs) hs'
    cases hsource : r.source with
    | free => exact ⟨c, w, (hpays.free hsource).2.trans hw, hle⟩
    | premium => exact absurd hsource hpremium
    | advertising =>
        obtain ⟨_, c', hbefore, hafter⟩ := hpays.stock hsource
        rw [hbefore] at hw
        obtain ⟨rfl, rfl⟩ : c' + 1 = c ∧ r.weekStart = w := by simpa using hw
        exact ⟨c', r.weekStart, hafter, hle⟩

/-- A granted credit starts the wallet of a new week or adds to the current
one. -/
theorem Sound.grant (h : l.Sound caps week) (hstock : 1 ≤ caps.stock)
    (hused : l'.used = l.used) (hfree : l'.freeUsed = l.freeUsed) (hheld : l'.held = l.held)
    (hwallet : (∀ c w, l.wallet = some (c, w) → w < week) ∧ l'.wallet = some (1, week) ∨
      ∃ c, l.wallet = some (c, week) ∧ c < caps.stock ∧ l'.wallet = some (c + 1, week)) :
    l'.Sound caps week where
  free w := by
    rw [hfree, holds, hheld]
    exact h.free w
  used w := hused ▸ h.used w
  quota := by
    rw [hused, holds, hheld]
    exact h.quota
  future w hw := hused ▸ h.future w hw
  stock c w hw := by
    rw [holds, hheld]
    rcases hwallet with ⟨hold, hnew⟩ | ⟨c', hold, hroom, hnew⟩
    · rw [hnew] at hw
      obtain ⟨rfl, rfl⟩ : 1 = c ∧ week = w := by simpa using hw
      refine ⟨hstock, le_rfl, ?_⟩
      have hnone : {r ∈ l.held | countsAs .advertising week r} = ∅ := by
        apply Finset.filter_eq_empty_iff.mpr
        intro r hr hcount
        have hr' : r.source = .advertising ∧ r.weekStart = week := by
          simpa [countsAs] using hcount
        obtain ⟨c, w, hw, hle⟩ := h.backed r hr hr'.1
        have := hold c w hw
        omega
      simp [hnone]
    · rw [hnew] at hw
      obtain ⟨rfl, rfl⟩ : c' + 1 = c ∧ week = w := by simpa using hw
      exact ⟨hroom, le_rfl, (h.stock _ _ hold).2.2.trans (Nat.le_succ _)⟩
  backed r hr hsource := by
    obtain ⟨c, w, hw, hle⟩ := h.backed r (hheld ▸ hr) hsource
    rcases hwallet with ⟨hold, hnew⟩ | ⟨c', hold, hroom, hnew⟩
    · exact ⟨1, week, hnew, hle.trans (hold c w hw).le⟩
    · rw [hold] at hw
      obtain ⟨rfl, rfl⟩ : c' = c ∧ week = w := by simpa using hw
      exact ⟨c' + 1, week, hnew, hle⟩

end Ledger

end Histae.Matches
