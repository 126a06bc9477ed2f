import Mathlib

/-!
# Budgets over sliding windows

A log lists timed events, the newest first. A budget bounds the events in
every window `(t - width, t]`. It is enough to look back from each event when
it is added, because a window that holds the newest event is contained in the
one that ends there, as far as the log is concerned.
-/

namespace Histae.Systems

variable {α : Type} (time : α → ℤ) (width : ℤ)

/-- The events of one window. -/
def inWindow (t : ℤ) (a : α) : Bool := t - width < time a && time a ≤ t

def WithinBudget (counted : α → Bool) (limit : ℕ) (log : List α) : Prop :=
  ∀ t, (log.countP fun a ↦ counted a && inWindow time width t a) ≤ limit

variable {time width} {counted : α → Bool} {limit : ℕ} {log : List α}

theorem withinBudget_nil : WithinBudget time width counted limit [] := fun _ ↦ Nat.zero_le _

theorem WithinBudget.cons {a : α} (h : WithinBudget time width counted limit log)
    (hnewest : ∀ b ∈ log, time b ≤ time a)
    (hroom : counted a = true →
      (log.countP fun b ↦ counted b && time a - width < time b) < limit) :
    WithinBudget time width counted limit (a :: log) := by
  intro t
  rw [List.countP_cons]
  by_cases ha : (counted a && inWindow time width t a) = true
  · rw [if_pos ha]
    simp only [inWindow, Bool.and_eq_true, decide_eq_true_eq] at ha
    have hle : (log.countP fun b ↦ counted b && inWindow time width t b) ≤
        log.countP fun b ↦ counted b && time a - width < time b := by
      apply List.countP_mono_left
      intro b hb hwindow
      have hold := hnewest b hb
      simp only [inWindow, Bool.and_eq_true, decide_eq_true_eq] at hwindow ⊢
      exact ⟨hwindow.1, by omega⟩
    have hlt := hroom ha.1
    omega
  · rw [if_neg ha]
    exact h t

end Histae.Systems
