import Mathlib

/-!
# Cascades of deletions

A row is an orphan when a row that it must reference is missing. A deletion
with `ON DELETE CASCADE` takes the orphans it makes along, and theirs, until
none is left. Each round removes a row or is the last one, so as many rounds
as there are rows are enough.
-/

namespace Histae.Relational

variable {ρ : Type} {orphan : List ρ → ρ → Bool} {rows : List ρ} {r : ρ}

/-- One round after another removes the orphans of what is left. -/
def cascadeFor (orphan : List ρ → ρ → Bool) : ℕ → List ρ → List ρ
  | 0, rows => rows
  | n + 1, rows => cascadeFor orphan n (rows.filter fun r ↦ !orphan rows r)

def cascade (orphan : List ρ → ρ → Bool) (rows : List ρ) : List ρ :=
  cascadeFor orphan rows.length rows

def Closed (orphan : List ρ → ρ → Bool) (rows : List ρ) : Prop := ∀ r ∈ rows, orphan rows r = false

instance : Decidable (Closed orphan rows) :=
  inferInstanceAs (Decidable (∀ r ∈ rows, orphan rows r = false))

theorem mem_of_mem_cascadeFor {n : ℕ} (h : r ∈ cascadeFor orphan n rows) : r ∈ rows := by
  induction n generalizing rows with
  | zero => exact h
  | succ n ih => exact List.mem_of_mem_filter (ih h)

theorem mem_of_mem_cascade (h : r ∈ cascade orphan rows) : r ∈ rows := mem_of_mem_cascadeFor h

theorem cascadeFor_of_closed {n : ℕ} (h : Closed orphan rows) : cascadeFor orphan n rows = rows := by
  induction n with
  | zero => rfl
  | succ n ih =>
      have hkeep : (rows.filter fun r ↦ !orphan rows r) = rows :=
        List.filter_eq_self.mpr fun r hr ↦ by simp [h r hr]
      rw [cascadeFor, hkeep, ih]

theorem closed_cascadeFor {n : ℕ} (hn : rows.length ≤ n) : Closed orphan (cascadeFor orphan n rows) := by
  induction n generalizing rows with
  | zero =>
      obtain rfl := List.eq_nil_of_length_eq_zero (Nat.le_zero.mp hn)
      exact fun r hr ↦ absurd hr (by simp [cascadeFor])
  | succ n ih =>
      by_cases hclosed : Closed orphan rows
      · rw [cascadeFor_of_closed hclosed]
        exact hclosed
      · -- a round that meets an orphan leaves fewer rows
        have hfewer : (rows.filter fun r ↦ !orphan rows r).length < rows.length := by
          simp only [Closed, not_forall] at hclosed
          obtain ⟨r, hr, horphan⟩ := hclosed
          refine List.length_filter_lt_length_iff_exists.mpr ⟨r, hr, ?_⟩
          simpa using horphan
        exact ih (by omega)

theorem closed_cascade : Closed orphan (cascade orphan rows) := closed_cascadeFor le_rfl

end Histae.Relational
