import Mathlib

/-!
# The latest of many

A register holds one of the values it has been offered. A policy decides
whether an offer replaces the value held: a later offer does, an earlier one
does not, and between offers of one time a final value wins over one that is
not final. Whatever the order of the offers, the value held is then one of
the latest of them, and it is final when one of the latest is.
-/

namespace Histae.Systems

variable {α : Type} (time : α → ℤ) (final : α → Bool)

/-- The value held after the offers `xs`. -/
structure IsLatest (xs : List α) (c : α) : Prop where
  mem : c ∈ xs
  le : ∀ x ∈ xs, time x ≤ time c
  final_of : ∀ x ∈ xs, time x = time c → final x = true → final c = true

/-- What a policy has to do with an offer `x` when `c` is held. -/
structure Arbitrates (accepted : Bool) (c x : α) : Prop where
  later : time c < time x → accepted = true
  earlier : time x < time c → accepted = false
  yields : time x = time c → final x = true → accepted = true
  keeps : time x = time c → final c = true → final x = false → accepted = false

variable {time final} {xs : List α} {c x : α}

theorem isLatest_singleton (c : α) : IsLatest time final [c] c where
  mem := List.mem_singleton_self c
  le x hx := by rw [List.mem_singleton.mp hx]
  final_of x hx _ hfinal := by rwa [List.mem_singleton.mp hx] at hfinal

theorem IsLatest.congr {ys : List α} (h : IsLatest time final xs c) (hys : ∀ x, x ∈ ys ↔ x ∈ xs) :
    IsLatest time final ys c where
  mem := (hys c).mpr h.mem
  le x hx := h.le x ((hys x).mp hx)
  final_of x hx := h.final_of x ((hys x).mp hx)

theorem IsLatest.accept (h : IsLatest time final xs c) (harb : Arbitrates time final true c x) :
    IsLatest time final (xs ++ [x]) x := by
  have hnotEarlier : time c ≤ time x := by
    by_contra hlt
    exact absurd (harb.earlier (not_le.mp hlt)) (by simp)
  constructor
  · simp
  · intro y hy
    rcases List.mem_append.mp hy with hy | hy
    · exact (h.le y hy).trans hnotEarlier
    · rw [List.mem_singleton.mp hy]
  · intro y hy htime hfinal
    rcases List.mem_append.mp hy with hy | hy
    · have htie : time x = time c := by
        have hle := h.le y hy
        omega
      have hheld : final c = true := h.final_of y hy (htime.trans htie) hfinal
      cases hx : final x with
      | true => rfl
      | false => exact absurd (harb.keeps htie hheld hx) (by simp)
    · rwa [List.mem_singleton.mp hy] at hfinal

theorem IsLatest.reject (h : IsLatest time final xs c) (harb : Arbitrates time final false c x) :
    IsLatest time final (xs ++ [x]) c := by
  have hnotLater : time x ≤ time c := by
    by_contra hlt
    exact absurd (harb.later (not_le.mp hlt)) (by simp)
  constructor
  · exact List.mem_append_left _ h.mem
  · intro y hy
    rcases List.mem_append.mp hy with hy | hy
    · exact h.le y hy
    · rwa [List.mem_singleton.mp hy]
  · intro y hy htime hfinal
    rcases List.mem_append.mp hy with hy | hy
    · exact h.final_of y hy htime hfinal
    · rw [List.mem_singleton.mp hy] at htime hfinal
      exact absurd (harb.yields htime hfinal) (by simp)

/-- With one latest offer, the register holds it. -/
theorem IsLatest.eq_of_unique (h : IsLatest time final xs c) (hx : x ∈ xs)
    (hlatest : ∀ y ∈ xs, y ≠ x → time y < time x) : c = x := by
  by_contra hne
  have hlt := hlatest c h.mem hne
  have hle := h.le x hx
  omega

end Histae.Systems
