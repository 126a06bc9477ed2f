import Mathlib

/-!
# Splitting a text at a pattern

The first and the last occurrence of a pattern, each with what stands before
and after it.
-/

namespace Histae.Text

section

variable {α : Type*} [DecidableEq α] {pat text before after : List α}

/-- The parts before and after the first occurrence of `pat`. -/
def splitOnce (pat : List α) : List α → Option (List α × List α)
  | [] => if pat = [] then some ([], []) else none
  | x :: rest =>
      if pat <+: x :: rest then some ([], (x :: rest).drop pat.length)
      else (splitOnce pat rest).map fun parts ↦ (x :: parts.1, parts.2)

/-- The parts before and after the last occurrence of `pat`. -/
def rsplitOnce (pat : List α) : List α → Option (List α × List α)
  | [] => if pat = [] then some ([], []) else none
  | x :: rest =>
      match rsplitOnce pat rest with
      | some (before, after) => some (x :: before, after)
      | none => if pat <+: x :: rest then some ([], (x :: rest).drop pat.length) else none

theorem splitOnce_eq (h : splitOnce pat text = some (before, after)) :
    text = before ++ pat ++ after := by
  induction text generalizing before with
  | nil =>
      unfold splitOnce at h
      split at h
      · rename_i hpat
        cases h
        rw [hpat]
        rfl
      · cases h
  | cons x rest ih =>
      unfold splitOnce at h
      split at h
      · rename_i hprefix
        cases h
        exact (List.prefix_iff_eq_append.mp hprefix).symm
      · obtain ⟨⟨a, b⟩, hrest, hparts⟩ := Option.map_eq_some_iff.mp h
        cases hparts
        rw [ih hrest]
        simp

theorem rsplitOnce_eq (h : rsplitOnce pat text = some (before, after)) :
    text = before ++ pat ++ after := by
  induction text generalizing before with
  | nil =>
      unfold rsplitOnce at h
      split at h
      · rename_i hpat
        cases h
        rw [hpat]
        rfl
      · cases h
  | cons x rest ih =>
      unfold rsplitOnce at h
      split at h
      · rename_i a b hrest
        cases h
        rw [ih hrest]
        simp
      · split at h
        · rename_i hprefix
          cases h
          exact (List.prefix_iff_eq_append.mp hprefix).symm
        · cases h

/-- Two splits of one text are the same when the tails begin with a separator
and hold it equally often. -/
theorem append_inj_of_count {a b s t : List α} {c : α} (h : a ++ c :: s = b ++ c :: t)
    (hcount : s.count c = t.count c) : a = b := by
  have hcase : ∀ {a b s t : List α}, a ++ c :: s = b ++ c :: t → s.count c = t.count c →
      a.length ≤ b.length → a = b := by
    intro a b s t h hcount hle
    obtain ⟨d, rfl⟩ : a <+: b := by
      refine List.prefix_of_prefix_length_le (List.prefix_append a (c :: s)) ?_ hle
      rw [h]
      exact List.prefix_append b (c :: t)
    rw [List.append_assoc, List.append_cancel_left_eq] at h
    cases d with
    | nil => rw [List.append_nil]
    | cons y d =>
        rw [List.cons_append] at h
        obtain ⟨rfl, hs⟩ := List.cons.inj h
        rw [hs, List.count_append, List.count_cons_self] at hcount
        omega
  rcases le_total a.length b.length with hle | hle
  · exact hcase h hcount hle
  · exact (hcase h.symm hcount.symm hle).symm

end

end Histae.Text
