import Mathlib

/-!
# Trimming

A trimmed text has lost the characters of a class at both ends. What is left
starts and ends outside the class, so that trimming it again, also with a
smaller class, changes nothing.
-/

namespace Histae.Text

section

variable {α : Type*} {p q : α → Bool} {text before : List α}

def trimMatches (p : α → Bool) (text : List α) : List α := (text.dropWhile p).rdropWhile p

theorem trimMatches_append_left (h : ∀ c ∈ before, p c = true) :
    trimMatches p (before ++ text) = trimMatches p text := by
  unfold trimMatches
  rw [List.dropWhile_append_of_pos h]

theorem exists_eq_trimMatches (p : α → Bool) (text : List α) :
    ∃ before after, text = before ++ trimMatches p text ++ after ∧
      (∀ c ∈ before, p c = true) ∧ ∀ c ∈ after, p c = true := by
  refine ⟨text.takeWhile p, (text.dropWhile p).rtakeWhile p, ?_, ?_, ?_⟩
  · unfold trimMatches
    rw [List.append_assoc, List.rdropWhile_append_rtakeWhile, List.takeWhile_append_dropWhile]
  · exact fun c hc ↦ List.mem_takeWhile_imp hc
  · exact fun c hc ↦ List.mem_rtakeWhile_imp hc

theorem trimMatches_infix (p : α → Bool) (text : List α) : trimMatches p text <:+: text := by
  obtain ⟨before, after, h, _⟩ := exists_eq_trimMatches p text
  exact ⟨before, after, h.symm⟩

theorem mem_trimMatches_or {c : α} (h : c ∈ text) : c ∈ trimMatches p text ∨ p c = true := by
  obtain ⟨before, after, heq, hbefore, hafter⟩ := exists_eq_trimMatches p text
  rw [heq, List.mem_append, List.mem_append] at h
  rcases h with (h | h) | h
  · exact Or.inr (hbefore c h)
  · exact Or.inl h
  · exact Or.inr (hafter c h)

/-- A text that starts and ends outside the class stays as it is. -/
theorem trimMatches_eq_self (hhead : ∀ c ∈ text.head?, p c = false)
    (hlast : ∀ c ∈ text.getLast?, p c = false) : trimMatches p text = text := by
  have hdrop : text.dropWhile p = text := by
    cases text with
    | nil => rfl
    | cons c rest => exact List.dropWhile_cons_of_neg (by simpa using hhead c rfl)
  unfold trimMatches
  rw [hdrop]
  refine List.rdropWhile_eq_self_iff.mpr fun hne ↦ ?_
  have hc := hlast (text.getLast hne) (List.getLast?_eq_getLast_of_ne_nil hne)
  simpa using hc

theorem head?_trimMatches {c : α} (h : c ∈ (trimMatches p text).head?) : p c = false := by
  have hprefix : trimMatches p text <+: text.dropWhile p := List.rdropWhile_prefix p _
  obtain ⟨rest, hrest⟩ := hprefix
  have hhead : (text.dropWhile p).head? = some c := by
    rw [← hrest, List.head?_append, Option.mem_def.mp h]
    rfl
  have hnot := List.head?_dropWhile_not p text
  rw [hhead] at hnot
  simpa using hnot

theorem getLast?_trimMatches {c : α} (h : c ∈ (trimMatches p text).getLast?) : p c = false := by
  have hne : trimMatches p text ≠ [] := by
    intro hnil
    rw [hnil] at h
    cases h
  have hlast := List.rdropWhile_last_not p (text.dropWhile p) hne
  have hc : (trimMatches p text).getLast hne = c := by
    rw [List.getLast?_eq_getLast_of_ne_nil hne] at h
    exact Option.some.inj h
  unfold trimMatches at hc
  rw [hc] at hlast
  simpa using hlast

theorem trimMatches_trimMatches (h : ∀ c, q c = true → p c = true) :
    trimMatches q (trimMatches p text) = trimMatches p text := by
  have hnot {c : α} (hc : p c = false) : q c = false := by
    by_contra hq
    rw [h c (by simpa using hq)] at hc
    cases hc
  exact trimMatches_eq_self (fun c hc ↦ hnot (head?_trimMatches hc))
    fun c hc ↦ hnot (getLast?_trimMatches hc)

end

end Histae.Text
