import Mathlib

/-!
# First rows of groups

`SELECT DISTINCT ON (group) ... ORDER BY group, rank` keeps one row of each
group, and none of the group ranks before it. Which of several rows of equal
rank is kept is not determined, so that the statement is a relation between
the rows and its possible answers. Answers to the same rows agree up to the
rank of the rows they keep.
-/

namespace Histae.Relational

variable {ρ κ ω : Type} [DecidableEq κ] [LinearOrder ω]

/-- The answer is a possible outcome of `SELECT DISTINCT ON` over the rows. -/
structure DistinctOn (group : ρ → κ) (rank : ρ → ω) (rows answer : List ρ) : Prop where
  nodup : (answer.map group).Nodup
  covers : ∀ r ∈ rows, ∃ a ∈ answer, group a = group r
  first : ∀ a ∈ answer, a ∈ rows ∧ ∀ r ∈ rows, group r = group a → rank a ≤ rank r

instance (group : ρ → κ) (rank : ρ → ω) [DecidableEq ρ] (rows answer : List ρ) :
    Decidable (DistinctOn group rank rows answer) :=
  decidable_of_iff ((answer.map group).Nodup ∧ (∀ r ∈ rows, ∃ a ∈ answer, group a = group r) ∧
      ∀ a ∈ answer, a ∈ rows ∧ ∀ r ∈ rows, group r = group a → rank a ≤ rank r)
    ⟨fun h ↦ ⟨h.1, h.2.1, h.2.2⟩, fun h ↦ ⟨h.nodup, h.covers, h.first⟩⟩

namespace DistinctOn

variable {group : ρ → κ} {rank : ρ → ω} {rows answer answer' : List ρ} {a a' : ρ}

/-- What holds of a row whenever it holds of one that ranks after it holds of
the kept row as soon as it holds of some row of the group. -/
theorem exists_iff (h : DistinctOn group rank rows answer) {P : ρ → Prop} (k : κ)
    (hP : ∀ r s, rank r ≤ rank s → P s → P r) :
    (∃ a ∈ answer, group a = k ∧ P a) ↔ ∃ r ∈ rows, group r = k ∧ P r := by
  constructor
  · rintro ⟨a, ha, hgroup, hPa⟩
    exact ⟨a, (h.first a ha).1, hgroup, hPa⟩
  · rintro ⟨r, hr, hgroup, hPr⟩
    obtain ⟨a, ha, hsame⟩ := h.covers r hr
    refine ⟨a, ha, hsame.trans hgroup, ?_⟩
    exact hP a r ((h.first a ha).2 r hr hsame.symm) hPr

/-- Two answers keep rows of the same rank. -/
theorem rank_eq (h : DistinctOn group rank rows answer) (h' : DistinctOn group rank rows answer')
    (ha : a ∈ answer) (ha' : a' ∈ answer') (hgroup : group a = group a') : rank a = rank a' := by
  have hle := (h.first a ha).2 a' (h'.first a' ha').1 hgroup.symm
  have hge := (h'.first a' ha').2 a (h.first a ha).1 hgroup
  exact le_antisymm hle hge

theorem eq_of_group_eq (h : DistinctOn group rank rows answer) (ha : a ∈ answer)
    (ha' : a' ∈ answer) (hgroup : group a = group a') : a = a' :=
  List.inj_on_of_nodup_map h.nodup ha ha' hgroup

/-- Rows of one group have an answer of at most one row. -/
theorem length_le_one (h : DistinctOn group rank rows answer) {k : κ}
    (hrows : ∀ r ∈ rows, group r = k) : answer.length ≤ 1 := by
  have hnodup : answer.Nodup := List.Nodup.of_map group h.nodup
  cases answer with
  | nil => simp
  | cons a rest =>
      cases rest with
      | nil => simp
      | cons b rest =>
          have hgroup : ∀ c ∈ a :: b :: rest, group c = k := fun c hc ↦ hrows c (h.first c hc).1
          have hsame : a = b := h.eq_of_group_eq (by simp) (by simp)
            ((hgroup a (by simp)).trans (hgroup b (by simp)).symm)
          simp [hsame] at hnodup

/-- Answers to rows of one group have the same length. -/
theorem length_eq (h : DistinctOn group rank rows answer)
    (h' : DistinctOn group rank rows answer') {k : κ} (hrows : ∀ r ∈ rows, group r = k) :
    answer'.length = answer.length := by
  have hle := h.length_le_one hrows
  have hle' := h'.length_le_one hrows
  have hnil : answer = [] ↔ answer' = [] := by
    constructor
    · rintro rfl
      refine List.eq_nil_iff_forall_not_mem.mpr fun a ha ↦ ?_
      obtain ⟨b, hb, _⟩ := h.covers a (h'.first a ha).1
      exact absurd hb (by simp)
    · rintro rfl
      refine List.eq_nil_iff_forall_not_mem.mpr fun a ha ↦ ?_
      obtain ⟨b, hb, _⟩ := h'.covers a (h.first a ha).1
      exact absurd hb (by simp)
  rw [← List.length_eq_zero_iff, ← List.length_eq_zero_iff] at hnil
  omega

/-- Answers to rows of one group are equal when no two rows tie. -/
theorem eq_of_injective (h : DistinctOn group rank rows answer)
    (h' : DistinctOn group rank rows answer') {k : κ} (hrows : ∀ r ∈ rows, group r = k)
    (hrank : ∀ r ∈ rows, ∀ s ∈ rows, rank r = rank s → r = s) : answer' = answer := by
  have hlength := h.length_eq h' hrows
  have hle := h.length_le_one hrows
  cases answer with
  | nil => exact List.length_eq_zero_iff.mp (by simpa using hlength)
  | cons a rest =>
      obtain rfl : rest = [] := List.length_eq_zero_iff.mp (by simpa using hle)
      obtain ⟨a', rfl⟩ := List.length_eq_one_iff.mp (by simpa using hlength)
      have hmem := (h.first a (by simp)).1
      have hmem' := (h'.first a' (by simp)).1
      have hsame := h.rank_eq h' (a := a) (by simp) (by simp)
        ((hrows a hmem).trans (hrows a' hmem').symm)
      rw [hrank a hmem a' hmem' hsame]

/-- The part of an answer that belongs to one group answers that part of the
rows. -/
theorem filter (h : DistinctOn group rank rows answer) (k : κ) :
    DistinctOn group rank (rows.filter fun r ↦ group r = k)
      (answer.filter fun a ↦ group a = k) where
  nodup := h.nodup.sublist (List.filter_sublist.map group)
  covers r hr := by
    simp only [List.mem_filter, decide_eq_true_eq] at hr ⊢
    obtain ⟨a, ha, hgroup⟩ := h.covers r hr.1
    exact ⟨a, ⟨ha, hgroup.trans hr.2⟩, hgroup⟩
  first a ha := by
    simp only [List.mem_filter, decide_eq_true_eq] at ha ⊢
    obtain ⟨hmem, hfirst⟩ := h.first a ha.1
    exact ⟨⟨hmem, ha.2⟩, fun r hr ↦ hfirst r hr.1⟩

end DistinctOn

/-- An answer that keeps the first row of each group in the order of the
list. -/
def distinctOn (group : ρ → κ) (rank : ρ → ω) (rows : List ρ) : List ρ :=
  (rows.map group).dedup.filterMap fun k ↦ (rows.filter fun r ↦ group r = k).argmin rank

theorem distinctOn_spec (group : ρ → κ) (rank : ρ → ω) (rows : List ρ) :
    DistinctOn group rank rows (distinctOn group rank rows) := by
  have hmem : ∀ {k : κ} {a : ρ}, a ∈ (rows.filter fun r ↦ group r = k).argmin rank →
      (a ∈ rows ∧ group a = k) ∧ ∀ r ∈ rows, group r = k → rank a ≤ rank r := by
    intro k a ha
    refine ⟨by simpa using List.argmin_mem ha, fun r hr hgroup ↦ ?_⟩
    exact List.le_of_mem_argmin (by simpa using ⟨hr, hgroup⟩) ha
  constructor
  · have hgroups : (distinctOn group rank rows).map group = (rows.map group).dedup.filter
        fun k ↦ ((rows.filter fun r ↦ group r = k).argmin rank).isSome := by
      unfold distinctOn
      induction (rows.map group).dedup with
      | nil => rfl
      | cons k ks ih =>
          cases hfirst : (rows.filter fun r ↦ group r = k).argmin rank with
          | none => simp [hfirst, ih]
          | some a =>
              have hgroup : group a = k := (hmem (Option.mem_def.mpr hfirst)).1.2
              simp [hfirst, ih, hgroup]
    rw [hgroups]
    exact (List.nodup_dedup _).filter _
  · intro r hr
    cases hfirst : (rows.filter fun s ↦ group s = group r).argmin rank with
    | none =>
        have hnil := List.argmin_eq_none.mp hfirst
        have hnot : r ∉ rows.filter fun s ↦ group s = group r := by simp [hnil]
        simp [hr] at hnot
    | some a =>
        refine ⟨a, List.mem_filterMap.mpr ⟨group r, ?_, hfirst⟩,
          (hmem (Option.mem_def.mpr hfirst)).1.2⟩
        exact List.mem_dedup.mpr (List.mem_map_of_mem hr)
  · intro a ha
    obtain ⟨k, _, hfirst⟩ := List.mem_filterMap.mp ha
    obtain ⟨⟨hrow, hgroup⟩, hle⟩ := hmem (Option.mem_def.mpr hfirst)
    exact ⟨hrow, fun r hr hsame ↦ hle r hr (hsame.trans hgroup)⟩

end Histae.Relational
