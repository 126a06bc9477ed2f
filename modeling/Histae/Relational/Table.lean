import Mathlib

/-!
# Tables with a primary key

A table is a finite list of rows whose primary keys are pairwise distinct.
Statements become list operations: `modify` is an update, `delete` a
deletion, `insert?` an insertion that reports a violated key, `upsert` an
insertion with a conflict clause. Counts are compared through the keys of
the counted rows, so that a bound never depends on the order of the rows.
-/

namespace Histae.Relational

variable {κ ρ : Type} {key : ρ → κ}

/-- Rows of type `ρ` stored under the primary key `key`. -/
structure Table (key : ρ → κ) where
  rows : List ρ
  nodup : (rows.map key).Nodup

namespace Table

instance : Membership ρ (Table key) := ⟨fun t r ↦ r ∈ t.rows⟩

theorem mem_rows {t : Table key} {r : ρ} : r ∈ t.rows ↔ r ∈ t := Iff.rfl

instance (t : Table key) (P : ρ → Prop) [DecidablePred P] : Decidable (∀ r ∈ t, P r) :=
  inferInstanceAs (Decidable (∀ r ∈ t.rows, P r))

def empty : Table key := ⟨[], List.nodup_nil⟩

instance : EmptyCollection (Table key) := ⟨empty⟩

instance : Inhabited (Table key) := ⟨empty⟩

def find? [DecidableEq κ] (t : Table key) (k : κ) : Option ρ := t.rows.find? fun r ↦ key r = k

def select (t : Table key) (p : ρ → Bool) : List ρ := t.rows.filter p

def count (t : Table key) (p : ρ → Bool) : ℕ := t.rows.countP p

def delete (t : Table key) (p : ρ → Bool) : Table key where
  rows := t.rows.filter fun r ↦ !p r
  nodup := t.nodup.sublist (List.filter_sublist.map key)

def modify (t : Table key) (p : ρ → Bool) (f : ρ → ρ) (hf : ∀ r, key (f r) = key r) :
    Table key where
  rows := t.rows.map fun r ↦ if p r then f r else r
  nodup := by
    have hmap : (t.rows.map fun r ↦ if p r then f r else r).map key = t.rows.map key := by
      rw [List.map_map]
      refine List.map_congr_left fun r _ ↦ ?_
      by_cases hp : p r <;> simp [hp, hf]
    rw [hmap]
    exact t.nodup

/-- Insertion fails when the key is already stored. -/
def insert? [DecidableEq κ] (t : Table key) (r : ρ) : Option (Table key) :=
  if h : key r ∈ t.rows.map key then none
  else some ⟨r :: t.rows, by simpa using ⟨by simpa using h, t.nodup⟩⟩

/-- `INSERT ... ON CONFLICT (key) DO UPDATE`: store `r`, or apply `f` to the
row that already carries its key. -/
def upsert [DecidableEq κ] (t : Table key) (r : ρ) (f : ρ → ρ) (hf : ∀ r, key (f r) = key r) : Table key :=
  (t.insert? r).getD (t.modify (fun s ↦ key s = key r) f hf)

section Rows

variable {t : Table key} {r s : ρ} {k : κ} {p : ρ → Bool} {f : ρ → ρ}

theorem eq_of_key_eq (hr : r ∈ t) (hs : s ∈ t) (h : key r = key s) : r = s :=
  List.inj_on_of_nodup_map t.nodup hr hs h

@[simp] theorem notMem_empty (r : ρ) : r ∉ (∅ : Table key) := List.not_mem_nil

@[simp] theorem mem_delete : r ∈ t.delete p ↔ r ∈ t ∧ p r = false := by
  change r ∈ t.rows.filter _ ↔ _
  rw [List.mem_filter]
  simp [mem_rows]

theorem mem_modify (hf : ∀ r, key (f r) = key r) :
    r ∈ t.modify p f hf ↔ ∃ s ∈ t, r = if p s then f s else s := by
  change r ∈ t.rows.map _ ↔ _
  rw [List.mem_map]
  exact exists_congr fun s ↦ and_congr Iff.rfl eq_comm

theorem modify_congr {p' : ρ → Bool} {f : ρ → ρ} {hf : ∀ r, key (f r) = key r}
    (h : ∀ r ∈ t, p r = p' r) : t.modify p f hf = t.modify p' f hf := by
  simp only [modify, mk.injEq]
  exact List.map_congr_left fun r hr ↦ by rw [h r hr]

theorem modify_eq_self {hf : ∀ r, key (f r) = key r} (h : ∀ r ∈ t, p r = false) :
    t.modify p f hf = t := by
  have hrows : (t.rows.map fun r ↦ if p r then f r else r) = t.rows := by
    conv_rhs => rw [← List.map_id t.rows]
    exact List.map_congr_left fun r hr ↦ by simp [h r hr]
  cases t
  simp only [modify, mk.injEq]
  exact hrows

theorem mem_select : r ∈ t.select p ↔ r ∈ t ∧ p r = true := List.mem_filter

variable [DecidableEq κ]

theorem find?_eq_some_iff : t.find? k = some r ↔ r ∈ t ∧ key r = k := by
  constructor
  · intro h
    exact ⟨List.mem_of_find?_eq_some h, by simpa using List.find?_some h⟩
  · rintro ⟨hr, rfl⟩
    cases hfind : t.find? (key r) with
    | none =>
        have hall := List.find?_eq_none.mp hfind r hr
        simp at hall
    | some s =>
        have hs : s ∈ t := List.mem_of_find?_eq_some hfind
        have hkey : key s = key r := by simpa using List.find?_some hfind
        rw [eq_of_key_eq hs hr hkey]

theorem find?_eq_none_iff : t.find? k = none ↔ ∀ r ∈ t, key r ≠ k := by
  simp only [find?, List.find?_eq_none, decide_eq_true_eq]
  rfl

@[simp] theorem find?_empty (k : κ) : (∅ : Table key).find? k = none := rfl

theorem find?_key (hr : r ∈ t) : t.find? (key r) = some r := find?_eq_some_iff.mpr ⟨hr, rfl⟩

theorem find?_delete : (t.delete p).find? k = (t.find? k).filter fun r ↦ !p r := by
  cases h : t.find? k with
  | none =>
      rw [Option.filter_none, find?_eq_none_iff]
      intro r hr
      exact find?_eq_none_iff.mp h r (mem_delete.mp hr).1
  | some r =>
      obtain ⟨hr, rfl⟩ := find?_eq_some_iff.mp h
      cases hp : p r with
      | true =>
          have hnone : (t.delete p).find? (key r) = none := by
            rw [find?_eq_none_iff]
            intro s hs hkey
            obtain ⟨hst, hps⟩ := mem_delete.mp hs
            rw [eq_of_key_eq hst hr hkey, hp] at hps
            exact absurd hps (by simp)
          simp [hnone, Option.filter, hp]
      | false =>
          have hsome : (t.delete p).find? (key r) = some r :=
            find?_key (mem_delete.mpr ⟨hr, hp⟩)
          simp [hsome, Option.filter, hp]

theorem find?_modify (hf : ∀ r, key (f r) = key r) :
    (t.modify p f hf).find? k = (t.find? k).map fun r ↦ if p r then f r else r := by
  cases h : t.find? k with
  | none =>
      rw [Option.map_none, find?_eq_none_iff]
      intro r hr
      obtain ⟨s, hs, rfl⟩ := (mem_modify hf).mp hr
      have hne := find?_eq_none_iff.mp h s hs
      by_cases hp : p s <;> simpa [hp, hf] using hne
  | some r =>
      obtain ⟨hr, rfl⟩ := find?_eq_some_iff.mp h
      rw [Option.map_some, find?_eq_some_iff]
      refine ⟨(mem_modify hf).mpr ⟨r, hr, rfl⟩, ?_⟩
      by_cases hp : p r <;> simp [hp, hf]

/-- An update of the one row with a given key. -/
theorem mem_modify_key (hf : ∀ r, key (f r) = key r) (hr : r ∈ t) :
    s ∈ t.modify (fun q ↦ key q = key r) f hf ↔ s = f r ∨ s ∈ t ∧ key s ≠ key r := by
  rw [mem_modify]
  constructor
  · rintro ⟨q, hq, rfl⟩
    by_cases hkey : key q = key r
    · rw [eq_of_key_eq hq hr hkey]
      simp
    · simp [hkey, hq]
  · rintro (rfl | ⟨hs, hkey⟩)
    · exact ⟨r, hr, by simp⟩
    · exact ⟨s, hs, by simp [hkey]⟩

theorem find?_modify_key (hf : ∀ r, key (f r) = key r) (hr : r ∈ t) :
    (t.modify (fun q ↦ key q = key r) f hf).find? k =
      if k = key r then some (f r) else t.find? k := by
  rw [find?_modify]
  by_cases hk : k = key r
  · rw [hk, find?_key hr]
    simp
  · rw [if_neg hk]
    cases h : t.find? k with
    | none => rfl
    | some q =>
        have hne : key q ≠ key r := by
          rw [(find?_eq_some_iff.mp h).2]
          exact hk
        simp [hne]

theorem insert?_eq_some_iff {t' : Table key} :
    t.insert? r = some t' ↔ t.find? (key r) = none ∧ t'.rows = r :: t.rows := by
  have hiff : key r ∈ t.rows.map key ↔ t.find? (key r) ≠ none := by
    rw [Ne, find?_eq_none_iff]
    simp [mem_rows]
  by_cases h : key r ∈ t.rows.map key
  · simp [insert?, h, hiff.mp h]
  · have hnone : t.find? (key r) = none := by
      by_contra hne
      exact h (hiff.mpr hne)
    simp only [insert?, h, dite_false, Option.some.injEq, hnone, true_and]
    constructor
    · rintro rfl
      rfl
    · intro hrows
      cases t'
      simp_all

theorem insert?_eq_none_iff : t.insert? r = none ↔ t.find? (key r) ≠ none := by
  have hiff : key r ∈ t.rows.map key ↔ t.find? (key r) ≠ none := by
    rw [Ne, find?_eq_none_iff]
    simp [mem_rows]
  rw [← hiff]
  by_cases h : key r ∈ t.rows.map key <;> simp [insert?, h]

theorem mem_insert {t' : Table key} (h : t.insert? r = some t') :
    s ∈ t' ↔ s = r ∨ s ∈ t := by
  rw [← mem_rows, (insert?_eq_some_iff.mp h).2, List.mem_cons, mem_rows]

theorem find?_insert {t' : Table key} (h : t.insert? r = some t') :
    t'.find? k = if key r = k then some r else t.find? k := by
  obtain ⟨_, hrows⟩ := insert?_eq_some_iff.mp h
  unfold find?
  rw [hrows, List.find?_cons]
  by_cases hk : key r = k <;> simp [hk]

theorem find?_upsert (hf : ∀ r, key (f r) = key r) :
    (t.upsert r f hf).find? k =
      if k = key r then some (((t.find? k).map f).getD r) else t.find? k := by
  unfold upsert
  cases h : t.insert? r with
  | none =>
      have hstored := insert?_eq_none_iff.mp h
      rw [Option.getD_none, find?_modify]
      by_cases hk : k = key r
      · subst hk
        obtain ⟨s, hs⟩ := Option.ne_none_iff_exists'.mp hstored
        have hkey := (find?_eq_some_iff.mp hs).2
        simp [hs, hkey]
      · rw [if_neg hk]
        cases hs : t.find? k with
        | none => rfl
        | some s =>
            have hkey := (find?_eq_some_iff.mp hs).2
            have hne : key s ≠ key r := fun heq ↦ hk (hkey ▸ heq)
            simp [hne]
  | some t' =>
      rw [Option.getD_some, find?_insert h]
      by_cases hk : k = key r
      · subst hk
        simp [(insert?_eq_some_iff.mp h).1]
      · simp [hk, Ne.symm hk]

end Rows

section Count

variable {t t' : Table key} {p p' : ρ → Bool}

theorem count_pos_iff : 0 < t.count p ↔ ∃ r ∈ t, p r = true := List.countP_pos_iff

@[simp] theorem count_empty (p : ρ → Bool) : (∅ : Table key).count p = 0 := rfl

theorem count_insert [DecidableEq κ] {r : ρ} (h : t.insert? r = some t') :
    t'.count p = t.count p + if p r then 1 else 0 := by
  rw [count, (insert?_eq_some_iff.mp h).2, List.countP_cons]
  rfl

theorem count_modify_key [DecidableEq κ] {f : ρ → ρ} (hf : ∀ r, key (f r) = key r) {r : ρ}
    (hr : r ∈ t) :
    (t.modify (fun q ↦ key q = key r) f hf).count p + (if p r then 1 else 0) =
      t.count p + if p (f r) then 1 else 0 := by
  obtain ⟨pre, post, hrows⟩ := List.append_of_mem (mem_rows.mpr hr)
  have hnodup := t.nodup
  rw [hrows, List.map_append, List.map_cons, List.nodup_append] at hnodup
  obtain ⟨_, hpost, hdisjoint⟩ := hnodup
  have hkeep : ∀ l : List ρ, (∀ q ∈ l, key q ≠ key r) →
      (l.map fun q ↦ if decide (key q = key r) then f q else q) = l := by
    intro l hl
    conv_rhs => rw [← List.map_id l]
    exact List.map_congr_left fun q hq ↦ by simp [hl q hq]
  have hpre : ∀ q ∈ pre, key q ≠ key r := fun q hq heq ↦
    hdisjoint _ (List.mem_map_of_mem hq) (key r) List.mem_cons_self heq
  have hafter : ∀ q ∈ post, key q ≠ key r := fun q hq heq ↦
    (List.nodup_cons.mp hpost).1 (heq ▸ List.mem_map_of_mem hq)
  have hmodify : (t.modify (fun q ↦ key q = key r) f hf).rows = pre ++ f r :: post := by
    rw [modify]
    simp only [hrows, List.map_append, List.map_cons, decide_true, if_true]
    rw [hkeep pre hpre, hkeep post hafter]
  rw [count, count, hmodify, hrows]
  simp only [List.countP_append, List.countP_cons]
  omega

variable [DecidableEq κ]

/-- The keys of the rows that a count counts. -/
def keys (t : Table key) (p : ρ → Bool) : Finset κ := ((t.rows.filter p).map key).toFinset

theorem mem_keys {k : κ} : k ∈ t.keys p ↔ ∃ r ∈ t, p r = true ∧ key r = k := by
  simp only [keys, List.mem_toFinset, List.mem_map, List.mem_filter, and_assoc]
  rfl

theorem count_eq_card : t.count p = (t.keys p).card := by
  have hnodup : ((t.rows.filter p).map key).Nodup :=
    t.nodup.sublist (List.filter_sublist.map key)
  rw [keys, List.toFinset_card_of_nodup hnodup, List.length_map, count,
    List.countP_eq_length_filter]

theorem count_le (h : ∀ r ∈ t', p' r = true → ∃ s ∈ t, p s = true ∧ key s = key r) :
    t'.count p' ≤ t.count p := by
  rw [count_eq_card, count_eq_card]
  apply Finset.card_le_card
  intro k hk
  obtain ⟨r, hr, hpr, rfl⟩ := mem_keys.mp hk
  exact mem_keys.mpr (h r hr hpr)

end Count

section Total

variable {t : Table key} {r : ρ} {p : ρ → Bool} {w : ρ → ℕ}

/-- The sum of a weight over the rows. -/
def total (t : Table key) (w : ρ → ℕ) : ℕ := (t.rows.map w).sum

theorem total_delete_lt (hr : r ∈ t) (hp : p r = true) (hw : 0 < w r) :
    (t.delete p).total w < t.total w := by
  have hsplit := List.sum_map_filter_add_sum_map_filter_not (fun r ↦ p r = true) w t.rows
  have hmem : w r ∈ (t.rows.filter fun r ↦ decide (p r = true)).map w :=
    List.mem_map_of_mem (List.mem_filter.mpr ⟨hr, by simpa using hp⟩)
  have hle := List.single_le_sum (fun _ _ ↦ Nat.zero_le _) _ hmem
  have hdelete : (t.delete p).total w =
      ((t.rows.filter fun r ↦ decide (¬ p r = true)).map w).sum := by
    simp [total, delete]
  rw [hdelete, total, ← hsplit]
  omega

theorem total_modify_lt {f : ρ → ρ} (hf : ∀ r, key (f r) = key r) (hr : r ∈ t) (hp : p r = true)
    (hlt : w (f r) < w r) (hle : ∀ s ∈ t, p s = true → w (f s) ≤ w s) :
    (t.modify p f hf).total w < t.total w := by
  rw [total, total, modify, List.map_map]
  apply List.sum_lt_sum
  · intro s hs
    by_cases hps : p s = true
    · simpa [hps] using hle s hs hps
    · simp [hps]
  · exact ⟨r, hr, by simpa [hp] using hlt⟩

end Total

end Table

end Histae.Relational
