import Mathlib
import Histae.Paging.Keyset

/-!
# Cursors that forget

A cursor may keep less of the last row of a page than the order compares. The
next page then starts below a position at or under that row, and the rows in
between are never served. Following the cursors visits every row exactly when,
at each boundary between two full pages, the position that the cursor keeps is
still above the next row.
-/

namespace Histae.Paging

section Positions

variable {α β γ ε κ : Type} [LinearOrder κ]

/-- Every request answers the rows below the position its cursor keeps. -/
structure ServesBelow (fetch : Option γ → Except ε (Page γ β)) (limit : ℕ) (cursor : α → γ)
    (shown : α → β) (key kept : α → κ) (all : List α) : Prop where
  first : fetch none = .ok (Page.of limit cursor shown all)
  next : ∀ a ∈ all, fetch (some (cursor a)) =
    .ok (Page.of limit cursor shown (all.filter fun b ↦ key b < kept a))

/-- At each page boundary the kept position lies above the next row. -/
def Resumes (key kept : α → κ) (limit : ℕ) (rows : List α) : Prop :=
  ∀ k a b, rows[(k + 1) * limit - 1]? = some a → rows[(k + 1) * limit]? = some b →
    key b < kept a

variable {fetch : Option γ → Except ε (Page γ β)} {limit fuel : ℕ} {cursor : α → γ}
  {shown : α → β} {key kept : α → κ} {all done rest rows : List α}

theorem resumes_of_length_le (h : rows.length ≤ limit) : Resumes key kept limit rows := by
  intro k a b _ hb
  have hlt := (List.getElem?_eq_some_iff.mp hb).1
  have hle : limit ≤ (k + 1) * limit := Nat.le_mul_of_pos_left limit (Nat.succ_pos k)
  omega

theorem resumes_iff (hlimit : 0 < limit) (hmore : limit < rows.length) :
    Resumes key kept limit rows ↔
      key rows[limit] < kept rows[limit - 1] ∧ Resumes key kept limit (rows.drop limit) := by
  have hindex : ∀ k, limit + (k + 1) * limit = (k + 1 + 1) * limit := fun k ↦ by ring
  constructor
  · intro h
    refine ⟨?_, fun k a b ha hb ↦ ?_⟩
    · refine h 0 _ _ ?_ ?_
      · rw [Nat.zero_add, Nat.one_mul]
        exact List.getElem?_eq_getElem _
      · rw [Nat.zero_add, Nat.one_mul]
        exact List.getElem?_eq_getElem hmore
    · rw [List.getElem?_drop] at ha hb
      refine h (k + 1) a b ?_ ?_
      · rw [← ha, ← hindex k]
        congr 1
        have hpos : 0 < (k + 1) * limit := Nat.mul_pos (Nat.succ_pos k) hlimit
        omega
      · rw [← hb, ← hindex k]
  · rintro ⟨hfirst, hrest⟩ k a b ha hb
    cases k with
    | zero =>
        rw [Nat.zero_add, Nat.one_mul] at ha hb
        obtain ⟨_, rfl⟩ := List.getElem?_eq_some_iff.mp ha
        obtain ⟨_, rfl⟩ := List.getElem?_eq_some_iff.mp hb
        exact hfirst
    | succ k =>
        refine hrest k a b ?_ ?_
        · rw [List.getElem?_drop, ← ha, ← hindex k]
          congr 1
          have hpos : 0 < (k + 1) * limit := Nat.mul_pos (Nat.succ_pos k) hlimit
          omega
        · rw [List.getElem?_drop, ← hb, ← hindex k]

/-- The rows below a position end a descending list. -/
theorem exists_eq_append_filter_lt (h : rows.Pairwise fun a b ↦ key b < key a) (bound : κ) :
    ∃ above, rows = above ++ rows.filter fun b ↦ key b < bound := by
  induction rows with
  | nil => exact ⟨[], rfl⟩
  | cons a rows ih =>
      obtain ⟨hhead, htail⟩ := List.pairwise_cons.mp h
      by_cases hlt : key a < bound
      · have hall : (a :: rows).filter (fun b ↦ decide (key b < bound)) = a :: rows := by
          rw [List.filter_eq_self]
          intro b hb
          rcases List.mem_cons.mp hb with rfl | hb
          · exact decide_eq_true hlt
          · exact decide_eq_true ((hhead b hb).trans hlt)
        exact ⟨[], by rw [hall, List.nil_append]⟩
      · obtain ⟨above, habove⟩ := ih htail
        refine ⟨a :: above, ?_⟩
        rw [List.filter_cons_of_neg (by simpa using hlt), List.cons_append, ← habove]

/-- What is served after the last row of a page lies behind that page. -/
theorem filter_lt_kept (hall : all = done ++ rest) (h : all.Pairwise fun a b ↦ key b < key a)
    (hlimit : 0 < limit) (hmore : limit < rest.length) (hkept : ∀ a, kept a ≤ key a) :
    (all.filter fun b ↦ key b < kept rest[limit - 1]) =
      (rest.drop limit).filter fun b ↦ key b < kept rest[limit - 1] := by
  have hindex : limit - 1 < (rest.take limit).length := by
    rw [List.length_take_of_le hmore.le]
    omega
  have hlast : (rest.take limit)[limit - 1] = rest[limit - 1] := List.getElem_take
  have hsplit : all = (done ++ rest.take limit) ++ rest.drop limit := by
    rw [hall, List.append_assoc, List.take_append_drop]
  have habove : (done ++ rest.take limit).filter
      (fun b ↦ decide (key b < kept rest[limit - 1])) = [] := by
    rw [List.filter_eq_nil_iff]
    intro b hb hlt
    have hbelow : key b < key rest[limit - 1] := (of_decide_eq_true hlt).trans_le (hkept _)
    have hpairs : (done ++ rest.take limit).Pairwise fun a b ↦ key b < key a :=
      (List.pairwise_append.mp (hsplit ▸ h)).1
    rcases List.mem_append.mp hb with hb | hb
    · have hmem : rest[limit - 1] ∈ rest.take limit := hlast ▸ List.getElem_mem hindex
      exact (lt_asymm hbelow) ((List.pairwise_append.mp hpairs).2.2 b hb _ hmem)
    · obtain ⟨i, hi, rfl⟩ := List.getElem_of_mem hb
      have hle : i ≤ limit - 1 := by
        rw [List.length_take_of_le hmore.le] at hi
        omega
      rcases hle.lt_or_eq with hlt' | rfl
      · have hpair := List.pairwise_iff_getElem.mp (List.pairwise_append.mp hpairs).2.1 i
          (limit - 1) hi hindex hlt'
        rw [hlast] at hpair
        exact lt_asymm hbelow hpair
      · rw [hlast] at hbelow
        exact lt_irrefl _ hbelow
  conv_lhs => rw [hsplit]
  rw [List.filter_append, habove, List.nil_append]

/-- A request allowed more often answers the same pages. -/
theorem follow_succ {c : Option γ} {pages : List (Page γ β)}
    (h : follow fetch fuel c = some pages) : follow fetch (fuel + 1) c = some pages := by
  induction fuel generalizing c pages with
  | zero => exact absurd h (by simp [follow])
  | succ fuel ih =>
      rw [follow] at h ⊢
      cases hfetch : fetch c with
      | error e =>
          rw [hfetch] at h
          exact absurd h (by simp)
      | ok page =>
          rw [hfetch] at h
          cases hnext : page.nextCursor with
          | none =>
              simp only [hnext] at h ⊢
              exact h
          | some next =>
              simp only [hnext] at h ⊢
              obtain ⟨following, hfollowing, rfl⟩ := Option.map_eq_some_iff.mp h
              rw [ih hfollowing, Option.map_some]

theorem follow_le {c : Option γ} {pages : List (Page γ β)} {fuel' : ℕ}
    (h : follow fetch fuel c = some pages) (hle : fuel ≤ fuel') :
    follow fetch fuel' c = some pages := by
  induction hle with
  | refl => exact h
  | step _ ih => exact follow_succ ih

/-- The visit ends, never serves more rows than there are, and serves all of
them exactly when every boundary resumes where it stopped. -/
theorem ServesBelow.follow_rest (hserves : ServesBelow fetch limit cursor shown key kept all)
    (h : all.Pairwise fun a b ↦ key b < key a) (hlimit : 0 < limit) (hkept : ∀ a, kept a ≤ key a)
    (c : Option γ) (hall : all = done ++ rest)
    (hfetch : fetch c = .ok (Page.of limit cursor shown rest)) (hfuel : rest.length < fuel) :
    ∃ pages, follow fetch fuel c = some pages ∧
      (pages.flatMap Page.items).length ≤ rest.length ∧
      (pages.flatMap Page.items = rest.map shown ↔ Resumes key kept limit rest) := by
  induction fuel generalizing c done rest with
  | zero => omega
  | succ fuel ih =>
      rw [follow, hfetch]
      by_cases hmore : limit < rest.length
      · have hindex : limit - 1 < rest.length := by omega
        have hcursor : (Page.of limit cursor shown rest).nextCursor =
            some (cursor rest[limit - 1]) := by
          simp [Page.of, hmore, List.getElem?_eq_getElem hindex]
        have hlast : rest[limit - 1] ∈ all := by
          rw [hall]
          exact List.mem_append_right done (List.getElem_mem hindex)
        have hserved := hserves.next _ hlast
        obtain ⟨above, habove⟩ := exists_eq_append_filter_lt h (kept rest[limit - 1])
        have hbehind := filter_lt_kept hall h hlimit hmore hkept
        have hshort : (all.filter fun b ↦ key b < kept rest[limit - 1]).length ≤
            (rest.drop limit).length := by
          rw [hbehind]
          exact List.length_filter_le _ _
        have hdrop : (rest.drop limit).length = rest.length - limit := List.length_drop
        obtain ⟨pages, hpages, hlength, hexact⟩ := ih (some (cursor rest[limit - 1])) habove hserved
          (by omega)
        refine ⟨Page.of limit cursor shown rest :: pages, ?_, ?_, ?_⟩
        · simp only [hcursor, hpages, Option.map_some]
        · rw [List.flatMap_cons, List.length_append]
          simp only [Page.of, List.length_map, List.length_take_of_le hmore.le]
          omega
        · rw [resumes_iff hlimit hmore, List.flatMap_cons]
          have hitems : (Page.of limit cursor shown rest).items = (rest.take limit).map shown := rfl
          have hrest : rest.map shown = (rest.take limit).map shown ++ (rest.drop limit).map shown := by
            rw [← List.map_append, List.take_append_drop]
          rw [hitems, hrest, List.append_cancel_left_eq]
          have hcons : rest.drop limit = rest[limit] :: rest.drop (limit + 1) :=
            List.drop_eq_getElem_cons hmore
          by_cases hresume : key rest[limit] < kept rest[limit - 1]
          · have hpairs : (rest.drop limit).Pairwise fun a b ↦ key b < key a :=
              (List.pairwise_append.mp (hall ▸ h)).2.1.sublist (List.drop_sublist limit rest)
            have hsame : (all.filter fun b ↦ key b < kept rest[limit - 1]) = rest.drop limit := by
              rw [hbehind, List.filter_eq_self]
              intro b hb
              rw [hcons] at hb hpairs
              rcases List.mem_cons.mp hb with rfl | hb
              · exact decide_eq_true hresume
              · exact decide_eq_true (((List.pairwise_cons.mp hpairs).1 b hb).trans hresume)
            rw [hsame] at hexact
            rw [hexact]
            exact (and_iff_right hresume).symm
          · refine ⟨fun heq ↦ absurd (congrArg List.length heq) (Nat.ne_of_lt ?_),
              fun hresumes ↦ absurd hresumes.1 hresume⟩
            rw [List.length_map]
            refine hlength.trans_lt ?_
            rw [hbehind, hcons, List.filter_cons_of_neg (by simpa using hresume)]
            exact Nat.lt_succ_of_le (List.length_filter_le _ _)
      · have hcursor : (Page.of limit cursor shown rest).nextCursor = none := by
          simp [Page.of, hmore]
        have hitems : (Page.of limit cursor shown rest).items = rest.map shown := by
          simp [Page.of, List.take_of_length_le (not_lt.mp hmore)]
        refine ⟨[Page.of limit cursor shown rest], by simp only [hcursor], ?_, ?_⟩
        · simp [hitems]
        · rw [List.flatMap_singleton, hitems]
          exact iff_of_true rfl (resumes_of_length_le (not_lt.mp hmore))

/-- Following the cursors from the start serves every row once, in order, if
and only if every page boundary resumes where it stopped. -/
theorem ServesBelow.follow_iff (hserves : ServesBelow fetch limit cursor shown key kept all)
    (h : all.Pairwise fun a b ↦ key b < key a) (hlimit : 0 < limit)
    (hkept : ∀ a, kept a ≤ key a) :
    (∃ fuel pages, follow fetch fuel none = some pages ∧
      pages.flatMap Page.items = all.map shown) ↔ Resumes key kept limit all := by
  obtain ⟨pages, hpages, _, hexact⟩ := hserves.follow_rest h hlimit hkept none
    (List.nil_append all).symm hserves.first (Nat.lt_succ_self all.length)
  constructor
  · rintro ⟨fuel, pages', hpages', hitems⟩
    have hlong := follow_le hpages (Nat.le_max_left (all.length + 1) fuel)
    have hlong' := follow_le hpages' (Nat.le_max_right (all.length + 1) fuel)
    obtain rfl := Option.some.inj (hlong.symm.trans hlong')
    exact hexact.mp hitems
  · intro hresumes
    exact ⟨_, pages, hpages, hexact.mpr hresumes⟩

end Positions

end Histae.Paging
