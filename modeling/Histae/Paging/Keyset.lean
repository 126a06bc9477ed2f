import Mathlib

/-!
# Keyset pagination

Rows are served newest first, `limit` at a time. A page carries a cursor to
its last row as long as more rows follow, and the next page starts strictly
after that row. The facts below say what the sorted list is, that a filter
and two limited branches commute with it, and that following the cursors
visits every row once.
-/

namespace Histae.Paging

section Order

variable {α κ : Type} [LinearOrder κ] (key : α → κ)

/-- `ORDER BY key DESC`. -/
def newestFirst (rows : List α) : List α := rows.insertionSort fun a b ↦ key b ≤ key a

variable {key} {rows rows' : List α} {n : ℕ}

theorem perm_newestFirst (rows : List α) : (newestFirst key rows).Perm rows :=
  List.perm_insertionSort _ rows

@[simp] theorem mem_newestFirst {a : α} : a ∈ newestFirst key rows ↔ a ∈ rows :=
  (perm_newestFirst rows).mem_iff

theorem pairwise_newestFirst (h : (rows.map key).Nodup) :
    (newestFirst key rows).Pairwise fun a b ↦ key b < key a := by
  have htotal : Std.Total fun a b : α ↦ key b ≤ key a := ⟨fun a b ↦ le_total (key b) (key a)⟩
  have htrans : IsTrans α fun a b ↦ key b ≤ key a := ⟨fun _ _ _ hab hbc ↦ hbc.trans hab⟩
  have hsorted : (newestFirst key rows).Pairwise fun a b ↦ key b ≤ key a :=
    List.pairwise_insertionSort _ rows
  have hnodup : ((newestFirst key rows).map key).Nodup :=
    ((perm_newestFirst rows).map key).nodup_iff.mpr h
  have hne : (newestFirst key rows).Pairwise fun a b ↦ key a ≠ key b := List.pairwise_map.mp hnodup
  exact hsorted.imp₂ (fun a b hle hne ↦ lt_of_le_of_ne hle (Ne.symm hne)) hne

/-- A strictly descending list is determined by its rows. -/
theorem eq_newestFirst (hperm : rows'.Perm rows) (h : rows'.Pairwise fun a b ↦ key b < key a) :
    rows' = newestFirst key rows := by
  have hnodup : (rows.map key).Nodup := by
    rw [← (hperm.map key).nodup_iff]
    exact List.pairwise_map.mpr (h.imp fun hlt ↦ hlt.ne')
  refine List.Perm.eq_of_pairwise ?_ h (pairwise_newestFirst hnodup)
    (hperm.trans (perm_newestFirst rows).symm)
  intro a b _ _ hba hab
  exact absurd hab hba.asymm

theorem newestFirst_filter (h : (rows.map key).Nodup) (p : α → Bool) :
    newestFirst key (rows.filter p) = (newestFirst key rows).filter p :=
  (eq_newestFirst ((perm_newestFirst rows).filter p) ((pairwise_newestFirst h).filter p)).symm

theorem newestFirst_idem (h : rows.Pairwise fun a b ↦ key b < key a) :
    newestFirst key rows = rows := (eq_newestFirst (List.Perm.refl rows) h).symm

theorem take_filter_of_forall_take {l : List α} {p : α → Bool} (h : ∀ a ∈ l.take n, p a = true) :
    (l.filter p).take n = l.take n := by
  have hkept : (l.take n).filter p = l.take n := List.filter_eq_self.mpr h
  rcases Nat.lt_or_ge n l.length with hlt | hge
  · have hlength : (l.take n).length = n := List.length_take_of_le hlt.le
    calc (l.filter p).take n
        = ((l.take n ++ l.drop n).filter p).take n := by rw [List.take_append_drop]
      _ = (l.take n ++ (l.drop n).filter p).take n := by rw [List.filter_append, hkept]
      _ = l.take n := List.take_left' hlength
  · rw [List.take_of_length_le hge] at hkept ⊢
    rw [hkept, List.take_of_length_le hge]

theorem mem_take_filter {l : List α} {p : α → Bool} {a : α} (ha : a ∈ l.take n) (hp : p a = true) :
    a ∈ (l.filter p).take n := by
  have hsplit : l.filter p = (l.take n).filter p ++ (l.drop n).filter p := by
    rw [← List.filter_append, List.take_append_drop]
  have hlength : ((l.take n).filter p).length ≤ n :=
    (List.length_filter_le p _).trans (List.length_take_le n l)
  rw [hsplit, List.take_append, List.take_of_length_le hlength]
  exact List.mem_append_left _ (List.mem_filter.mpr ⟨ha, hp⟩)

theorem filter_mem_left [DecidableEq α] {left right : List α} (h : (left ++ right).Nodup) :
    ((left ++ right).filter fun a ↦ a ∈ left) = left := by
  obtain ⟨_, _, hdisjoint⟩ := List.nodup_append.mp h
  have hleft : (left.filter fun a ↦ a ∈ left) = left :=
    List.filter_eq_self.mpr fun a ha ↦ decide_eq_true ha
  have hright : (right.filter fun a ↦ a ∈ left) = [] := by
    rw [List.filter_eq_nil_iff]
    intro a ha hmem
    exact hdisjoint a (of_decide_eq_true hmem) a ha rfl
  rw [List.filter_append, hleft, hright, List.append_nil]

/-- The first `n` rows of a union are found among the first `n` rows of each
of its branches. -/
theorem take_newestFirst_append {left right : List α} (h : ((left ++ right).map key).Nodup) :
    (newestFirst key ((newestFirst key left).take n ++ (newestFirst key right).take n)).take n =
      (newestFirst key (left ++ right)).take n := by
  classical
  set all := newestFirst key (left ++ right) with hall
  have hstrict : all.Pairwise fun a b ↦ key b < key a := pairwise_newestFirst h
  have hnodup : all.Nodup := hstrict.imp fun hlt heq ↦ hlt.ne (congrArg key heq.symm)
  have hrows : (left ++ right).Nodup := h.of_map key
  have hleft : newestFirst key left = all.filter fun a ↦ a ∈ left := by
    rw [hall, ← newestFirst_filter h, filter_mem_left hrows]
  have hright : newestFirst key right = all.filter fun a ↦ a ∈ right := by
    have hswap := (List.perm_append_comm : (right ++ left).Perm (left ++ right))
    have hkeys : ((right ++ left).map key).Nodup := (hswap.map key).nodup_iff.mpr h
    have hsame : all = newestFirst key (right ++ left) :=
      eq_newestFirst ((perm_newestFirst _).trans hswap.symm) hstrict
    rw [hsame, ← newestFirst_filter hkeys, filter_mem_left (hswap.nodup_iff.mpr hrows)]
  set merged := (newestFirst key left).take n ++ (newestFirst key right).take n with hmerged
  have hmem : ∀ a ∈ merged, a ∈ all := by
    intro a ha
    rw [hall, mem_newestFirst, List.mem_append]
    exact (List.mem_append.mp ha).imp (fun ha ↦ mem_newestFirst.mp (List.mem_of_mem_take ha))
      fun ha ↦ mem_newestFirst.mp (List.mem_of_mem_take ha)
  have hmergedNodup : merged.Nodup := by
    have hsub : merged.Sublist (newestFirst key left ++ newestFirst key right) :=
      (List.take_sublist n _).append (List.take_sublist n _)
    have hperm : (newestFirst key left ++ newestFirst key right).Perm (left ++ right) :=
      (perm_newestFirst left).append (perm_newestFirst right)
    exact (hperm.nodup_iff.mpr hrows).sublist hsub
  have hperm : (all.filter fun a ↦ a ∈ merged).Perm merged := by
    rw [List.perm_ext_iff_of_nodup (hnodup.filter _) hmergedNodup]
    intro a
    rw [List.mem_filter, decide_eq_true_iff]
    exact and_iff_right_of_imp (hmem a)
  rw [← eq_newestFirst hperm (hstrict.filter _)]
  apply take_filter_of_forall_take
  intro a ha
  rw [decide_eq_true_iff, hmerged, List.mem_append, hleft, hright]
  rcases List.mem_append.mp (mem_newestFirst.mp (List.mem_of_mem_take ha)) with h | h
  · exact Or.inl (mem_take_filter ha (decide_eq_true h))
  · exact Or.inr (mem_take_filter ha (decide_eq_true h))

/-- The rows strictly after a row of a descending list are those below it. -/
theorem filter_lt_of_split {before after : List α} {a : α}
    (h : (before ++ a :: after).Pairwise fun a b ↦ key b < key a) :
    (before ++ a :: after).filter (fun b ↦ key b < key a) = after := by
  obtain ⟨_, htail, hcross⟩ := List.pairwise_append.mp h
  have hbefore : before.filter (fun b ↦ decide (key b < key a)) = [] := by
    rw [List.filter_eq_nil_iff]
    intro b hb hlt
    exact (hcross b hb a List.mem_cons_self).asymm (of_decide_eq_true hlt)
  have hafter : after.filter (fun b ↦ decide (key b < key a)) = after := by
    rw [List.filter_eq_self]
    intro b hb
    exact decide_eq_true ((List.pairwise_cons.mp htail).1 b hb)
  simp [hbefore, hafter]

/-- The rows below the last row served so far are the rows still to serve. -/
theorem filter_below_last {all done rest : List α} (h : all.Pairwise fun a b ↦ key b < key a)
    (hall : all = done ++ rest) :
    (all.filter fun b ↦ (done.getLast?.map key).all fun last ↦ key b < last) = rest := by
  subst hall
  rcases List.eq_nil_or_concat done with rfl | ⟨before, a, rfl⟩
  · simp
  · rw [List.concat_eq_append, List.append_assoc, List.singleton_append] at h
    simpa using filter_lt_of_split h

end Order

section Pages

variable {α β γ ε : Type}

structure Page (γ β : Type) where
  items : List β
  nextCursor : Option γ
  deriving DecidableEq

/-- The page that serves `rest` from its start: one row more than `limit` is
read to learn whether rows follow. -/
def Page.of (limit : ℕ) (cursor : α → γ) (shown : α → β) (rest : List α) : Page γ β where
  items := (rest.take limit).map shown
  nextCursor := if limit < rest.length then (rest[limit - 1]?).map cursor else none

/-- Requests the pages one after the other until no cursor is returned;
`none` when a request fails or `fuel` requests did not suffice. -/
def follow (fetch : Option γ → Except ε (Page γ β)) : ℕ → Option γ → Option (List (Page γ β))
  | 0, _ => none
  | fuel + 1, cursor =>
      match fetch cursor with
      | .error _ => none
      | .ok page =>
          match page.nextCursor with
          | none => some [page]
          | some next => (follow fetch fuel (some next)).map (page :: ·)

/-- Every request answers the page of the rows that follow its cursor. -/
def Serves (fetch : Option γ → Except ε (Page γ β)) (limit : ℕ) (cursor : α → γ)
    (shown : α → β) (all : List α) : Prop :=
  ∀ done rest, all = done ++ rest →
    fetch (done.getLast?.map cursor) = .ok (Page.of limit cursor shown rest)

variable {fetch : Option γ → Except ε (Page γ β)} {limit : ℕ} {cursor : α → γ}
  {shown : α → β} {all : List α}

theorem Serves.follow_rest (h : Serves fetch limit cursor shown all) (hlimit : 0 < limit) (fuel : ℕ)
    (done rest : List α) (hall : all = done ++ rest) (hfuel : rest.length < fuel) :
    ∃ pages, follow fetch fuel (done.getLast?.map cursor) = some pages ∧
      pages.flatMap Page.items = rest.map shown := by
  induction fuel generalizing done rest with
  | zero => omega
  | succ fuel ih =>
      rw [follow, h done rest hall]
      by_cases hmore : limit < rest.length
      · have hindex : limit - 1 < rest.length := by omega
        have hcursor : (Page.of limit cursor shown rest).nextCursor = some (cursor rest[limit - 1]) := by
          simp [Page.of, hmore, List.getElem?_eq_getElem hindex]
        have hlast : (done ++ rest.take limit).getLast? = some rest[limit - 1] := by
          have hne : rest.take limit ≠ [] := by
            apply List.ne_nil_of_length_pos
            rw [List.length_take_of_le hmore.le]
            exact hlimit
          rw [List.getLast?_append_of_ne_nil _ hne, List.getLast?_take]
          simp [Nat.ne_of_gt hlimit, List.getElem?_eq_getElem hindex]
        have hshorter : (rest.drop limit).length < fuel := by
          rw [List.length_drop]
          omega
        obtain ⟨pages, hpages, hitems⟩ := ih (done ++ rest.take limit) (rest.drop limit)
          (by rw [hall, List.append_assoc, List.take_append_drop]) hshorter
        rw [hlast] at hpages
        refine ⟨Page.of limit cursor shown rest :: pages, ?_, ?_⟩
        · simp only [hcursor]
          rw [show some (cursor rest[limit - 1]) = Option.map cursor (some rest[limit - 1]) from rfl,
            hpages]
          rfl
        · rw [List.flatMap_cons, hitems, Page.of, ← List.map_append, List.take_append_drop]
      · have hcursor : (Page.of limit cursor shown rest).nextCursor = none := by
          simp [Page.of, hmore]
        refine ⟨[Page.of limit cursor shown rest], by simp only [hcursor], ?_⟩
        simp [Page.of, List.take_of_length_le (not_lt.mp hmore)]

/-- Following the cursors from the start visits every row once, in order. -/
theorem Serves.follow (h : Serves fetch limit cursor shown all) (hlimit : 0 < limit) {fuel : ℕ}
    (hfuel : all.length < fuel) :
    ∃ pages, Paging.follow fetch fuel none = some pages ∧ pages.flatMap Page.items = all.map shown :=
  h.follow_rest hlimit fuel [] all rfl hfuel

/-- A cursor that the next request rejects ends the visit, however many
requests are allowed. -/
theorem follow_eq_none_of_error {page : Page γ β} {next : γ} {error : ε}
    (hfirst : fetch none = .ok page) (hcursor : page.nextCursor = some next)
    (hnext : fetch (some next) = .error error) (fuel : ℕ) : Paging.follow fetch fuel none = none := by
  cases fuel with
  | zero => rfl
  | succ fuel =>
      simp only [Paging.follow, hfirst, hcursor]
      cases fuel with
      | zero => rfl
      | succ fuel => simp only [Paging.follow, hnext, Option.map_none]

end Pages

end Histae.Paging
