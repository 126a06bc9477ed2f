import Histae.Paging.Scan

/-!
# A table read page by page

A loop reads the rows of a query in ascending order, some at a time. After a
full page it remembers a cursor, made of the last row, and the next page has
the rows above what it reads out of the cursor. Keys of the order are distinct,
and a cursor is read as the key of the row it was made of.
-/

namespace Histae.Paging

section Order

variable {α κ : Type} [LinearOrder κ] {key : α → κ} {rows : List α}

/-- `ORDER BY key`. -/
def oldestFirst (key : α → κ) (rows : List α) : List α :=
  newestFirst (fun a ↦ OrderDual.toDual (key a)) rows

theorem perm_oldestFirst : (oldestFirst key rows).Perm rows := perm_newestFirst rows

@[simp] theorem mem_oldestFirst {a : α} : a ∈ oldestFirst key rows ↔ a ∈ rows := mem_newestFirst

theorem nodup_toDual (h : (rows.map key).Nodup) :
    (rows.map fun a ↦ OrderDual.toDual (key a)).Nodup := by
  have hcompose : (rows.map fun a ↦ OrderDual.toDual (key a)) =
      (rows.map key).map OrderDual.toDual := (List.map_map).symm
  rw [hcompose]
  exact h.map OrderDual.toDual.injective

theorem pairwise_oldestFirst (h : (rows.map key).Nodup) :
    (oldestFirst key rows).Pairwise fun a b ↦ key a < key b := pairwise_newestFirst (nodup_toDual h)

theorem oldestFirst_filter (h : (rows.map key).Nodup) (p : α → Bool) :
    oldestFirst key (rows.filter p) = (oldestFirst key rows).filter p :=
  newestFirst_filter (nodup_toDual h) p

end Order

/-- A query that is read page by page: the rows that it selects, the key of its
order, and the cursor that stands for a row. -/
structure PagedQuery (α κ γ : Type) [LinearOrder κ] where
  rows : List α
  key : α → κ
  cursor : α → γ
  read : γ → Option κ
  nodup : (rows.map key).Nodup
  read_cursor : ∀ a ∈ rows, read (cursor a) = some (key a)

namespace PagedQuery

variable {α κ γ : Type} [LinearOrder κ] (q : PagedQuery α κ γ)

/-- All the rows, in the order of the query. -/
def ordered : List α := oldestFirst q.key q.rows

/-- The first `limit` rows above the cursor, unless the cursor cannot be read. -/
def page (cursor : Option γ) (limit : ℕ) : Option (List α) :=
  match cursor with
  | none => some (q.ordered.take limit)
  | some c => (q.read c).map fun above ↦
      (oldestFirst q.key (q.rows.filter fun a ↦ above < q.key a)).take limit

variable {q}

/-- A page behind the rows read so far starts where they end. -/
theorem page_eq {done rest : List α} (h : q.ordered = done ++ rest) (limit : ℕ) :
    q.page (done.getLast?.map q.cursor) limit = some (rest.take limit) := by
  have hsorted : q.ordered.Pairwise fun a b ↦ q.key a < q.key b := pairwise_oldestFirst q.nodup
  cases hlast : done.getLast? with
  | none =>
      rw [List.getLast?_eq_none_iff] at hlast
      rw [Option.map_none, page, h, hlast, List.nil_append]
  | some last =>
      have hordered : last ∈ oldestFirst q.key q.rows := by
        have happend : last ∈ done ++ rest := List.mem_append_left rest (List.mem_of_getLast? hlast)
        rw [← h] at happend
        exact happend
      have hmem : last ∈ q.rows := mem_oldestFirst.mp hordered
      rw [Option.map_some, page, q.read_cursor last hmem, Option.map_some,
        oldestFirst_filter q.nodup]
      exact congrArg (fun rows ↦ some (rows.take limit)) (filter_above_last hsorted h hlast)

end PagedQuery

end Histae.Paging
