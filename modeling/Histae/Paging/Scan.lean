import Mathlib
import Histae.Paging.Keyset

/-!
# Pages cut out of a scan

A request scans some rows from where its cursor stands and shows those it
wants to show. It may stop anywhere; its cursor must lead to the rows behind
the last one accounted for, and must have moved. Under these rules, following
the cursors shows every wanted row once, in the order of the scan.
-/

namespace Histae.Paging

variable {α β γ ε : Type}

section Follow

/-- Numbered requests, each with the cursor of the one before, until no cursor
is returned. -/
def followFrom (fetch : ℕ → Option γ → Except ε (Page γ β)) :
    ℕ → ℕ → Option γ → Option (List (Page γ β))
  | 0, _, _ => none
  | fuel + 1, i, cursor =>
      match fetch i cursor with
      | .error _ => none
      | .ok page =>
          match page.nextCursor with
          | none => some [page]
          | some next => (followFrom fetch fuel (i + 1) (some next)).map (page :: ·)

/-- What one request does to the rows that its cursor leads to. -/
structure Cuts (Leads : ℕ → Option γ → List α → Prop) (visible : α → Bool) (shown : α → β)
    (i : ℕ) (rest : List α) (page : Page γ β) (seen rest' : List α) : Prop where
  split : rest = seen ++ rest'
  items : page.items = (seen.filter visible).map shown
  last : page.nextCursor = none → rest' = []
  moves : ∀ next, page.nextCursor = some next → seen ≠ [] ∧ Leads (i + 1) (some next) rest'

variable {fetch : ℕ → Option γ → Except ε (Page γ β)} {Leads : ℕ → Option γ → List α → Prop}
  {visible : α → Bool} {shown : α → β}

theorem followFrom_eq (hstep : ∀ i c rest, Leads i c rest → ∃ page seen rest',
      fetch i c = .ok page ∧ Cuts Leads visible shown i rest page seen rest')
    {fuel i : ℕ} {c : Option γ} {rest : List α} (hleads : Leads i c rest)
    (hfuel : rest.length < fuel) :
    ∃ pages, followFrom fetch fuel i c = some pages ∧
      pages.flatMap Page.items = (rest.filter visible).map shown := by
  induction fuel generalizing i c rest with
  | zero => omega
  | succ fuel ih =>
      obtain ⟨page, seen, rest', hfetch, hcuts⟩ := hstep i c rest hleads
      rw [followFrom, hfetch]
      cases hnext : page.nextCursor with
      | none =>
          refine ⟨[page], by simp only [hnext], ?_⟩
          rw [List.flatMap_singleton, hcuts.items, hcuts.split, hcuts.last hnext, List.append_nil]
      | some next =>
          obtain ⟨hmoved, hleads'⟩ := hcuts.moves next hnext
          have hpos := List.length_pos_of_ne_nil hmoved
          have hlength := congrArg List.length hcuts.split
          rw [List.length_append] at hlength
          obtain ⟨pages, hpages, hitems⟩ := ih hleads' (by omega)
          refine ⟨page :: pages, by simp only [hnext, hpages, Option.map_some], ?_⟩
          rw [List.flatMap_cons, hcuts.items, hitems, hcuts.split, List.filter_append,
            List.map_append]

end Follow

section Split

variable {p : α → Bool} {rows : List α} {n : ℕ}

/-- The rows up to the `n`-th wanted one. -/
theorem exists_split_filter (hpos : 0 < n) (hle : n ≤ (rows.filter p).length) :
    ∃ seen rest, rows = seen ++ rest ∧ seen.filter p = (rows.filter p).take n ∧
      seen.getLast? = ((rows.filter p).take n).getLast? := by
  induction rows generalizing n with
  | nil =>
      rw [List.filter_nil, List.length_nil] at hle
      omega
  | cons a rows ih =>
      by_cases ha : p a = true
      · rw [List.filter_cons_of_pos ha] at hle ⊢
        obtain ⟨n, rfl⟩ := Nat.exists_eq_succ_of_ne_zero (Nat.ne_of_gt hpos)
        rw [List.length_cons, Nat.succ_le_succ_iff] at hle
        rcases Nat.eq_zero_or_pos n with rfl | hn
        · exact ⟨[a], rows, rfl, by simp [ha], by simp⟩
        · obtain ⟨seen, rest, hsplit, hfilter, hlast⟩ := ih hn hle
          refine ⟨a :: seen, rest, by rw [hsplit, List.cons_append], ?_, ?_⟩
          · rw [List.filter_cons_of_pos ha, hfilter, List.take_succ_cons]
          · have hne : ((rows.filter p).take n) ≠ [] := by
              apply List.ne_nil_of_length_pos
              rw [List.length_take_of_le hle]
              exact hn
            have hseen : seen ≠ [] := by
              rintro rfl
              exact hne hfilter.symm
            rw [List.take_succ_cons, List.getLast?_cons_of_ne_nil hseen,
              List.getLast?_cons_of_ne_nil hne, hlast]
      · rw [List.filter_cons_of_neg ha] at hle ⊢
        obtain ⟨seen, rest, hsplit, hfilter, hlast⟩ := ih hpos hle
        refine ⟨a :: seen, rest, by rw [hsplit, List.cons_append], ?_, ?_⟩
        · rw [List.filter_cons_of_neg ha, hfilter]
        · have hseen : seen ≠ [] := by
            rintro rfl
            have hzero := congrArg List.length hfilter
            rw [List.filter_nil, List.length_take_of_le hle, List.length_nil] at hzero
            omega
          rw [List.getLast?_cons_of_ne_nil hseen, hlast]

end Split

section Ascending

variable {κ : Type} [LinearOrder κ] {key : α → κ} {all done rest : List α}

/-- The rows above a position end an ascending list. -/
theorem exists_eq_append_filter_gt (h : all.Pairwise fun a b ↦ key a < key b) (bound : κ) :
    ∃ before, all = before ++ all.filter fun b ↦ bound < key b := by
  induction all with
  | nil => exact ⟨[], rfl⟩
  | cons a all ih =>
      obtain ⟨hhead, htail⟩ := List.pairwise_cons.mp h
      by_cases hlt : bound < key a
      · have hall : (a :: all).filter (fun b ↦ decide (bound < key b)) = a :: all := by
          rw [List.filter_eq_self]
          intro b hb
          rcases List.mem_cons.mp hb with rfl | hb
          · exact decide_eq_true hlt
          · exact decide_eq_true (hlt.trans (hhead b hb))
        exact ⟨[], by rw [hall, List.nil_append]⟩
      · obtain ⟨before, hbefore⟩ := ih htail
        refine ⟨a :: before, ?_⟩
        rw [List.filter_cons_of_neg (by simpa using hlt), List.cons_append, ← hbefore]

/-- The rows above the last row served are the rows still to serve. -/
theorem filter_above_last (h : all.Pairwise fun a b ↦ key a < key b) (hall : all = done ++ rest)
    {last : α} (hlast : done.getLast? = some last) :
    (all.filter fun b ↦ key last < key b) = rest := by
  obtain ⟨before, rfl⟩ := List.getLast?_eq_some_iff.mp hlast
  subst hall
  obtain ⟨hdone, _, hcross⟩ := List.pairwise_append.mp h
  have habove : (before ++ [last]).filter (fun b ↦ decide (key last < key b)) = [] := by
    rw [List.filter_eq_nil_iff]
    intro b hb hlt
    have hlt := of_decide_eq_true hlt
    rcases List.mem_append.mp hb with hb | hb
    · exact lt_asymm hlt ((List.pairwise_append.mp hdone).2.2 b hb last (List.mem_singleton_self _))
    · obtain rfl := List.mem_singleton.mp hb
      exact lt_irrefl _ hlt
  have hbelow : rest.filter (fun b ↦ decide (key last < key b)) = rest := by
    rw [List.filter_eq_self]
    intro b hb
    exact decide_eq_true (hcross last (List.mem_append_right _ (List.mem_singleton_self _)) b hb)
  rw [List.filter_append, habove, hbelow, List.nil_append]

/-- In an ascending list the rows up to a bound come first. -/
theorem take_filter_le {μ : Type} [LinearOrder μ] {rank : α → μ} {bound : μ} {n : ℕ}
    (h : all.Pairwise fun a b ↦ rank a ≤ rank b)
    (hn : n ≤ (all.filter fun a ↦ rank a ≤ bound).length) :
    (all.filter fun a ↦ rank a ≤ bound).take n = all.take n := by
  induction all generalizing n with
  | nil => rfl
  | cons a all ih =>
      obtain ⟨hhead, htail⟩ := List.pairwise_cons.mp h
      by_cases ha : rank a ≤ bound
      · rw [List.filter_cons_of_pos (by simpa using ha)] at hn ⊢
        cases n with
        | zero => rfl
        | succ n =>
            rw [List.length_cons, Nat.succ_le_succ_iff] at hn
            rw [List.take_succ_cons, List.take_succ_cons, ih htail hn]
      · have hnone : (a :: all).filter (fun b ↦ decide (rank b ≤ bound)) = [] := by
          rw [List.filter_eq_nil_iff]
          intro b hb hle
          rcases List.mem_cons.mp hb with rfl | hb
          · exact ha (of_decide_eq_true hle)
          · exact ha ((hhead b hb).trans (of_decide_eq_true hle))
        rw [hnone, List.length_nil, Nat.le_zero] at hn
        rw [hn, List.take_zero, List.take_zero]

end Ascending

end Histae.Paging
