import Mathlib

/-!
# Fixed windows

Calls come at instants that do not decrease. The first call opens a window of
a given width, a call inside the open window is counted in it, and the first
call after its end opens the next one. A call is admitted while its window
holds no more than `limit` calls.

Windows do not overlap, and every interval no wider than a window meets at
most two of them. `room` is how many calls of the interval can still be
admitted, and no call ever increases it.
-/

namespace Histae.Systems

structure Window where
  start : ℕ
  count : ℕ
  deriving DecidableEq

/-- The window of a call at `t`. -/
def Window.next (width : ℕ) (open_ : Option Window) (t : ℕ) : Window :=
  match open_ with
  | none => ⟨t, 1⟩
  | some w => if w.start + width ≤ t then ⟨t, 1⟩ else ⟨w.start, w.count + 1⟩

/-- The window of the last of some calls. -/
def lastWindow (width : ℕ) (instants : List ℕ) : Option Window :=
  instants.foldl (fun open_ t ↦ some (Window.next width open_ t)) none

section Single

variable {width t : ℕ} {instants : List ℕ} {w : Window}

@[simp] theorem lastWindow_nil : lastWindow width [] = none := rfl

@[simp] theorem lastWindow_concat :
    lastWindow width (instants ++ [t]) = some (Window.next width (lastWindow width instants) t) := by
  rw [lastWindow, List.foldl_append]
  rfl

theorem Window.start_next_le {open_ : Option Window} (h : ∀ w ∈ open_, w.start ≤ t) :
    (Window.next width open_ t).start ≤ t := by
  cases open_ with
  | none => exact le_refl t
  | some w =>
      rw [Window.next]
      split_ifs with hend
      · exact le_refl t
      · exact h w rfl

theorem Window.lt_end_next (hwidth : 0 < width) {open_ : Option Window} :
    t < (Window.next width open_ t).start + width := by
  cases open_ with
  | none => exact Nat.lt_add_of_pos_right hwidth
  | some w =>
      rw [Window.next]
      split_ifs with hend
      · exact Nat.lt_add_of_pos_right hwidth
      · exact not_le.mp hend

theorem Window.count_next_le {open_ : Option Window} {n : ℕ} (h : ∀ w ∈ open_, w.count ≤ n) :
    (Window.next width open_ t).count ≤ n + 1 := by
  cases open_ with
  | none => exact Nat.le_add_left 1 n
  | some w =>
      rw [Window.next]
      have hcount := h w rfl
      split_ifs with hend
      · exact Nat.le_add_left 1 n
      · exact Nat.succ_le_succ hcount

theorem lastWindow_start_mem (h : lastWindow width instants = some w) : w.start ∈ instants := by
  induction instants using List.reverseRecOn generalizing w with
  | nil => cases h
  | append_singleton before t ih =>
      rw [lastWindow_concat, Option.some.injEq] at h
      cases hlast : lastWindow width before with
      | none =>
          rw [hlast] at h
          subst h
          exact List.mem_append_right _ (List.mem_singleton_self t)
      | some open_ =>
          have hmem : open_.start ∈ before := ih hlast
          rw [hlast, Window.next] at h
          split_ifs at h with hend
          · subst h
            exact List.mem_append_right _ (List.mem_singleton_self t)
          · subst h
            exact List.mem_append_left _ hmem

theorem lastWindow_count_le (h : lastWindow width instants = some w) :
    w.count ≤ instants.length := by
  induction instants using List.reverseRecOn generalizing w with
  | nil => cases h
  | append_singleton before t ih =>
      rw [lastWindow_concat, Option.some.injEq] at h
      subst h
      rw [List.length_append, List.length_singleton]
      exact Window.count_next_le fun w hw ↦ ih hw

end Single

section Interval

variable (width limit a b : ℕ)

/-- The calls of a run, each with whether it is admitted. -/
def admissions : Option Window → List ℕ → List (ℕ × Bool)
  | _, [] => []
  | open_, t :: rest =>
      let w := Window.next width open_ t
      (t, decide (w.count ≤ limit)) :: admissions (some w) rest

/-- The calls between `a` and `b` that can still be admitted. -/
def room : Option Window → ℕ
  | none => 2 * limit
  | some w =>
      if b < w.start then 0
      else if b < w.start + width then limit - w.count
      else if a < w.start + width then limit - w.count + limit
      else 2 * limit

def admittedIn (x : ℕ × Bool) : Bool := x.2 && decide (a ≤ x.1) && decide (x.1 ≤ b)

variable {width limit a b}

theorem room_next {open_ : Option Window} {t : ℕ} (hwidth : 0 < width) (hb : b ≤ a + width)
    (hstart : ∀ w ∈ open_, w.start ≤ t) :
    room width limit a b (some (Window.next width open_ t)) +
        (if admittedIn a b (t, decide ((Window.next width open_ t).count ≤ limit)) then 1 else 0) ≤
      room width limit a b open_ := by
  cases open_ with
  | none =>
      simp only [Window.next, room, admittedIn, Bool.and_eq_true, decide_eq_true_eq]
      grind
  | some w =>
      have hw := hstart w rfl
      by_cases hend : w.start + width ≤ t
      · simp only [Window.next, if_pos hend, room, admittedIn, Bool.and_eq_true, decide_eq_true_eq]
        grind
      · simp only [Window.next, if_neg hend, room, admittedIn, Bool.and_eq_true, decide_eq_true_eq]
        grind

theorem countP_admissions_le_room (hwidth : 0 < width) (hb : b ≤ a + width) {instants : List ℕ}
    (hsorted : instants.Pairwise (· ≤ ·)) {open_ : Option Window}
    (hstart : ∀ w ∈ open_, ∀ t ∈ instants, w.start ≤ t) :
    (admissions width limit open_ instants).countP (admittedIn a b) ≤ room width limit a b open_ := by
  induction instants generalizing open_ with
  | nil => exact Nat.zero_le _
  | cons t rest ih =>
      obtain ⟨hhead, htail⟩ := List.pairwise_cons.mp hsorted
      have hfirst : ∀ w ∈ open_, w.start ≤ t := fun w hw ↦ hstart w hw t List.mem_cons_self
      have hnext : ∀ w ∈ some (Window.next width open_ t), ∀ u ∈ rest, w.start ≤ u := by
        intro w hw u hu
        obtain rfl := Option.mem_some_iff.mp hw
        exact (Window.start_next_le hfirst).trans (hhead u hu)
      have hrest := ih htail hnext
      have hstep : room width limit a b (some (Window.next width open_ t)) +
          (if admittedIn a b (t, decide ((Window.next width open_ t).count ≤ limit)) then 1 else 0) ≤
            room width limit a b open_ := room_next hwidth hb hfirst
      rw [admissions, List.countP_cons]
      omega

/-- An interval no wider than a window holds at most twice the limit. -/
theorem countP_admissions_le (hwidth : 0 < width) (hb : b ≤ a + width) {instants : List ℕ}
    (hsorted : instants.Pairwise (· ≤ ·)) :
    (admissions width limit none instants).countP (admittedIn a b) ≤ 2 * limit :=
  countP_admissions_le_room hwidth hb hsorted fun _ hw ↦ nomatch hw

end Interval

end Histae.Systems
