import Mathlib

/-!
# Runs of a labelled system

A system says which actions a state allows and to which state each of them
leads. A run is a list of actions, each allowed where it is taken. The rules
below turn a fact about one step into a fact about every run: invariants,
quantities that each step changes by a known amount, and the step that
established a property which has held ever since.
-/

namespace Histae.Systems

variable {σ α : Type}

structure System (σ α : Type) where
  Enabled : σ → α → Prop
  next : σ → α → σ

namespace System

variable (S : System σ α)

def exec : σ → List α → σ := List.foldl S.next

def Valid : σ → List α → Prop
  | _, [] => True
  | s, a :: as => S.Enabled s a ∧ Valid (S.next s a) as

instance decidableValid [∀ s a, Decidable (S.Enabled s a)] :
    ∀ s as, Decidable (S.Valid s as)
  | _, [] => .isTrue trivial
  | s, a :: as =>
      have := decidableValid (S.next s a) as
      inferInstanceAs (Decidable (S.Enabled s a ∧ S.Valid (S.next s a) as))

/-- Every step of a run satisfies a condition in the state it is taken. -/
def Along (C : σ → α → Prop) : σ → List α → Prop
  | _, [] => True
  | s, a :: as => C s a ∧ Along C (S.next s a) as

instance decidableAlong (C : σ → α → Prop) [∀ s a, Decidable (C s a)] :
    ∀ s as, Decidable (S.Along C s as)
  | _, [] => .isTrue trivial
  | s, a :: as =>
      have := decidableAlong C (S.next s a) as
      inferInstanceAs (Decidable (C s a ∧ S.Along C (S.next s a) as))

/-- The system whose steps all satisfy a condition. -/
def restrict (C : σ → α → Prop) : System σ α where
  Enabled s a := S.Enabled s a ∧ C s a
  next := S.next

instance (C : σ → α → Prop) [∀ s a, Decidable (S.Enabled s a)] [∀ s a, Decidable (C s a)]
    (s : σ) (a : α) : Decidable ((S.restrict C).Enabled s a) :=
  inferInstanceAs (Decidable (S.Enabled s a ∧ C s a))

def Reachable (init : σ → Prop) (s : σ) : Prop :=
  ∃ s₀ as, init s₀ ∧ S.Valid s₀ as ∧ S.exec s₀ as = s

/-- The total of a quantity that each step of a run contributes. -/
def tally (f : σ → α → ℕ) : σ → List α → ℕ
  | _, [] => 0
  | s, a :: as => f s a + tally f (S.next s a) as

variable {S} {s : σ} {as bs : List α}

@[simp] theorem exec_nil : S.exec s [] = s := rfl

@[simp] theorem exec_cons (a : α) : S.exec s (a :: as) = S.exec (S.next s a) as := rfl

theorem exec_append : S.exec s (as ++ bs) = S.exec (S.exec s as) bs := List.foldl_append

theorem exec_concat (a : α) : S.exec s (as ++ [a]) = S.next (S.exec s as) a := by
  simp [exec_append]

theorem valid_append :
    S.Valid s (as ++ bs) ↔ S.Valid s as ∧ S.Valid (S.exec s as) bs := by
  induction as generalizing s with
  | nil => simp [Valid]
  | cons a as ih =>
      simp only [List.cons_append, Valid, exec_cons]
      rw [ih, and_assoc]

theorem Valid.of_prefix (h : S.Valid s bs) (hpre : as <+: bs) : S.Valid s as := by
  obtain ⟨rest, rfl⟩ := hpre
  exact (valid_append.mp h).1

theorem Valid.enabled {pre post : List α} {a : α} (h : S.Valid s (pre ++ a :: post)) :
    S.Enabled (S.exec s pre) a := (valid_append.mp h).2.1

/-- An invariant of every allowed step holds at the end of a run. -/
theorem Valid.invariant {I : σ → Prop} (h : S.Valid s as) (hs : I s)
    (hstep : ∀ s a, I s → S.Enabled s a → I (S.next s a)) : I (S.exec s as) := by
  induction as generalizing s with
  | nil => exact hs
  | cons a as ih => exact ih h.2 (hstep s a hs h.1)

theorem along_append {C : σ → α → Prop} :
    S.Along C s (as ++ bs) ↔ S.Along C s as ∧ S.Along C (S.exec s as) bs := by
  induction as generalizing s with
  | nil => simp [Along]
  | cons a as ih =>
      simp only [List.cons_append, Along, exec_cons]
      rw [ih, and_assoc]

theorem Valid.of_restrict {C : σ → α → Prop} (h : (S.restrict C).Valid s as) :
    S.Valid s as ∧ S.Along C s as := by
  induction as generalizing s with
  | nil => exact ⟨trivial, trivial⟩
  | cons a as ih =>
      obtain ⟨hvalid, halong⟩ := ih h.2
      exact ⟨⟨h.1.1, hvalid⟩, h.1.2, halong⟩

theorem Along.and {C D : σ → α → Prop} (hC : S.Along C s as) (hD : S.Along D s as) :
    S.Along (fun s a ↦ C s a ∧ D s a) s as := by
  induction as generalizing s with
  | nil => trivial
  | cons a as ih => exact ⟨⟨hC.1, hD.1⟩, ih hC.2 hD.2⟩

/-- An invariant of the steps that satisfy a condition holds at the end of a
run whose steps all satisfy it. -/
theorem Valid.invariant_along {I : σ → Prop} {C : σ → α → Prop} (h : S.Valid s as)
    (hC : S.Along C s as) (hs : I s)
    (hstep : ∀ s a, I s → S.Enabled s a → C s a → I (S.next s a)) : I (S.exec s as) := by
  induction as generalizing s with
  | nil => exact hs
  | cons a as ih => exact ih h.2 hC.2 (hstep s a hs h.1 hC.1)

theorem Reachable.invariant {init I : σ → Prop} (h : S.Reachable init s)
    (hinit : ∀ s, init s → I s) (hstep : ∀ s a, I s → S.Enabled s a → I (S.next s a)) : I s := by
  obtain ⟨s₀, as, hs₀, hvalid, rfl⟩ := h
  exact hvalid.invariant (hinit s₀ hs₀) hstep

theorem Reachable.exec {init : σ → Prop} (h : S.Reachable init s) (hvalid : S.Valid s as) :
    S.Reachable init (S.exec s as) := by
  obtain ⟨s₀, bs, hs₀, hbs, rfl⟩ := h
  exact ⟨s₀, bs ++ as, hs₀, valid_append.mpr ⟨hbs, hvalid⟩, exec_append⟩

/-- A quantity that gains `f` and loses `g` at each step has, at the end of a
run, gained and lost their tallies. -/
theorem Valid.tally_balance {I : σ → Prop} {q : σ → ℕ} {f g : σ → α → ℕ} (h : S.Valid s as)
    (hs : I s) (hI : ∀ s a, I s → S.Enabled s a → I (S.next s a))
    (hq : ∀ s a, I s → S.Enabled s a → q (S.next s a) + g s a = q s + f s a) :
    q (S.exec s as) + S.tally g s as = q s + S.tally f s as := by
  induction as generalizing s with
  | nil => simp [tally]
  | cons a as ih =>
      have hstep := hq s a hs h.1
      have hrest := ih h.2 (hI s a hs h.1)
      rw [exec_cons, tally, tally]
      omega

@[simp] theorem tally_zero (s : σ) (as : List α) : S.tally (fun _ _ ↦ 0) s as = 0 := by
  induction as generalizing s with
  | nil => rfl
  | cons a as ih => simp [tally, ih]

/-- What holds now and did not hold at the start was established by one of
the steps, and has held in every state since. -/
theorem exists_establishing_step {P : σ → Prop} (hstart : ¬ P s) (hend : P (S.exec s as)) :
    ∃ pre a post, as = pre ++ a :: post ∧ ¬ P (S.exec s pre) ∧
      ∀ mid, mid <+: post → P (S.exec s (pre ++ a :: mid)) := by
  induction as using List.reverseRecOn with
  | nil => exact absurd hend hstart
  | append_singleton as a ih =>
      by_cases hbefore : P (S.exec s as)
      · obtain ⟨pre, b, post, rfl, hpre, hpost⟩ := ih hbefore
        refine ⟨pre, b, post ++ [a], by simp, hpre, ?_⟩
        intro mid hmid
        rcases List.prefix_concat_iff.mp hmid with rfl | hmid
        · simpa using hend
        · exact hpost mid hmid
      · refine ⟨as, a, [], by simp, hbefore, ?_⟩
        intro mid hmid
        rw [List.prefix_nil.mp hmid]
        exact hend

end System

end Histae.Systems
