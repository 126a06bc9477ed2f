import Mathlib
import Histae.Systems.Run

/-!
# Transactions that wait for locks

A transaction takes the locks of its program one after another, shared or
exclusive, and holds them to its end. It waits when the next lock conflicts
with one that another transaction holds. A deadlock is a cycle of waiting
transactions, and there is none where the rank of the awaited lock grows along
every wait.
-/

namespace Histae.Systems

variable {ι π κ : Type}

structure Request (κ : Type) where
  lock : κ
  exclusive : Bool
  deriving DecidableEq

namespace Request

def Conflicts (r s : Request κ) : Prop :=
  r.lock = s.lock ∧ (r.exclusive = true ∨ s.exclusive = true)

instance [DecidableEq κ] (r s : Request κ) : Decidable (r.Conflicts s) :=
  inferInstanceAs (Decidable (_ ∧ _))

theorem Conflicts.symm {r s : Request κ} (h : r.Conflicts s) : s.Conflicts r :=
  ⟨h.1.symm, h.2.symm⟩

end Request

/-- An open transaction, between two locks of its program. -/
structure Session (locks : π → List (Request κ)) where
  program : π
  held : List (Request κ)
  todo : List (Request κ)
  split : locks program = held ++ todo

inductive LockStep (ι π : Type)
  | begin (i : ι) (p : π)
  | acquire (i : ι)
  | finish (i : ι)

variable {locks : π → List (Request κ)}

namespace Session

def start (locks : π → List (Request κ)) (p : π) : Session locks := ⟨p, [], locks p, rfl⟩

/-- The transaction has taken its next lock. -/
def advance (s : Session locks) : Session locks :=
  match h : s.todo with
  | [] => s
  | r :: rest => ⟨s.program, s.held ++ [r], rest, by simp [s.split, h]⟩

theorem advance_program (s : Session locks) : s.advance.program = s.program := by
  unfold advance
  split <;> rfl

theorem advance_held {s : Session locks} {r : Request κ} (h : s.todo.head? = some r) :
    s.advance.held = s.held ++ [r] := by
  unfold advance
  split
  · rename_i hnil
    rw [hnil] at h
    exact absurd h (by simp)
  · rename_i r' rest hcons
    rw [hcons, List.head?_cons] at h
    change s.held ++ [r'] = s.held ++ [r]
    rw [Option.some.inj h]

/-- The transaction holds the lock or waits for it. -/
def Reached (s : Session locks) (r : Request κ) : Prop := r ∈ s.held ∨ s.todo.head? = some r

theorem mem_of_reached {s : Session locks} {r : Request κ} (h : s.Reached r) :
    r ∈ locks s.program := by
  rw [s.split, List.mem_append]
  rcases h with hheld | htodo
  · exact Or.inl hheld
  · exact Or.inr (List.mem_of_mem_head? htodo)

/-- A transaction that has come past the first locks of its program holds them. -/
theorem subset_held {s : Session locks} {r : Request κ} (h : s.Reached r)
    {first rest : List (Request κ)} (hlocks : locks s.program = first ++ rest)
    (hr : r ∉ first) : first ⊆ s.held := by
  rcases List.append_eq_append_iff.mp (s.split.symm.trans hlocks) with
    ⟨between, hfirst, htodo⟩ | ⟨between, hheld, _⟩
  · rcases h with hheld | hnext
    · exact absurd (hfirst ▸ List.mem_append_left _ hheld) hr
    · cases between with
      | nil => simp [hfirst]
      | cons r' between =>
          rw [htodo, List.cons_append, List.head?_cons] at hnext
          obtain rfl := Option.some.inj hnext
          exact absurd (hfirst ▸ List.mem_append_right _ List.mem_cons_self) hr
  · rw [hheld]
    exact List.subset_append_left _ _

/-- A held lock and the next one are in the order of the program. -/
theorem rel_of_held {s : Session locks} {R : Request κ → Request κ → Prop}
    (h : (locks s.program).Pairwise R) {g r : Request κ} (hg : g ∈ s.held)
    (hr : s.todo.head? = some r) : R g r := by
  rw [s.split] at h
  exact (List.pairwise_append.mp h).2.2 g hg r (List.mem_of_mem_head? hr)

end Session

/-- The locks as all open transactions see them. -/
abbrev Sessions (ι : Type) (locks : π → List (Request κ)) := ι → Option (Session locks)

namespace Sessions

variable [DecidableEq ι]

/-- The transaction can take its next lock. -/
def Grantable (σ : Sessions ι locks) (i : ι) : Prop :=
  ∃ s, σ i = some s ∧ ∃ r, s.todo.head? = some r ∧
    ∀ j ≠ i, ∀ t, σ j = some t → ∀ h ∈ t.held, ¬ h.Conflicts r

def Enabled (σ : Sessions ι locks) : LockStep ι π → Prop
  | .begin i _ => σ i = none
  | .acquire i => σ.Grantable i
  | .finish i => (σ i).isSome = true

def next (σ : Sessions ι locks) : LockStep ι π → Sessions ι locks
  | .begin i p => Function.update σ i (some (.start locks p))
  | .acquire i => Function.update σ i ((σ i).map Session.advance)
  | .finish i => Function.update σ i none

/-- One transaction waits for a lock that another one holds. -/
def Waits (σ : Sessions ι locks) (i j : ι) : Prop :=
  i ≠ j ∧ ∃ s t, σ i = some s ∧ σ j = some t ∧ ∃ r, s.todo.head? = some r ∧
    ∃ h ∈ t.held, h.Conflicts r

instance [DecidableEq κ] (σ : Sessions ι locks) (i j : ι) : Decidable (σ.Waits i j) :=
  decidable_of_iff (i ≠ j ∧ ∃ s ∈ σ i, ∃ t ∈ σ j, ∃ r ∈ s.todo.head?, ∃ h ∈ t.held, h.Conflicts r)
    ⟨fun ⟨hij, s, hs, t, ht, hr⟩ ↦ ⟨hij, s, t, hs, ht, hr⟩,
      fun ⟨hij, s, t, hs, ht, hr⟩ ↦ ⟨hij, s, hs, t, ht, hr⟩⟩

instance [Fintype ι] [DecidableEq κ] (σ : Sessions ι locks) (i : ι) : Decidable (σ.Grantable i) :=
  inferInstanceAs (Decidable (∃ s ∈ σ i, ∃ r ∈ s.todo.head?,
    ∀ j, j ≠ i → ∀ t ∈ σ j, ∀ h ∈ t.held, ¬ h.Conflicts r))

instance [Fintype ι] [DecidableEq κ] (σ : Sessions ι locks) :
    ∀ a, Decidable (σ.Enabled a)
  | .begin i _ => inferInstanceAs (Decidable (σ i = none))
  | .acquire i => inferInstanceAs (Decidable (σ.Grantable i))
  | .finish i => inferInstanceAs (Decidable ((σ i).isSome = true))

def Deadlocked (σ : Sessions ι locks) : Prop := ∃ i, Relation.TransGen σ.Waits i i

end Sessions

/-- The lock manager, for transactions of the given programs. -/
def lockManager (ι : Type) [DecidableEq ι] (locks : π → List (Request κ)) :
    System (Sessions ι locks) (LockStep ι π) where
  Enabled := Sessions.Enabled
  next := Sessions.next

instance [Fintype ι] [DecidableEq ι] [DecidableEq κ] (σ : Sessions ι locks) (a : LockStep ι π) :
    Decidable ((lockManager ι locks).Enabled σ a) :=
  inferInstanceAs (Decidable (σ.Enabled a))

section Invariants

variable [DecidableEq ι] {σ : Sessions ι locks} {a : LockStep ι π}

/-- No two transactions hold conflicting locks. -/
def Compatible (σ : Sessions ι locks) : Prop :=
  ∀ i j, i ≠ j → ∀ s t, σ i = some s → σ j = some t → ∀ g ∈ s.held, ∀ h ∈ t.held, ¬ g.Conflicts h

theorem Compatible.next (hσ : Compatible σ) (h : Sessions.Enabled σ a) :
    Compatible (Sessions.next σ a) := by
  intro i j hij s t hs ht
  cases a with
  | begin k p =>
      simp only [Sessions.next, Function.update_apply] at hs ht
      split at hs
      · obtain rfl := Option.some.inj hs
        simp [Session.start]
      split at ht
      · obtain rfl := Option.some.inj ht
        simp [Session.start]
      exact hσ i j hij s t hs ht
  | acquire k =>
      obtain ⟨u, hu, r, hr, hfree⟩ := h
      have hheld := Session.advance_held hr
      simp only [Sessions.next, Function.update_apply, hu, Option.map_some] at hs ht
      split at hs
      · rename_i hk
        obtain rfl := Option.some.inj hs
        rw [if_neg fun heq ↦ hij (hk.trans heq.symm)] at ht
        intro g hg h hh
        rw [hheld, List.mem_append, List.mem_singleton] at hg
        rcases hg with hold | rfl
        · exact hσ i j hij u t (hk ▸ hu) ht g hold h hh
        · intro hconflict
          exact hfree j (fun heq ↦ hij (hk.trans heq.symm)) t ht h hh hconflict.symm
      · rename_i hk
        split at ht
        · rename_i hk'
          obtain rfl := Option.some.inj ht
          intro g hg h hh
          rw [hheld, List.mem_append, List.mem_singleton] at hh
          rcases hh with hold | rfl
          · exact hσ i j hij s u hs (hk' ▸ hu) g hg h hold
          · exact hfree i hk s hs g hg
        · exact hσ i j hij s t hs ht
  | finish k =>
      simp only [Sessions.next, Function.update_apply] at hs ht
      split at hs
      · exact absurd hs (by simp)
      split at ht
      · exact absurd ht (by simp)
      exact hσ i j hij s t hs ht

/-- Two transactions, each waiting for a lock of the other. -/
theorem Sessions.deadlocked_of_waits {i j : ι} (hij : σ.Waits i j) (hji : σ.Waits j i) :
    σ.Deadlocked :=
  ⟨i, (Relation.TransGen.single hij).tail hji⟩

/-- No two open transactions clash. -/
def Apart (Clash : π → π → Prop) (σ : Sessions ι locks) : Prop :=
  ∀ i j, i ≠ j → ∀ s t, σ i = some s → σ j = some t → ¬ Clash s.program t.program

/-- A transaction begins only while none is open that clashes with it. -/
def BeginsApart (Clash : π → π → Prop) (σ : Sessions ι locks) : LockStep ι π → Prop
  | .begin _ p => ∀ j t, σ j = some t → ¬ Clash p t.program ∧ ¬ Clash t.program p
  | _ => True

theorem Apart.next {Clash : π → π → Prop} (hσ : Apart Clash σ) (h : BeginsApart Clash σ a) :
    Apart Clash (Sessions.next σ a) := by
  intro i j hij s t hs ht
  cases a with
  | begin k p =>
      simp only [Sessions.next, Function.update_apply] at hs ht
      split at hs
      · rename_i hk
        obtain rfl := Option.some.inj hs
        rw [if_neg fun heq ↦ hij (hk.trans heq.symm)] at ht
        exact (h j t ht).1
      · split at ht
        · obtain rfl := Option.some.inj ht
          exact (h i s hs).2
        · exact hσ i j hij s t hs ht
  | acquire k =>
      have hprogram : ∀ l u, (if l = k then (σ k).map Session.advance else σ l) = some u →
          ∃ u', σ l = some u' ∧ u'.program = u.program := by
        intro l u hu
        split at hu
        · rename_i hl
          obtain ⟨u', hu', rfl⟩ := Option.map_eq_some_iff.mp hu
          exact ⟨u', hl ▸ hu', (Session.advance_program u').symm⟩
        · exact ⟨u, hu, rfl⟩
      simp only [Sessions.next, Function.update_apply] at hs ht
      obtain ⟨s', hs', hsprogram⟩ := hprogram i s hs
      obtain ⟨t', ht', htprogram⟩ := hprogram j t ht
      rw [← hsprogram, ← htprogram]
      exact hσ i j hij s' t' hs' ht'
  | finish k =>
      simp only [Sessions.next, Function.update_apply] at hs ht
      split at hs
      · exact absurd hs (by simp)
      split at ht
      · exact absurd ht (by simp)
      exact hσ i j hij s t hs ht

end Invariants

/-- There is no cycle when every wait leads to a transaction that is not
waiting itself or waits for a lock of a higher rank. -/
theorem not_deadlocked_of_rank {σ : Sessions ι locks} {ω : Type} [Preorder ω] (rank : ι → ω)
    (hrank : ∀ i j k, σ.Waits i j → σ.Waits j k → rank i < rank j) : ¬ σ.Deadlocked := by
  have hpath : ∀ i j, Relation.TransGen σ.Waits i j → ∀ k, σ.Waits j k → rank i < rank j := by
    intro i j hij
    induction hij with
    | single hwait => exact fun k hnext ↦ hrank _ _ k hwait hnext
    | tail _ hwait ih => exact fun k hnext ↦ (ih _ hwait).trans (hrank _ _ k hwait hnext)
  rintro ⟨i, hcycle⟩
  obtain ⟨k, hfirst, _⟩ := Relation.TransGen.head'_iff.mp hcycle
  exact lt_irrefl _ (hpath i i hcycle k hfirst)

end Histae.Systems
