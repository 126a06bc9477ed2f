import Histae.Relational.Table
import Histae.Systems.Run

/-!
# Transactions in flight

A protocol says what the next statement of a transaction does to it, given the
committed tables, and when the statement has to wait for the other
transactions in flight. A statement moves the transaction to another phase,
or commits new tables together with an answer, or rolls back; writes appear
when they commit. The traffic of a protocol interleaves the statements of any
number of transactions. Its inversion lists everything one step can do, and
traffic in which somebody can always move can be drained.
-/

namespace Histae.Systems

open Relational

variable {δ ρ φ α τ : Type}

/-- What one statement of a transaction leads to. -/
inductive Progress (δ φ α : Type)
  | proceed (phase : φ)
  | commit (answer : α) (db : δ)
  | rollback

structure Call (ρ φ : Type) where
  id : ℕ
  request : ρ
  phase : φ
  deriving DecidableEq

namespace Call

def withPhase (phase : φ) (c : Call ρ φ) : Call ρ φ := { c with phase }

theorem id_withPhase (phase : φ) (c : Call ρ φ) : (c.withPhase phase).id = c.id := rfl

end Call

structure Answer (ρ α : Type) where
  request : ρ
  result : α
  deriving DecidableEq

/-- The committed tables, the transactions in flight and the answers, the
newest first. -/
structure Traffic (δ ρ φ α : Type) where
  db : δ
  calls : Table (Call.id : Call ρ φ → ℕ)
  answers : List (Answer ρ α)

/-- Statements read the clock; `τ` is the type of their readings. -/
structure Protocol (δ ρ φ α τ : Type) where
  start : φ
  statement : δ → ρ → φ → τ → Progress δ φ α
  waits : List (Call ρ φ) → δ → ρ → φ → Bool

inductive CallStep (ρ τ : Type)
  | begin (id : ℕ) (request : ρ)
  | advance (id : ℕ) (clock : τ)
  | abort (id : ℕ)
  deriving DecidableEq

def CallStep.call : CallStep ρ τ → ℕ
  | .begin id _ | .advance id _ | .abort id => id

namespace Traffic

def idle (db : δ) : Traffic δ ρ φ α := ⟨db, ∅, []⟩

/-- One transaction in flight. -/
def solo (db : δ) (c : Call ρ φ) : Traffic δ ρ φ α := ⟨db, ⟨[c], by simp⟩, []⟩

variable (s : Traffic δ ρ φ α)

def leave (id : ℕ) : Table (Call.id : Call ρ φ → ℕ) := s.calls.delete fun c ↦ c.id = id

def proceed (id : ℕ) (phase : φ) : Table (Call.id : Call ρ φ → ℕ) :=
  s.calls.modify (fun c ↦ c.id = id) (Call.withPhase phase) (Call.id_withPhase phase)

variable {s} {c d : Call ρ φ} {id : ℕ} {phase : φ}

theorem mem_leave : d ∈ s.leave id ↔ d ∈ s.calls ∧ d.id ≠ id := by
  unfold leave
  rw [Table.mem_delete]
  simp

theorem mem_proceed (hc : c ∈ s.calls) :
    d ∈ s.proceed c.id phase ↔ d = c.withPhase phase ∨ d ∈ s.calls ∧ d.id ≠ c.id :=
  Table.mem_modify_key (Call.id_withPhase phase) hc

end Traffic

namespace Protocol

variable (P : Protocol δ ρ φ α τ)

def Waits (s : Traffic δ ρ φ α) (c : Call ρ φ) : Bool :=
  P.waits s.calls.rows s.db c.request c.phase

def Enabled (s : Traffic δ ρ φ α) : CallStep ρ τ → Prop
  | .begin id _ => s.calls.find? id = none
  | .advance id _ => ∃ c, s.calls.find? id = some c ∧ P.Waits s c = false
  | .abort id => ∃ c, s.calls.find? id = some c

def next (s : Traffic δ ρ φ α) : CallStep ρ τ → Traffic δ ρ φ α
  | .begin id request => { s with calls := (s.calls.insert? ⟨id, request, P.start⟩).getD s.calls }
  | .advance id clock =>
      match s.calls.find? id with
      | none => s
      | some c =>
          match P.statement s.db c.request c.phase clock with
          | .proceed phase => { s with calls := s.proceed id phase }
          | .commit result db => ⟨db, s.leave id, ⟨c.request, result⟩ :: s.answers⟩
          | .rollback => { s with calls := s.leave id }
  | .abort id => { s with calls := s.leave id }

def system : System (Traffic δ ρ φ α) (CallStep ρ τ) where
  Enabled := P.Enabled
  next := P.next

instance decidableEnabled (s : Traffic δ ρ φ α) (a : CallStep ρ τ) :
    Decidable (P.system.Enabled s a) :=
  match a with
  | .begin id _ =>
      decidable_of_iff ((s.calls.find? id).isNone) <| by
        change _ ↔ s.calls.find? id = none
        simp
  | .advance id _ =>
      decidable_of_iff ((s.calls.find? id).any fun c ↦ !P.Waits s c) <| by
        change _ ↔ ∃ c, s.calls.find? id = some c ∧ P.Waits s c = false
        simp [Option.any_eq_true]
  | .abort id =>
      decidable_of_iff ((s.calls.find? id).isSome) <| by
        change _ ↔ ∃ c, s.calls.find? id = some c
        rw [Option.isSome_iff_exists]

theorem system_next (s : Traffic δ ρ φ α) (a : CallStep ρ τ) : P.system.next s a = P.next s a := rfl

/-- Everything one step of the traffic can do. -/
inductive Effect (s : Traffic δ ρ φ α) : CallStep ρ τ → Traffic δ ρ φ α → Prop
  | began (id : ℕ) (q : ρ) (calls : Table (Call.id : Call ρ φ → ℕ))
      (hinsert : s.calls.insert? ⟨id, q, P.start⟩ = some calls) :
      Effect s (.begin id q) { s with calls }
  | left (a : CallStep ρ τ) : Effect s a { s with calls := s.leave a.call }
  | proceeded (c : Call ρ φ) (clock : τ) (phase : φ) (hc : c ∈ s.calls)
      (hwaits : P.Waits s c = false)
      (h : P.statement s.db c.request c.phase clock = .proceed phase) :
      Effect s (.advance c.id clock) { s with calls := s.proceed c.id phase }
  | answered (c : Call ρ φ) (clock : τ) (result : α) (db : δ) (hc : c ∈ s.calls)
      (hwaits : P.Waits s c = false)
      (h : P.statement s.db c.request c.phase clock = .commit result db) :
      Effect s (.advance c.id clock) ⟨db, s.leave c.id, ⟨c.request, result⟩ :: s.answers⟩

variable {P} {s : Traffic δ ρ φ α}

theorem effect_of_enabled {a : CallStep ρ τ} (h : P.system.Enabled s a) :
    P.Effect s a (P.system.next s a) := by
  rw [system_next]
  cases a with
  | begin id q =>
      obtain ⟨calls, hinsert⟩ : ∃ calls, s.calls.insert? ⟨id, q, P.start⟩ = some calls := by
        rw [← Option.ne_none_iff_exists', ne_eq, Table.insert?_eq_none_iff, not_not]
        exact h
      have hnext : P.next s (.begin id q) = { s with calls } := by simp [next, hinsert]
      rw [hnext]
      exact .began id q calls hinsert
  | abort id => exact .left (.abort id)
  | advance id clock =>
      obtain ⟨c, hfind, hwaits⟩ := h
      obtain ⟨hc, rfl⟩ := Table.find?_eq_some_iff.mp hfind
      simp only [next, hfind]
      cases hstatement : P.statement s.db c.request c.phase clock with
      | proceed phase => exact .proceeded c clock phase hc hwaits hstatement
      | commit result db => exact .answered c clock result db hc hwaits hstatement
      | rollback => exact .left (.advance c.id clock)

section Draining

/-- Statements lead through finitely many phases, and somebody can move. -/
structure Drains (P : Protocol δ ρ φ α τ) (rank : φ → ℕ) : Prop where
  pos : ∀ phase, 0 < rank phase
  decreases : ∀ db q phase clock phase',
    P.statement db q phase clock = .proceed phase' → rank phase' < rank phase
  moves : ∀ s : Traffic δ ρ φ α, s.calls.rows ≠ [] → ∃ c ∈ s.calls, P.Waits s c = false

variable {rank : φ → ℕ} {c : Call ρ φ}

theorem Drains.total_lt (h : P.Drains rank) (hc : c ∈ s.calls) (hwaits : P.Waits s c = false)
    (clock : τ) :
    (P.system.next s (.advance c.id clock)).calls.total (fun d ↦ rank d.phase) <
      s.calls.total fun d ↦ rank d.phase := by
  have hleave : (s.leave c.id).total (fun d ↦ rank d.phase) <
      s.calls.total fun d ↦ rank d.phase :=
    Table.total_delete_lt hc (by simp) (h.pos c.phase)
  have heffect := effect_of_enabled (P := P) (s := s) (a := .advance c.id clock)
    ⟨c, Table.find?_key hc, hwaits⟩
  generalize P.system.next s (.advance c.id clock) = s' at heffect ⊢
  generalize hstep : CallStep.advance c.id clock = step at heffect
  cases heffect with
  | began id q calls hinsert => cases hstep
  | left =>
      subst hstep
      exact hleave
  | proceeded d _ phase hd _ hstatement =>
      obtain ⟨hid, rfl⟩ := CallStep.advance.inj hstep
      obtain rfl := Table.eq_of_key_eq hc hd hid
      have hless := h.decreases _ _ _ _ _ hstatement
      refine Table.total_modify_lt (Call.id_withPhase phase) hc (by simp) hless fun e he hmatch ↦ ?_
      rw [Table.eq_of_key_eq he hc (by simpa using hmatch)]
      exact hless.le
  | answered d _ result db hd _ hstatement =>
      obtain ⟨hid, rfl⟩ := CallStep.advance.inj hstep
      obtain rfl := Table.eq_of_key_eq hc hd hid
      exact hleave

/-- Whatever is in flight, its statements can all be executed. -/
theorem Drains.exists_run [Inhabited τ] (h : P.Drains rank) (s : Traffic δ ρ φ α) :
    ∃ bs : List (CallStep ρ τ), (∀ b ∈ bs, ∃ id clock, b = .advance id clock) ∧
      P.system.Valid s bs ∧ (P.system.exec s bs).calls.rows = [] := by
  induction hn : s.calls.total (fun d ↦ rank d.phase) using Nat.strong_induction_on
    generalizing s with
  | _ n ih =>
      by_cases hrows : s.calls.rows = []
      · exact ⟨[], nofun, trivial, hrows⟩
      · obtain ⟨c, hc, hwaits⟩ := h.moves s hrows
        have hless := h.total_lt hc hwaits default
        rw [hn] at hless
        obtain ⟨bs, hbs, hvalid, hdrained⟩ :=
          ih _ hless (P.system.next s (.advance c.id default)) rfl
        refine ⟨.advance c.id default :: bs, ?_, ⟨⟨c, Table.find?_key hc, hwaits⟩, hvalid⟩, hdrained⟩
        intro b hb
        rcases List.mem_cons.mp hb with rfl | hb
        · exact ⟨c.id, default, rfl⟩
        · exact hbs b hb

end Draining

section Alone

variable {db db' : δ} {c : Call ρ φ} {result : α}

/-- A transaction never waits for itself. -/
def Selfless (P : Protocol δ ρ φ α τ) : Prop :=
  ∀ (db : δ) (c : Call ρ φ), P.waits [c] db c.request c.phase = false

/-- Statements of a transaction that nobody disturbs lead from its phase to
its answer. -/
def Completes (P : Protocol δ ρ φ α τ) (db : δ) (c : Call ρ φ) (result : α) (db' : δ) : Prop :=
  ∃ as, P.system.Valid (.solo db c) as ∧
    P.system.exec (.solo db c) as = ⟨db', ∅, [⟨c.request, result⟩]⟩

theorem find?_solo (db : δ) (c : Call ρ φ) :
    (Traffic.solo db c : Traffic δ ρ φ α).calls.find? c.id = some c := by
  simp [Traffic.solo, Table.find?]

theorem enabled_solo (h : P.Selfless) (db : δ) (c : Call ρ φ) (clock : τ) :
    P.system.Enabled (.solo db c) (.advance c.id clock) := ⟨c, find?_solo db c, h db c⟩

theorem completes_of_commit (hself : P.Selfless) (clock : τ)
    (h : P.statement db c.request c.phase clock = .commit result db') :
    P.Completes db c result db' := by
  refine ⟨[.advance c.id clock], ⟨enabled_solo hself db c clock, trivial⟩, ?_⟩
  have hleave : (Traffic.solo db c : Traffic δ ρ φ α).leave c.id = ∅ := by
    simp [Traffic.leave, Traffic.solo, Table.delete, EmptyCollection.emptyCollection, Table.empty]
  have hstatement : P.statement (Traffic.solo db c : Traffic δ ρ φ α).db c.request c.phase clock =
      .commit result db' := h
  rw [System.exec_cons, System.exec_nil, system_next]
  simp only [next, find?_solo, hstatement, hleave]
  rfl

theorem completes_of_proceed (hself : P.Selfless) {clock : τ} {phase : φ}
    (h : P.statement db c.request c.phase clock = .proceed phase)
    (hrest : P.Completes db (c.withPhase phase) result db') : P.Completes db c result db' := by
  obtain ⟨as, hvalid, hexec⟩ := hrest
  have hstatement : P.statement (Traffic.solo db c : Traffic δ ρ φ α).db c.request c.phase clock =
      .proceed phase := h
  have hnext : P.system.next (.solo db c) (.advance c.id clock) = .solo db (c.withPhase phase) := by
    rw [system_next]
    simp only [next, find?_solo, hstatement]
    simp [Traffic.solo, Traffic.proceed, Table.modify]
  refine ⟨.advance c.id clock :: as, ⟨enabled_solo hself db c clock, ?_⟩, ?_⟩
  · rw [hnext]
    exact hvalid
  · rw [System.exec_cons, hnext]
    exact hexec

theorem Completes.exists_run {q : ρ} (h : P.Completes db ⟨0, q, P.start⟩ result db') :
    ∃ as, P.system.Valid (.idle db) as ∧
      P.system.exec (.idle db) as = ⟨db', ∅, [⟨q, result⟩]⟩ := by
  obtain ⟨as, hvalid, hexec⟩ := h
  exact ⟨.begin 0 q :: as, ⟨rfl, hvalid⟩, hexec⟩

end Alone

end Protocol

end Histae.Systems
