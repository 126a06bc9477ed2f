import Histae.Relational.Table
import Histae.Systems.Run

/-!
# Transactions that lock rows

A statement of a transaction reads a snapshot of the committed tables, which
names the rows it has to lock. It takes these locks one after another, waits
where another transaction holds one that conflicts, and looks at each row again
under its lock. What it decides to write is kept until the commit, which
applies all writes of the transaction or, when one of them violates a
constraint, none.

The rule of this module is about assertions that a transaction makes while it
holds its locks: each of its own steps keeps them, and so does a commit of any
other transaction whose locks do not conflict.
-/

namespace Histae.Systems

open Relational

variable {δ ν ω ρ φ α τ : Type}

/-- The row locks of PostgreSQL, the weakest first. -/
inductive RowLockMode
  | keyShare
  | share
  | noKeyUpdate
  | update
  deriving DecidableEq

def RowLockMode.conflicts : RowLockMode → RowLockMode → Bool
  | .keyShare, .update | .update, .keyShare => true
  | .keyShare, _ | _, .keyShare => false
  | .share, .share => false
  | _, _ => true

theorem RowLockMode.conflicts_comm (m n : RowLockMode) : m.conflicts n = n.conflicts m := by
  cases m <;> cases n <;> rfl

/-- Modes under which a transaction may write the row. -/
def RowLockMode.writes : RowLockMode → Bool
  | .noKeyUpdate | .update => true
  | _ => false

theorem RowLockMode.conflicts_of_writes {m n : RowLockMode} (hm : m.writes = true)
    (hn : n.writes = true) : m.conflicts n = true := by
  cases m <;> cases n <;> simp_all [writes, conflicts]

theorem RowLockMode.conflicts_update (m : RowLockMode) : m.conflicts .update = true := by
  cases m <;> rfl

structure RowLock (ν : Type) where
  row : ν
  mode : RowLockMode
  deriving DecidableEq

namespace RowLock

variable [DecidableEq ν]

def conflicts (l m : RowLock ν) : Bool := l.row = m.row && l.mode.conflicts m.mode

theorem conflicts_comm (l m : RowLock ν) : l.conflicts m = m.conflicts l := by
  unfold conflicts
  rw [RowLockMode.conflicts_comm]
  by_cases h : l.row = m.row
  · rw [h]
  · simp [h, Ne.symm h]

end RowLock

/-- What a transaction does when it has no lock left to take. -/
inductive Move (ν ω φ α : Type)
  | scan (locks : List (RowLock ν)) (writes : List ω) (phase : φ)
  | commit (answer : α)
  | rollback

structure RowTransaction (ν ω ρ φ : Type) where
  id : ℕ
  request : ρ
  phase : φ
  pending : List (RowLock ν)
  held : List (RowLock ν)
  writes : List ω
  deriving DecidableEq

/-- Statements read the clock; `τ` is the type of its readings. -/
structure RowProtocol (δ ν ω ρ φ α τ : Type) where
  start : φ
  /-- The rows that a request is going to insert. -/
  creates : ρ → List ν
  statement : δ → ρ → φ → τ → Move ν ω φ α
  /-- A row is looked at again under its lock. -/
  lock : δ → ρ → φ → RowLock ν → τ → φ × List ω
  write : δ → ω → Option δ

structure RowAnswer (ρ α : Type) where
  id : ℕ
  request : ρ
  result : α
  deriving DecidableEq

/-- The committed tables, the row names that were ever given out and the
answers, the newest first. -/
structure Committed (δ ν ρ α : Type) where
  db : δ
  issued : List ν
  answers : List (RowAnswer ρ α)

structure RowTraffic (δ ν ω ρ φ α : Type) where
  committed : Committed δ ν ρ α
  started : ℕ
  transactions : Table (RowTransaction.id : RowTransaction ν ω ρ φ → ℕ)

inductive RowStep (ρ τ : Type)
  | begin (request : ρ)
  | advance (id : ℕ) (clock : τ)
  | abort (id : ℕ)
  deriving DecidableEq

namespace RowTransaction

variable (t : RowTransaction ν ω ρ φ)

/-- The first awaited lock is taken. -/
def take (l : RowLock ν) (result : φ × List ω) : RowTransaction ν ω ρ φ :=
  { t with
    phase := result.1
    pending := t.pending.tail
    held := t.held ++ [l]
    writes := t.writes ++ result.2 }

def scan (locks : List (RowLock ν)) (writes : List ω) (phase : φ) : RowTransaction ν ω ρ φ :=
  { t with phase, pending := locks, writes := t.writes ++ writes }

/-- The locks that are held or awaited. -/
def locks : List (RowLock ν) := t.held ++ t.pending

theorem locks_take {l : RowLock ν} {rest : List (RowLock ν)} (h : t.pending = l :: rest)
    (result : φ × List ω) : (t.take l result).locks = t.locks := by
  unfold locks take
  simp [h]

theorem mem_locks_scan {l : RowLock ν} (h : t.pending = []) (locks : List (RowLock ν))
    (writes : List ω) (phase : φ) :
    l ∈ (t.scan locks writes phase).locks ↔ l ∈ t.locks ∨ l ∈ locks := by
  unfold RowTransaction.locks scan
  simp [h]

theorem locks_of_pending (h : t.pending = []) : t.locks = t.held := by
  unfold locks
  rw [h, List.append_nil]

def Excludes [DecidableEq ν] (t u : RowTransaction ν ω ρ φ) : Prop :=
  ∀ l ∈ t.held, ∀ m ∈ u.held, l.conflicts m = false

theorem Excludes.symm [DecidableEq ν] {t u : RowTransaction ν ω ρ φ} (h : t.Excludes u) :
    u.Excludes t := fun l hl m hm ↦ by
  rw [RowLock.conflicts_comm]
  exact h m hm l hl

/-- Another transaction holds no lock that conflicts with one held. -/
theorem Excludes.not_held [DecidableEq ν] {t u : RowTransaction ν ω ρ φ} (h : t.Excludes u)
    {l m : RowLock ν} (hl : l ∈ t.held) (hm : m ∈ u.held) (hrow : l.row = m.row)
    (hmode : l.mode.conflicts m.mode = true) : False := by
  have hfree := h l hl m hm
  rw [RowLock.conflicts, hrow, hmode] at hfree
  exact absurd hfree (by simp)

end RowTransaction

namespace RowTraffic

variable (s : RowTraffic δ ν ω ρ φ α)

def idle (db : δ) (issued : List ν) : RowTraffic δ ν ω ρ φ α := ⟨⟨db, issued, []⟩, 0, ∅⟩

def leave (id : ℕ) : Table (RowTransaction.id : RowTransaction ν ω ρ φ → ℕ) :=
  s.transactions.delete fun t ↦ t.id = id

/-- A transaction takes the place of the one with its number. -/
def put (t : RowTransaction ν ω ρ φ) : Table (RowTransaction.id : RowTransaction ν ω ρ φ → ℕ) where
  rows := s.transactions.rows.map fun u ↦ if u.id = t.id then t else u
  nodup := by
    have hkeys : (s.transactions.rows.map fun u ↦ if u.id = t.id then t else u).map
        RowTransaction.id = s.transactions.rows.map RowTransaction.id := by
      rw [List.map_map]
      refine List.map_congr_left fun u _ ↦ ?_
      by_cases hid : u.id = t.id <;> simp [hid]
    rw [hkeys]
    exact s.transactions.nodup

variable {s} {t u : RowTransaction ν ω ρ φ} {id : ℕ}

theorem mem_leave : u ∈ s.leave id ↔ u ∈ s.transactions ∧ u.id ≠ id := by
  unfold leave
  rw [Table.mem_delete]
  simp

theorem mem_put (ht : ∃ t' ∈ s.transactions, t'.id = t.id) :
    u ∈ s.put t ↔ u = t ∨ u ∈ s.transactions ∧ u.id ≠ t.id := by
  change u ∈ s.transactions.rows.map _ ↔ _
  rw [List.mem_map]
  constructor
  · rintro ⟨v, hv, rfl⟩
    by_cases hid : v.id = t.id
    · exact Or.inl (if_pos hid)
    · rw [if_neg hid]
      exact Or.inr ⟨hv, hid⟩
  · rintro (rfl | ⟨hu, hid⟩)
    · obtain ⟨t', ht', hid⟩ := ht
      exact ⟨t', ht', if_pos hid⟩
    · exact ⟨u, hu, if_neg hid⟩

theorem mem_put_take (ht : t ∈ s.transactions) {l : RowLock ν} {result : φ × List ω} :
    u ∈ s.put (t.take l result) ↔ u = t.take l result ∨ u ∈ s.transactions ∧ u.id ≠ t.id :=
  mem_put ⟨t, ht, rfl⟩

theorem mem_put_scan (ht : t ∈ s.transactions) {locks : List (RowLock ν)} {writes : List ω}
    {phase : φ} :
    u ∈ s.put (t.scan locks writes phase) ↔
      u = t.scan locks writes phase ∨ u ∈ s.transactions ∧ u.id ≠ t.id :=
  mem_put ⟨t, ht, rfl⟩

end RowTraffic

namespace Committed

variable (s : Committed δ ν ρ α)

def issue (rows : List ν) : Committed δ ν ρ α := { s with issued := rows ++ s.issued }

def answer (db : δ) (a : RowAnswer ρ α) : Committed δ ν ρ α :=
  { s with db, answers := a :: s.answers }

@[simp] theorem db_issue (rows : List ν) : (s.issue rows).db = s.db := rfl

@[simp] theorem answers_issue (rows : List ν) : (s.issue rows).answers = s.answers := rfl

@[simp] theorem db_answer (db : δ) (a : RowAnswer ρ α) : (s.answer db a).db = db := rfl

@[simp] theorem issued_answer (db : δ) (a : RowAnswer ρ α) : (s.answer db a).issued = s.issued := rfl

@[simp] theorem answers_answer (db : δ) (a : RowAnswer ρ α) :
    (s.answer db a).answers = a :: s.answers := rfl

end Committed

namespace RowProtocol

variable [DecidableEq ν] (P : RowProtocol δ ν ω ρ φ α τ)

/-- No other transaction holds a lock that conflicts. -/
def free (s : RowTraffic δ ν ω ρ φ α) (id : ℕ) (l : RowLock ν) : Bool :=
  s.transactions.rows.all fun u ↦ u.id = id || u.held.all fun m ↦ !m.conflicts l

def mayAdvance (s : RowTraffic δ ν ω ρ φ α) (t : RowTransaction ν ω ρ φ) : Bool :=
  t.pending.head?.all fun l ↦ free s t.id l

def commitWrites (db : δ) (writes : List ω) : Option δ := writes.foldlM P.write db

def opening (s : RowTraffic δ ν ω ρ φ α) (q : ρ) : RowTransaction ν ω ρ φ where
  id := s.started
  request := q
  phase := P.start
  pending := []
  held := []
  writes := []

def Enabled (s : RowTraffic δ ν ω ρ φ α) : RowStep ρ τ → Prop
  | .begin q =>
      (P.creates q).Nodup ∧ (∀ row ∈ P.creates q, row ∉ s.committed.issued) ∧
        s.transactions.find? s.started = none
  | .advance id _ => ∃ t, s.transactions.find? id = some t ∧ mayAdvance s t = true
  | .abort id => ∃ t, s.transactions.find? id = some t

def advance (s : RowTraffic δ ν ω ρ φ α) (t : RowTransaction ν ω ρ φ) (clock : τ) :
    RowTraffic δ ν ω ρ φ α :=
  match t.pending with
  | l :: _ =>
      { s with
        transactions := s.put (t.take l (P.lock s.committed.db t.request t.phase l clock)) }
  | [] =>
      match P.statement s.committed.db t.request t.phase clock with
      | .scan locks writes phase => { s with transactions := s.put (t.scan locks writes phase) }
      | .rollback => { s with transactions := s.leave t.id }
      | .commit result =>
          match P.commitWrites s.committed.db t.writes with
          | none => { s with transactions := s.leave t.id }
          | some db =>
              { s with
                committed := s.committed.answer db ⟨t.id, t.request, result⟩
                transactions := s.leave t.id }

def next (s : RowTraffic δ ν ω ρ φ α) : RowStep ρ τ → RowTraffic δ ν ω ρ φ α
  | .begin q =>
      { committed := s.committed.issue (P.creates q)
        started := s.started + 1
        transactions := (s.transactions.insert? (P.opening s q)).getD s.transactions }
  | .advance id clock => (s.transactions.find? id).elim s fun t ↦ P.advance s t clock
  | .abort id => { s with transactions := s.leave id }

def system : System (RowTraffic δ ν ω ρ φ α) (RowStep ρ τ) where
  Enabled := P.Enabled
  next := P.next

instance decidableEnabled (s : RowTraffic δ ν ω ρ φ α) (a : RowStep ρ τ) :
    Decidable (P.system.Enabled s a) :=
  match a with
  | .begin q =>
      decidable_of_iff ((P.creates q).Nodup ∧ (∀ row ∈ P.creates q, row ∉ s.committed.issued) ∧
        (s.transactions.find? s.started).isNone = true) <| by
          rw [Option.isNone_iff_eq_none]
          rfl
  | .advance id _ =>
      decidable_of_iff ((s.transactions.find? id).any fun t ↦ mayAdvance s t) <| by
        rw [Option.any_eq_true]
        rfl
  | .abort id =>
      decidable_of_iff ((s.transactions.find? id).isSome) <| by
        rw [Option.isSome_iff_exists]
        rfl

theorem system_next (s : RowTraffic δ ν ω ρ φ α) (a : RowStep ρ τ) :
    P.system.next s a = P.next s a := rfl

/-- Everything one step of the traffic can do. -/
inductive Effect (s : RowTraffic δ ν ω ρ φ α) : RowStep ρ τ → RowTraffic δ ν ω ρ φ α → Prop
  | began (q : ρ) (transactions : Table (RowTransaction.id : RowTransaction ν ω ρ φ → ℕ))
      (hnodup : (P.creates q).Nodup) (hfresh : ∀ row ∈ P.creates q, row ∉ s.committed.issued)
      (hinsert : s.transactions.insert? (P.opening s q) = some transactions) :
      Effect s (.begin q) ⟨s.committed.issue (P.creates q), s.started + 1, transactions⟩
  | took (t : RowTransaction ν ω ρ φ) (l : RowLock ν) (rest : List (RowLock ν)) (clock : τ)
      (ht : t ∈ s.transactions) (hpending : t.pending = l :: rest) (hfree : free s t.id l = true) :
      Effect s (.advance t.id clock)
        { s with
          transactions := s.put (t.take l (P.lock s.committed.db t.request t.phase l clock)) }
  | scanned (t : RowTransaction ν ω ρ φ) (clock : τ) (locks : List (RowLock ν)) (writes : List ω)
      (phase : φ) (ht : t ∈ s.transactions) (hpending : t.pending = [])
      (h : P.statement s.committed.db t.request t.phase clock = .scan locks writes phase) :
      Effect s (.advance t.id clock) { s with transactions := s.put (t.scan locks writes phase) }
  | answered (t : RowTransaction ν ω ρ φ) (clock : τ) (result : α) (db : δ)
      (ht : t ∈ s.transactions) (hpending : t.pending = [])
      (h : P.statement s.committed.db t.request t.phase clock = .commit result)
      (hwrites : P.commitWrites s.committed.db t.writes = some db) :
      Effect s (.advance t.id clock)
        { s with
          committed := s.committed.answer db ⟨t.id, t.request, result⟩
          transactions := s.leave t.id }
  | left (a : RowStep ρ τ) (id : ℕ) : Effect s a { s with transactions := s.leave id }

variable {P} {s : RowTraffic δ ν ω ρ φ α}

theorem effect_of_enabled {a : RowStep ρ τ} (h : P.system.Enabled s a) :
    P.Effect s a (P.system.next s a) := by
  rw [system_next]
  cases a with
  | begin q =>
      obtain ⟨hnodup, hfresh, hnone⟩ := h
      obtain ⟨transactions, hinsert⟩ : ∃ ts, s.transactions.insert? (P.opening s q) = some ts := by
        rw [← Option.ne_none_iff_exists', ne_eq, Table.insert?_eq_none_iff, not_not]
        exact hnone
      have hnext : P.next s (.begin q) =
          ⟨s.committed.issue (P.creates q), s.started + 1, transactions⟩ := by
        simp [next, hinsert]
      rw [hnext]
      exact .began q transactions hnodup hfresh hinsert
  | abort id => exact .left (.abort id) id
  | advance id clock =>
      obtain ⟨t, hfind, hmay⟩ := h
      obtain ⟨ht, rfl⟩ := Table.find?_eq_some_iff.mp hfind
      have hnext : P.next s (.advance t.id clock) = P.advance s t clock := by
        simp [next, hfind]
      rw [hnext]
      unfold advance
      cases hpending : t.pending with
      | cons l rest =>
          rw [mayAdvance, hpending] at hmay
          exact .took t l rest clock ht hpending hmay
      | nil =>
          cases hstatement : P.statement s.committed.db t.request t.phase clock with
          | scan locks writes phase => exact .scanned t clock locks writes phase ht hpending hstatement
          | rollback => exact .left (.advance t.id clock) t.id
          | commit result =>
              cases hwrites : P.commitWrites s.committed.db t.writes with
              | none => exact .left (.advance t.id clock) t.id
              | some db => exact .answered t clock result db ht hpending hstatement hwrites

/-- A step that gives an answer is a commit. -/
theorem commit_of_answers {a : RowStep ρ τ} {x : RowAnswer ρ α} (ha : P.system.Enabled s a)
    (hanswers : (P.system.next s a).committed.answers = x :: s.committed.answers) :
    ∃ t clock db, t ∈ s.transactions ∧ t.pending = [] ∧
      P.statement s.committed.db t.request t.phase clock = .commit x.result ∧
      P.commitWrites s.committed.db t.writes = some db ∧ x = ⟨t.id, t.request, x.result⟩ ∧
      (P.system.next s a).committed = s.committed.answer db x := by
  have heffect := effect_of_enabled ha
  generalize P.system.next s a = s' at heffect hanswers ⊢
  have hne : s.committed.answers ≠ x :: s.committed.answers := (List.cons_ne_self x _).symm
  cases heffect with
  | began q transactions hnodup hfresh hinsert => exact absurd hanswers hne
  | took t l rest clock ht hpending hfree => exact absurd hanswers hne
  | scanned t clock locks writes phase ht hpending hstatement => exact absurd hanswers hne
  | left a id => exact absurd hanswers hne
  | answered t clock result db ht hpending hstatement hwrites =>
      obtain rfl := (List.cons.inj hanswers).1
      exact ⟨t, clock, db, ht, hpending, hstatement, hwrites, rfl, rfl⟩

/-- A transaction that has been answered is no longer in flight. -/
theorem leave_of_answers {a : RowStep ρ τ} {x : RowAnswer ρ α} (ha : P.system.Enabled s a)
    (hanswers : (P.system.next s a).committed.answers = x :: s.committed.answers) :
    (P.system.next s a).transactions = s.leave x.id := by
  have heffect := effect_of_enabled ha
  generalize P.system.next s a = s' at heffect hanswers ⊢
  have hne : s.committed.answers ≠ x :: s.committed.answers := (List.cons_ne_self x _).symm
  cases heffect with
  | began q transactions hnodup hfresh hinsert => exact absurd hanswers hne
  | took t l rest clock ht hpending hfree => exact absurd hanswers hne
  | scanned t clock locks writes phase ht hpending hstatement => exact absurd hanswers hne
  | left a id => exact absurd hanswers hne
  | answered t clock result db ht hpending hstatement hwrites =>
      obtain rfl := (List.cons.inj hanswers).1
      rfl

/-- Two transactions hold no conflicting locks and insert different rows. -/
structure Separate (P : RowProtocol δ ν ω ρ φ α τ) (t u : RowTransaction ν ω ρ φ) : Prop where
  ne : t.id ≠ u.id
  excludes : t.Excludes u
  creates : ∀ row ∈ P.creates t.request, row ∉ P.creates u.request

theorem Separate.symm {t u : RowTransaction ν ω ρ φ} (h : P.Separate t u) : P.Separate u t where
  ne := h.ne.symm
  excludes := h.excludes.symm
  creates := fun row hu ht ↦ h.creates row ht hu

/-- Transactions in flight are separate, and what they insert has been given
out. -/
structure Apart (P : RowProtocol δ ν ω ρ φ α τ) (s : RowTraffic δ ν ω ρ φ α) : Prop where
  separate : ∀ t ∈ s.transactions, ∀ u ∈ s.transactions, t.id ≠ u.id → P.Separate t u
  issued : ∀ t ∈ s.transactions, ∀ row ∈ P.creates t.request, row ∈ s.committed.issued

theorem excludes_of_free {t u : RowTransaction ν ω ρ φ} {l : RowLock ν} {result : φ × List ω}
    (hu : u ∈ s.transactions) (hne : u.id ≠ t.id) (hfree : free s t.id l = true)
    (h : t.Excludes u) : (t.take l result).Excludes u := by
  intro k hk m hm
  change k ∈ t.held ++ [l] at hk
  rcases List.mem_append.mp hk with hk | hk
  · exact h k hk m hm
  · rw [List.mem_singleton.mp hk, RowLock.conflicts_comm]
    have hall := List.all_eq_true.mp hfree u hu
    simp only [hne, decide_false, Bool.false_or, List.all_eq_true, Bool.not_eq_true'] at hall
    exact hall m hm

/-- A step of one transaction that keeps its request keeps it separate. -/
theorem Apart.put (h : P.Apart s) {t t' : RowTransaction ν ω ρ φ} (ht : t ∈ s.transactions)
    (hid : t'.id = t.id) (hrequest : t'.request = t.request)
    (hexcludes : ∀ u ∈ s.transactions, u.id ≠ t.id → t'.Excludes u) :
    P.Apart { s with transactions := s.put t' } := by
  have hmem {u : RowTransaction ν ω ρ φ} : u ∈ s.put t' ↔ u = t' ∨ u ∈ s.transactions ∧ u.id ≠ t.id := by
    rw [RowTraffic.mem_put ⟨t, ht, hid.symm⟩, hid]
  have hseparate : ∀ u ∈ s.transactions, u.id ≠ t.id → P.Separate t' u := by
    intro u hu hne
    have hold := h.separate t ht u hu (Ne.symm hne)
    exact ⟨hid.trans_ne hold.ne, hexcludes u hu hne, hrequest ▸ hold.creates⟩
  refine ⟨fun v hv u hu hne ↦ ?_, fun v hv ↦ ?_⟩
  · rcases hmem.mp hv with rfl | ⟨hvs, hvid⟩
    · rcases hmem.mp hu with rfl | ⟨hus, huid⟩
      · exact absurd rfl hne
      · exact hseparate u hus huid
    · rcases hmem.mp hu with rfl | ⟨hus, huid⟩
      · exact (hseparate v hvs hvid).symm
      · exact h.separate v hvs u hus hne
  · rcases hmem.mp hv with rfl | ⟨hvs, _⟩
    · exact hrequest ▸ h.issued t ht
    · exact h.issued v hvs

theorem Apart.leave (h : P.Apart s) (id : ℕ) {c : Committed δ ν ρ α}
    (hissued : c.issued = s.committed.issued) :
    P.Apart { s with committed := c, transactions := s.leave id } where
  separate := fun v hv u hu hne ↦
    h.separate v (RowTraffic.mem_leave.mp hv).1 u (RowTraffic.mem_leave.mp hu).1 hne
  issued := fun v hv row hrow ↦ hissued ▸ h.issued v (RowTraffic.mem_leave.mp hv).1 row hrow

theorem Apart.next {a : RowStep ρ τ} (h : P.Apart s) (ha : P.system.Enabled s a) :
    P.Apart (P.system.next s a) := by
  have heffect := effect_of_enabled ha
  generalize P.system.next s a = s' at heffect ⊢
  cases heffect with
  | began q transactions hnodup hfresh hinsert =>
      have hopening : ∀ u ∈ s.transactions, (P.opening s q).id ≠ u.id →
          P.Separate (P.opening s q) u := fun u hu hne ↦
        ⟨hne, fun l hl ↦ absurd hl List.not_mem_nil,
          fun row hrow hother ↦ hfresh row hrow (h.issued u hu row hother)⟩
      refine ⟨fun t ht u hu hne ↦ ?_, fun t ht row hrow ↦ ?_⟩
      · rcases (Table.mem_insert hinsert).mp ht with rfl | ht
        · rcases (Table.mem_insert hinsert).mp hu with rfl | hu
          · exact absurd rfl hne
          · exact hopening u hu hne
        · rcases (Table.mem_insert hinsert).mp hu with rfl | hu
          · exact (hopening t ht (Ne.symm hne)).symm
          · exact h.separate t ht u hu hne
      · rcases (Table.mem_insert hinsert).mp ht with rfl | ht
        · exact List.mem_append_left _ hrow
        · exact List.mem_append_right _ (h.issued t ht row hrow)
  | took t l rest clock ht hpending hfree =>
      exact h.put ht rfl rfl fun u hu hne ↦
        excludes_of_free hu hne hfree (h.separate t ht u hu (Ne.symm hne)).excludes
  | scanned t clock locks writes phase ht hpending hstatement =>
      exact h.put ht rfl rfl fun u hu hne ↦ (h.separate t ht u hu (Ne.symm hne)).excludes
  | answered t clock result db ht hpending hstatement hwrites => exact h.leave t.id rfl
  | left a id => exact h.leave id rfl

section Assertions

/-- Assertions about the committed tables and about each transaction that its
own steps keep, and that a commit of another transaction keeps as well. -/
structure Stable (P : RowProtocol δ ν ω ρ φ α τ) (I : Committed δ ν ρ α → Prop)
    (J : Committed δ ν ρ α → RowTransaction ν ω ρ φ → Prop) : Prop where
  began : ∀ (s : RowTraffic δ ν ω ρ φ α) (q : ρ), I s.committed → (P.creates q).Nodup →
    (∀ row ∈ P.creates q, row ∉ s.committed.issued) →
    I (s.committed.issue (P.creates q)) ∧ J (s.committed.issue (P.creates q)) (P.opening s q) ∧
      ∀ t, J s.committed t → J (s.committed.issue (P.creates q)) t
  took : ∀ (c : Committed δ ν ρ α) (t : RowTransaction ν ω ρ φ) (l : RowLock ν)
    (rest : List (RowLock ν)) (clock : τ), I c → J c t → t.pending = l :: rest →
    J c (t.take l (P.lock c.db t.request t.phase l clock))
  scanned : ∀ (c : Committed δ ν ρ α) (t : RowTransaction ν ω ρ φ) (clock : τ)
    (locks : List (RowLock ν)) (writes : List ω) (phase : φ), I c → J c t → t.pending = [] →
    P.statement c.db t.request t.phase clock = .scan locks writes phase →
    J c (t.scan locks writes phase)
  answered : ∀ (c : Committed δ ν ρ α) (t : RowTransaction ν ω ρ φ) (clock : τ) (result : α)
    (db : δ), I c → J c t → t.pending = [] →
    P.statement c.db t.request t.phase clock = .commit result →
    P.commitWrites c.db t.writes = some db →
    I (c.answer db ⟨t.id, t.request, result⟩) ∧
      ∀ u, J c u → P.Separate t u → J (c.answer db ⟨t.id, t.request, result⟩) u

/-- The assertions hold, and no two transactions are in each other's way. -/
structure Asserted (P : RowProtocol δ ν ω ρ φ α τ) (I : Committed δ ν ρ α → Prop)
    (J : Committed δ ν ρ α → RowTransaction ν ω ρ φ → Prop) (s : RowTraffic δ ν ω ρ φ α) : Prop where
  apart : P.Apart s
  committed : I s.committed
  transactions : ∀ t ∈ s.transactions, J s.committed t

variable {I : Committed δ ν ρ α → Prop} {J : Committed δ ν ρ α → RowTransaction ν ω ρ φ → Prop}

theorem asserted_idle {db : δ} {issued : List ν} (h : I ⟨db, issued, []⟩) :
    P.Asserted I J (.idle db issued) where
  apart := ⟨fun _ ht ↦ absurd ht (Table.notMem_empty _), fun _ ht ↦ absurd ht (Table.notMem_empty _)⟩
  committed := h
  transactions := fun _ ht ↦ absurd ht (Table.notMem_empty _)

theorem Stable.next (hP : P.Stable I J) {a : RowStep ρ τ} (h : P.Asserted I J s)
    (ha : P.system.Enabled s a) : P.Asserted I J (P.system.next s a) := by
  have hapart := h.apart.next ha
  have heffect := effect_of_enabled ha
  generalize P.system.next s a = s' at heffect hapart ⊢
  refine ⟨hapart, ?_, ?_⟩
  · cases heffect with
    | began q transactions hnodup hfresh hinsert => exact (hP.began s q h.committed hnodup hfresh).1
    | took t l rest clock ht hpending hfree => exact h.committed
    | scanned t clock locks writes phase ht hpending hstatement => exact h.committed
    | answered t clock result db ht hpending hstatement hwrites =>
        exact (hP.answered _ t clock result db h.committed (h.transactions t ht) hpending hstatement
          hwrites).1
    | left a id => exact h.committed
  · cases heffect with
    | began q transactions hnodup hfresh hinsert =>
        obtain ⟨_, hopening, hkeep⟩ := hP.began s q h.committed hnodup hfresh
        intro t ht
        rcases (Table.mem_insert hinsert).mp ht with rfl | ht
        · exact hopening
        · exact hkeep t (h.transactions t ht)
    | took t l rest clock ht hpending hfree =>
        intro u hu
        rcases (RowTraffic.mem_put_take ht).mp hu with rfl | ⟨hu, _⟩
        · exact hP.took _ t l rest clock h.committed (h.transactions t ht) hpending
        · exact h.transactions u hu
    | scanned t clock locks writes phase ht hpending hstatement =>
        intro u hu
        rcases (RowTraffic.mem_put_scan ht).mp hu with rfl | ⟨hu, _⟩
        · exact hP.scanned _ t clock locks writes phase h.committed (h.transactions t ht) hpending
            hstatement
        · exact h.transactions u hu
    | answered t clock result db ht hpending hstatement hwrites =>
        intro u hu
        obtain ⟨hu, hne⟩ := RowTraffic.mem_leave.mp hu
        exact (hP.answered _ t clock result db h.committed (h.transactions t ht) hpending hstatement
          hwrites).2 u (h.transactions u hu) 
          (h.apart.separate t ht u hu (Ne.symm hne))
    | left a id => exact fun u hu ↦ h.transactions u (RowTraffic.mem_leave.mp hu).1

theorem Stable.exec (hP : P.Stable I J) {as : List (RowStep ρ τ)} (h : P.Asserted I J s)
    (has : P.system.Valid s as) : P.Asserted I J (P.system.exec s as) :=
  has.invariant h fun _ _ h ha ↦ hP.next h ha

end Assertions

end RowProtocol

end Histae.Systems
