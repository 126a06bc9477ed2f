import Histae.Paging.Loop
import Histae.Privacy.ExportDocument

/-!
# Writing while reading

The steps of an export read the snapshot and write to the file in turn. Every
statement may fail; a failed step ends the export. What a step writes when it
succeeds is a list of writer calls that the snapshot determines: `Emits` says
which, and that the step ends.
-/

namespace Histae.Privacy

open Paging Text

section Steps

/-- The writer, and which of the statements to come fail. -/
structure ExportRun (φ : Type) where
  writer : JsonExportWriter φ
  outages : List Bool

/-- Steps that fail with an error; none when a loop is cut off. -/
abbrev RunM (φ ε : Type) := ExceptT ε (StateT (ExportRun φ) Option)

abbrev ExportM (φ : Type) := RunM φ ExportBuildError

variable {φ ε α β : Type}

def RunM.outcome (m : RunM φ ε α) (s : ExportRun φ) : Option (Except ε α × ExportRun φ) :=
  StateT.run (ExceptT.run m) s

def cutOff : RunM φ ε α := ExceptT.mk fun _ ↦ none

/-- A call of the writer. -/
def writing (m : WriterM φ α) : ExportM φ α :=
  ExceptT.mk fun s ↦ some ((m.outcome s.writer).1, { s with writer := (m.outcome s.writer).2 })

/-- A statement and what it reads of the snapshot. -/
def query (rows : α) : ExportM φ α :=
  ExceptT.mk fun s ↦
    some (if s.outages.head?.getD false then .error .database else .ok rows,
      { s with outages := s.outages.tail })

variable [AsyncFile φ]

def call (c : WriterCall) : ExportM φ Unit := writing c.run

def writeRows : List Json → ExportM φ Unit
  | [] => pure ()
  | row :: rows => do
      call (.item (some row))
      writeRows rows

def u64Limit : ℕ := 2 ^ 64 - 1

variable {ρ κ γ : Type} [LinearOrder κ]

def fetchPage (q : PagedQuery ρ κ γ) (cursor : Option γ) (pageSize : ℕ) : ExportM φ (List ρ) :=
  match q.page cursor pageSize with
  | none => throw .database
  | some rows => query rows

/-- Writes the rows behind the cursor page by page until a page is not full,
and counts them. -/
def writePages (q : PagedQuery ρ κ γ) (value : ρ → Json) (pageSize : ℕ) :
    ℕ → Option γ → ℕ → ExportM φ ℕ
  | 0, _, _ => cutOff
  | fuel + 1, cursor, count => do
      let rows ← fetchPage q cursor pageSize
      writeRows (rows.map value)
      let count := min (count + rows.length) u64Limit
      if rows.length < pageSize then pure count
      else
        match rows.getLast? with
        | none => throw .database
        | some last => writePages q value pageSize fuel (some (q.cursor last)) count

/-- `start_array`, the pages, `end_array`. -/
def writeArray (name : String) (q : PagedQuery ρ κ γ) (value : ρ → Json) (pageSize fuel : ℕ) :
    ExportM φ ℕ := do
  call (.startArray name)
  let count ← writePages q value pageSize fuel none 0
  call .endArray
  pure count

end Steps

section Emits

variable {φ ε α β : Type} [AsyncFile φ]

/-- The step ends, and if it succeeds it returns `a` and has made these calls. -/
def Emits (m : RunM φ ε α) (calls : List WriterCall) (a : α) : Prop :=
  ∀ s, ∃ r s', m.outcome s = some (r, s') ∧
    ∀ x, r = .ok x → x = a ∧ Performs calls s.writer s'.writer

theorem performs_append {first rest : List WriterCall} {w w₁ w' : JsonExportWriter φ}
    (hfirst : Performs first w w₁) (hrest : Performs rest w₁ w') : Performs (first ++ rest) w w' := by
  induction first generalizing w with
  | nil =>
      obtain rfl := hfirst.2
      exact hrest
  | cons call first ih =>
      obtain ⟨hok, hw₁⟩ := hfirst
      have htail : Performs first (call.run.outcome w).2 w₁ :=
        ⟨fun result hresult ↦ hok result (List.mem_cons_of_mem _ hresult), hw₁⟩
      obtain ⟨hrest', hw'⟩ := ih htail
      refine ⟨?_, hw'⟩
      intro result hresult
      rcases List.mem_cons.mp hresult with rfl | hresult
      · exact hok _ List.mem_cons_self
      · exact hrest' result hresult

variable {m : RunM φ ε α} {f : α → RunM φ ε β} {first rest calls : List WriterCall} {a : α} {b : β}

omit [AsyncFile φ] in
theorem RunM.outcome_bind (m : RunM φ ε α) (f : α → RunM φ ε β) (s : ExportRun φ) :
    (m >>= f).outcome s = (m.outcome s).bind fun result ↦
      match result with
      | (.ok a, s₁) => (f a).outcome s₁
      | (.error e, s₁) => some (.error e, s₁) := by
  simp only [RunM.outcome, ExceptT.run_bind, StateT.run_bind]
  change Option.bind _ _ = _
  refine Option.bind_congr fun result _ ↦ ?_
  rcases result with ⟨_ | _, _⟩ <;> rfl

theorem Emits.bind (hfirst : Emits m first a) (hrest : Emits (f a) rest b) :
    Emits (m >>= f) (first ++ rest) b := by
  intro s
  obtain ⟨r, s₁, houtcome, hok⟩ := hfirst s
  rw [RunM.outcome_bind, houtcome, Option.bind_some]
  cases r with
  | error e => exact ⟨.error e, s₁, rfl, fun x hx ↦ nomatch hx⟩
  | ok x =>
      obtain ⟨rfl, hperforms⟩ := hok x rfl
      obtain ⟨r', s', houtcome', hok'⟩ := hrest s₁
      refine ⟨r', s', houtcome', fun y hy ↦ ?_⟩
      obtain ⟨rfl, hperforms'⟩ := hok' y hy
      exact ⟨rfl, performs_append hperforms hperforms'⟩

theorem emits_pure (a : α) : Emits (pure a : RunM φ ε α) [] a := by
  intro s
  refine ⟨.ok a, s, rfl, ?_⟩
  intro x hx
  exact ⟨(Except.ok.inj hx).symm, fun _ h ↦ absurd h List.not_mem_nil, rfl⟩

theorem emits_throw (e : ε) (calls : List WriterCall) (a : α) :
    Emits (throw e : RunM φ ε α) calls a := by
  intro s
  refine ⟨.error e, s, rfl, ?_⟩
  intro x hx
  cases hx

theorem emits_query (a : α) : Emits (query a : ExportM φ α) [] a := by
  intro s
  refine ⟨_, _, rfl, ?_⟩
  intro x hx
  split_ifs at hx
  exact ⟨(Except.ok.inj hx).symm, fun _ h ↦ absurd h List.not_mem_nil, rfl⟩

theorem emits_call (c : WriterCall) : Emits (call c : ExportM φ Unit) [c] () := by
  intro s
  refine ⟨(c.run.outcome s.writer).1, { s with writer := (c.run.outcome s.writer).2 }, rfl, ?_⟩
  intro x hx
  refine ⟨rfl, ?_, rfl⟩
  intro result hresult
  obtain rfl := List.mem_singleton.mp hresult
  exact hx

theorem emits_writeRows (rows : List Json) :
    Emits (writeRows rows : ExportM φ Unit) (rows.map fun row ↦ .item (some row)) () := by
  induction rows with
  | nil => exact emits_pure ()
  | cons row rows ih => exact (emits_call _).bind ih

section Pages

variable {ρ κ γ : Type} [LinearOrder κ] {q : PagedQuery ρ κ γ} {value : ρ → Json} {pageSize : ℕ}

/-- The rows still to write are written, in order, whatever the pages. -/
theorem emits_writePages (hsize : 0 < pageSize) {fuel count : ℕ} {done rest : List ρ}
    (hall : q.ordered = done ++ rest) (hfuel : rest.length < fuel) :
    Emits (writePages q value pageSize fuel (done.getLast?.map q.cursor) (min count u64Limit) :
        ExportM φ ℕ)
      ((rest.map value).map fun row ↦ .item (some row)) (min (count + rest.length) u64Limit) := by
  induction fuel generalizing done rest count with
  | zero => omega
  | succ fuel ih =>
      have hfetch : Emits (fetchPage q (done.getLast?.map q.cursor) pageSize : ExportM φ (List ρ)) []
          (rest.take pageSize) := by
        rw [fetchPage, PagedQuery.page_eq hall]
        exact emits_query _
      have hcount : min (min count u64Limit + (rest.take pageSize).length) u64Limit =
          min (count + (rest.take pageSize).length) u64Limit := by omega
      have hsplit : (rest.map value).map (fun row ↦ WriterCall.item (some row)) =
          [] ++ (((rest.take pageSize).map value).map (fun row ↦ WriterCall.item (some row)) ++
            ((rest.drop pageSize).map value).map fun row ↦ WriterCall.item (some row)) := by
        rw [List.nil_append, ← List.map_append, ← List.map_append, List.take_append_drop]
      rw [hsplit, writePages]
      refine hfetch.bind ((emits_writeRows _).bind ?_)
      rw [hcount]
      by_cases hmore : (rest.take pageSize).length < pageSize
      · have hshort : rest.length < pageSize := by
          rw [List.length_take] at hmore
          omega
        rw [if_pos hmore, List.take_of_length_le hshort.le, List.drop_of_length_le hshort.le]
        exact emits_pure _
      · rw [if_neg hmore]
        have hlength : (rest.take pageSize).length = pageSize := by
          rw [List.length_take] at hmore ⊢
          omega
        have hne : rest.take pageSize ≠ [] := by
          apply List.ne_nil_of_length_pos
          rw [hlength]
          exact hsize
        have hdrop : (rest.drop pageSize).length < fuel := by
          rw [List.length_take] at hlength
          rw [List.length_drop]
          omega
        have htotal : count + (rest.take pageSize).length + (rest.drop pageSize).length =
            count + rest.length := by
          rw [Nat.add_assoc, ← List.length_append, List.take_append_drop]
        cases hlast : (rest.take pageSize).getLast? with
        | none => exact absurd (List.getLast?_eq_none_iff.mp hlast) hne
        | some last =>
            have hdone : (done ++ rest.take pageSize).getLast? = some last := by
              rw [List.getLast?_append_of_ne_nil _ hne, hlast]
            have hnext : Emits (writePages q value pageSize fuel
                ((done ++ rest.take pageSize).getLast?.map q.cursor)
                (min (count + (rest.take pageSize).length) u64Limit) : ExportM φ ℕ)
                (((rest.drop pageSize).map value).map fun row ↦ .item (some row))
                (min (count + (rest.take pageSize).length + (rest.drop pageSize).length) u64Limit) :=
              ih (by rw [hall, List.append_assoc, List.take_append_drop]) hdrop
            rw [hdone, htotal] at hnext
            exact hnext

/-- The calls that write an array of some rows. -/
def arrayCalls (name : String) (rows : List Json) : List WriterCall :=
  .startArray name :: rows.map (fun row ↦ .item (some row)) ++ [.endArray]

theorem emits_writeArray (hsize : 0 < pageSize) {fuel : ℕ} (hfuel : q.rows.length < fuel)
    (name : String) :
    Emits (writeArray name q value pageSize fuel : ExportM φ ℕ) (arrayCalls name (q.ordered.map value))
      (min q.rows.length u64Limit) := by
  have hlength : q.ordered.length = q.rows.length := perm_oldestFirst.length_eq
  have hall : q.ordered = [] ++ q.ordered := rfl
  have hpages : Emits (writePages q value pageSize fuel (([] : List ρ).getLast?.map q.cursor)
      (min 0 u64Limit) : ExportM φ ℕ) ((q.ordered.map value).map fun row ↦ .item (some row))
      (min (0 + q.ordered.length) u64Limit) := emits_writePages hsize hall (hlength ▸ hfuel)
  rw [Nat.zero_add, hlength] at hpages
  exact (emits_call _).bind (hpages.bind ((emits_call _).bind (emits_pure _)))

end Pages

end Emits

end Histae.Privacy
