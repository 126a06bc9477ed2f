import Histae.Billing.Stores
import Histae.Shared.Text

/-!
# Store finance reports

`import_report` stores the rows of a report one by one in one transaction. A row
whose key is stored passes when it says the same and makes the whole import a
conflict otherwise. So the table is the union of the accepted reports, and the
totals over it do not depend on their order.
-/

namespace Histae.Billing

open Relational

/-- A row of a report. -/
structure FinanceRow where
  rowId : List Char
  paidAt : ℤ
  currency : List Char
  grossCents : ℤ
  netCents : Option ℤ
  deriving DecidableEq

structure StoreFinanceImport where
  provider : StoreProvider
  reportId : List Char
  rows : List FinanceRow
  deriving DecidableEq

/-- What a stored row says and what identifies it. -/
structure FinanceLine where
  provider : StoreProvider
  reportId : List Char
  row : FinanceRow
  deriving DecidableEq

/-- A row of `billing_store_finance`. -/
structure StoreFinance where
  line : FinanceLine
  importedBy : Option Uuid
  importedAt : ℤ
  deriving DecidableEq

def FinanceLine.key (l : FinanceLine) : StoreProvider × List Char × List Char :=
  (l.provider, l.reportId, l.row.rowId)

def StoreFinance.key (r : StoreFinance) : StoreProvider × List Char × List Char := r.line.key

inductive FinanceImportError
  | invalid
  | forbidden
  | conflict
  deriving DecidableEq

section Source

def isIdentifierChar (c : Char) : Bool := c.isAlphanum || c ∈ ['_', '.', ':', '-']

def identifier (value : List Char) : Bool :=
  !value.isEmpty && decide (Shared.utf8Len value ≤ 128) && value.all isIdentifierChar

def maxAmount : ℤ := 1000000000000

def FinanceRow.valid (row : FinanceRow) (now : ℤ) : Bool :=
  identifier row.rowId && decide (row.currency.length = 3) && row.currency.all Char.isUpper &&
    decide (|row.grossCents| ≤ maxAmount) && row.netCents.all (fun v ↦ decide (|v| ≤ maxAmount)) &&
    decide (row.paidAt ≤ now + minutes 5)

/-- The rows from an index on; the clock is read for every row, and the
identifiers before are known. -/
def validRows (now : ℕ → ℤ) : ℕ → List (List Char) → List FinanceRow → Bool
  | _, _, [] => true
  | i, seen, row :: rest =>
      row.valid (now i) && decide (row.rowId ∉ seen) && validRows now (i + 1) (row.rowId :: seen) rest

def StoreFinanceImport.valid (body : StoreFinanceImport) (now : ℕ → ℤ) : Bool :=
  identifier body.reportId && !body.rows.isEmpty && decide (body.rows.length ≤ 1000) &&
    validRows now 0 [] body.rows

def StoreFinanceImport.lines (body : StoreFinanceImport) : List FinanceLine :=
  body.rows.map fun row ↦ ⟨body.provider, body.reportId, row⟩

abbrev FinanceTable := Table StoreFinance.key

/-- `IMPORT_ROW_SQL`; no table when no row was affected. -/
def importRow (t : FinanceTable) (entry : StoreFinance) : Option FinanceTable :=
  match t.find? entry.key with
  | none => t.insert? entry
  | some stored => if stored.line = entry.line then some t else none

def importRows (actor : Uuid) (importedAt : ℕ → ℤ) :
    ℕ → FinanceTable → List FinanceLine → Option FinanceTable
  | _, t, [] => some t
  | i, t, line :: rest =>
      (importRow t ⟨line, some actor, importedAt i⟩).bind fun t ↦
        importRows actor importedAt (i + 1) t rest

/-- `LOCK_IMPORT_ACTOR_SQL`. -/
def lockImportActor (accounts : Table UserAccount.userId) (actor : Uuid) : Option Role :=
  ((accounts.find? actor).filter fun a ↦ a.deletedAt.isNone && !a.isBanned).map UserAccount.role

/-- The readings are those of the validation and of the insertions. -/
structure ImportCall where
  accounts : Table UserAccount.userId
  actor : Uuid
  body : StoreFinanceImport
  now : ℕ → ℤ
  importedAt : ℕ → ℤ

def importReport (t : FinanceTable) (call : ImportCall) :
    Except FinanceImportError Unit × FinanceTable :=
  if !call.body.valid call.now then (.error .invalid, t)
  else if lockImportActor call.accounts call.actor ≠ some .superadmin then (.error .forbidden, t)
  else
    match importRows call.actor call.importedAt 0 t call.body.lines with
    | none => (.error .conflict, t)
    | some t => (.ok (), t)

end Source

section Summary

structure StoreFinanceSummary where
  provider : StoreProvider
  currency : List Char
  grossCents : ℤ
  netCents : Option ℤ
  rows : ℕ
  lastImportedAt : ℤ
  deriving DecidableEq

/-- The start of the period, if it has one, and its end. -/
abbrev Period := Option ℤ × ℤ

def inPeriod (period : Period) (r : StoreFinance) : Bool :=
  period.1.all (fun start ↦ decide (start ≤ r.line.row.paidAt)) && decide (r.line.row.paidAt < period.2)

def StoreFinance.group (r : StoreFinance) : StoreProvider × List Char :=
  (r.line.provider, r.line.row.currency)

/-- The rows behind one line of the summary. -/
def grouped (t : FinanceTable) (period : Period) (group : StoreProvider × List Char) :
    List StoreFinance := t.select fun r ↦ inPeriod period r && decide (r.group = group)

/-- `::bigint`, which fails outside its range. -/
def toBigint (n : ℤ) : Option ℤ := if -2 ^ 63 ≤ n ∧ n < 2 ^ 63 then some n else none

/-- The net total of the rows, absent when one of them has no net amount. -/
def netTotal (count : ℕ) (nets : List ℤ) : Option (Option ℤ) :=
  if count = nets.length then (toBigint nets.sum).map some else some none

/-- One line of `FINANCE_SQL`; none when a total does not fit. -/
def summaryOf (group : StoreProvider × List Char) (rows : List StoreFinance) :
    Option StoreFinanceSummary :=
  (toBigint (rows.map fun r ↦ r.line.row.grossCents).sum).bind fun grossCents ↦
    (netTotal rows.length (rows.filterMap fun r ↦ r.line.row.netCents)).map fun netCents ↦
      { provider := group.1
        currency := group.2
        grossCents
        netCents
        rows := rows.length
        lastImportedAt := (rows.map StoreFinance.importedAt).max?.getD 0 }

def providerRank : StoreProvider → ℕ
  | .appStore => 0
  | .googlePlay => 1

def groupBefore (a b : StoreProvider × List Char) : Prop :=
  providerRank a.1 < providerRank b.1 ∨ a.1 = b.1 ∧ a.2 ≤ b.2

instance : DecidableRel groupBefore := fun _ _ ↦
  inferInstanceAs (Decidable (_ ∨ _))

def financeSummary (t : FinanceTable) (period : Period) : Option (List StoreFinanceSummary) :=
  (((t.select (inPeriod period)).map StoreFinance.group).dedup.insertionSort groupBefore).mapM
    fun group ↦ summaryOf group (grouped t period group)

end Summary

section Imports

variable {t t' : FinanceTable} {entry r : StoreFinance} {line : FinanceLine} {actor : Uuid}
  {importedAt : ℕ → ℤ} {i : ℕ} {lines : List FinanceLine}

def stored (t : FinanceTable) (line : FinanceLine) : Prop := ∃ r ∈ t, r.line = line

/-- Stored rows stay, and lines are added. -/
structure AddsLines (t : FinanceTable) (lines : List FinanceLine) (t' : FinanceTable) : Prop where
  kept : ∀ r ∈ t, r ∈ t'
  stored_iff : ∀ line, stored t' line ↔ stored t line ∨ line ∈ lines

theorem addsLines_importRow (h : importRow t entry = some t') : AddsLines t [entry.line] t' := by
  unfold importRow at h
  split at h
  · refine ⟨fun r hr ↦ (Table.mem_insert h).mpr (Or.inr hr), fun line ↦ ?_⟩
    constructor
    · rintro ⟨r, hr, rfl⟩
      rcases (Table.mem_insert h).mp hr with rfl | hr
      · exact Or.inr (List.mem_singleton.mpr rfl)
      · exact Or.inl ⟨r, hr, rfl⟩
    · rintro (⟨r, hr, rfl⟩ | hline)
      · exact ⟨r, (Table.mem_insert h).mpr (Or.inr hr), rfl⟩
      · exact ⟨entry, (Table.mem_insert h).mpr (Or.inl rfl), (List.mem_singleton.mp hline).symm⟩
  · rename_i old hfound
    split at h
    · rename_i hsame
      obtain rfl := Option.some.inj h
      refine ⟨fun r hr ↦ hr, fun line ↦ ⟨Or.inl, ?_⟩⟩
      rintro (hline | hline)
      · exact hline
      · exact ⟨old, (Table.find?_eq_some_iff.mp hfound).1,
          hsame.trans (List.mem_singleton.mp hline).symm⟩
    · cases h

theorem addsLines_importRows (h : importRows actor importedAt i t lines = some t') : AddsLines t lines t' := by
  induction lines generalizing i t with
  | nil =>
      obtain rfl := Option.some.inj h
      exact ⟨fun r hr ↦ hr, fun line ↦ by simp⟩
  | cons line rest ih =>
      obtain ⟨middle, hrow, hrest⟩ := Option.bind_eq_some_iff.mp h
      have hfirst := addsLines_importRow hrow
      have hlater := ih hrest
      refine ⟨fun r hr ↦ hlater.kept r (hfirst.kept r hr), fun l ↦ ?_⟩
      rw [hlater.stored_iff, hfirst.stored_iff, List.mem_cons]
      simp [or_assoc]

/-- Lines that are stored pass and change nothing. -/
theorem importRows_of_stored (h : ∀ line ∈ lines, stored t line) :
    importRows actor importedAt i t lines = some t := by
  induction lines generalizing i with
  | nil => rfl
  | cons line rest ih =>
      obtain ⟨r, hr, hline⟩ := h line (by simp)
      have hkey : r.key = StoreFinance.key ⟨line, some actor, importedAt i⟩ := by
        unfold StoreFinance.key
        rw [hline]
      have hfound : t.find? (StoreFinance.key ⟨line, some actor, importedAt i⟩) = some r := by
        rw [← hkey]
        exact Table.find?_key hr
      have hrow : importRow t ⟨line, some actor, importedAt i⟩ = some t := by
        unfold importRow
        rw [hfound]
        exact if_pos hline
      rw [importRows, hrow]
      exact ih fun l hl ↦ h l (by simp [hl])

/-- Everything an import can do. -/
inductive ImportEffect (t : FinanceTable) (call : ImportCall) :
    Except FinanceImportError Unit → FinanceTable → Prop
  | refused (error : FinanceImportError) : ImportEffect t call (.error error) t
  | accepted (t' : FinanceTable)
      (h : importRows call.actor call.importedAt 0 t call.body.lines = some t') :
      ImportEffect t call (.ok ()) t'

theorem importReport_effect (t : FinanceTable) (call : ImportCall) :
    ImportEffect t call (importReport t call).1 (importReport t call).2 := by
  unfold importReport
  split
  · exact .refused .invalid
  · split
    · exact .refused .forbidden
    · split
      · exact .refused .conflict
      · rename_i t' himport
        exact .accepted t' himport

end Imports

section Runs

/-- The table and the reports accepted so far, the newest first. -/
structure FinanceLedger where
  rows : FinanceTable
  accepted : List StoreFinanceImport

def FinanceLedger.next (w : FinanceLedger) (call : ImportCall) : FinanceLedger :=
  match importReport w.rows call with
  | (.ok _, rows) => ⟨rows, call.body :: w.accepted⟩
  | (.error _, rows) => ⟨rows, w.accepted⟩

def importAll (rows : FinanceTable) (calls : List ImportCall) : FinanceLedger :=
  calls.foldl FinanceLedger.next ⟨rows, []⟩

/-- The table is what it was at the start and the accepted reports. -/
structure Union (start : FinanceTable) (w : FinanceLedger) : Prop where
  kept : ∀ r ∈ start, r ∈ w.rows
  stored_iff : ∀ line, stored w.rows line ↔
    stored start line ∨ ∃ body ∈ w.accepted, line ∈ body.lines

variable {start : FinanceTable} {w : FinanceLedger}

theorem Union.next (h : Union start w) (call : ImportCall) : Union start (w.next call) := by
  have heffect := importReport_effect w.rows call
  unfold FinanceLedger.next
  generalize importReport w.rows call = outcome at heffect
  obtain ⟨result, rows⟩ := outcome
  cases heffect with
  | refused error => exact h
  | accepted _ himport =>
      have hadds := addsLines_importRows himport
      refine ⟨fun r hr ↦ hadds.kept r (h.kept r hr), fun line ↦ ?_⟩
      rw [hadds.stored_iff, h.stored_iff, List.exists_mem_cons_iff, or_assoc]
      exact or_congr_right or_comm

theorem union_importAll (start : FinanceTable) (calls : List ImportCall) :
    Union start (importAll start calls) := by
  have hstart : Union start ⟨start, []⟩ := ⟨fun r hr ↦ hr, fun line ↦ by simp⟩
  unfold importAll
  generalize (⟨start, []⟩ : FinanceLedger) = w at hstart
  induction calls generalizing w with
  | nil => exact hstart
  | cons call calls ih => exact ih _ (hstart.next call)

theorem FinanceLedger.kept_next (w : FinanceLedger) (call : ImportCall) :
    ∀ r ∈ w.rows, r ∈ (w.next call).rows := by
  have heffect := importReport_effect w.rows call
  unfold FinanceLedger.next
  generalize importReport w.rows call = outcome at heffect
  obtain ⟨result, rows⟩ := outcome
  cases heffect with
  | refused error => exact fun r hr ↦ hr
  | accepted _ himport => exact (addsLines_importRows himport).kept

/-- A stored row stays as it is. -/
theorem kept_importAll (start : FinanceTable) (calls more : List ImportCall) :
    ∀ r ∈ (importAll start calls).rows, r ∈ (importAll start (calls ++ more)).rows := by
  unfold importAll
  rw [List.foldl_append]
  generalize calls.foldl FinanceLedger.next ⟨start, []⟩ = w
  induction more generalizing w with
  | nil => exact fun r hr ↦ hr
  | cons call more ih => exact fun r hr ↦ ih (w.next call) r (w.kept_next call r hr)

/-- An accepted report changes nothing when it comes again. -/
theorem Union.repeated (h : Union start w) {call : ImportCall} (hbody : call.body ∈ w.accepted) :
    (w.next call).rows = w.rows := by
  have hstored : ∀ line ∈ call.body.lines, stored w.rows line := fun line hline ↦
    (h.stored_iff line).mpr (Or.inr ⟨call.body, hbody, hline⟩)
  have heffect := importReport_effect w.rows call
  unfold FinanceLedger.next
  generalize importReport w.rows call = outcome at heffect
  obtain ⟨result, rows⟩ := outcome
  cases heffect with
  | refused error => rfl
  | accepted _ himport =>
      rw [importRows_of_stored hstored] at himport
      exact (Option.some.inj himport).symm

end Runs

section Totals

variable {t t' : FinanceTable} {period : Period} {group : StoreProvider × List Char}

def totals (s : StoreFinanceSummary) : ℤ × Option ℤ × ℕ := (s.grossCents, s.netCents, s.rows)

/-- The totals depend on the lines alone. -/
def totalsOf (lines : List FinanceLine) : Option (ℤ × Option ℤ × ℕ) :=
  (toBigint (lines.map fun l ↦ l.row.grossCents).sum).bind fun grossCents ↦
    (netTotal lines.length (lines.filterMap fun l ↦ l.row.netCents)).map fun netCents ↦
      (grossCents, netCents, lines.length)

theorem totals_summaryOf (group : StoreProvider × List Char) (rows : List StoreFinance) :
    (summaryOf group rows).map totals = totalsOf (rows.map StoreFinance.line) := by
  unfold summaryOf totalsOf
  rw [List.map_map, List.filterMap_map, List.length_map, Option.map_bind]
  refine congrArg _ (funext fun gross ↦ ?_)
  exact Option.map_map _ _ _

theorem totalsOf_perm {lines lines' : List FinanceLine} (h : lines.Perm lines') :
    totalsOf lines = totalsOf lines' := by
  have hnet : netTotal lines.length (lines.filterMap fun l ↦ l.row.netCents) =
      netTotal lines'.length (lines'.filterMap fun l ↦ l.row.netCents) := by
    unfold netTotal
    rw [(h.filterMap _).sum_eq, (h.filterMap _).length_eq, h.length_eq]
  unfold totalsOf
  rw [(h.map _).sum_eq, hnet, h.length_eq]

theorem nodup_lines (t : FinanceTable) : (t.rows.map StoreFinance.line).Nodup := by
  have hkeys : ((t.rows.map StoreFinance.line).map FinanceLine.key).Nodup := by
    rw [List.map_map]
    exact t.nodup
  exact hkeys.of_map _

theorem mem_lines_iff {line : FinanceLine} :
    line ∈ t.rows.map StoreFinance.line ↔ stored t line := by
  simp [stored, Table.mem_rows]

/-- Tables that store the same lines have the same totals. -/
theorem totals_eq_of_stored (h : ∀ line, stored t line ↔ stored t' line) (period : Period)
    (group : StoreProvider × List Char) :
    (summaryOf group (grouped t period group)).map totals =
      (summaryOf group (grouped t' period group)).map totals := by
  have hperm : (t.rows.map StoreFinance.line).Perm (t'.rows.map StoreFinance.line) :=
    (List.perm_ext_iff_of_nodup (nodup_lines t) (nodup_lines t')).mpr fun line ↦ by
      rw [mem_lines_iff, mem_lines_iff, h]
  have hlines (t : FinanceTable) : (grouped t period group).map StoreFinance.line =
      (t.rows.map StoreFinance.line).filter fun l ↦
        inPeriod period ⟨l, none, 0⟩ && decide (StoreFinance.group ⟨l, none, 0⟩ = group) := by
    rw [List.filter_map]
    rfl
  rw [totals_summaryOf, totals_summaryOf, hlines, hlines]
  exact totalsOf_perm (hperm.filter _)

theorem toBigint_eq_some {n m : ℤ} (h : toBigint n = some m) : m = n := by
  unfold toBigint at h
  split at h
  · exact (Option.some.inj h).symm
  · cases h

theorem length_filterMap_eq_iff {α β : Type} {f : α → Option β} {l : List α} :
    l.length = (l.filterMap f).length ↔ ∀ a ∈ l, (f a).isSome = true := by
  induction l with
  | nil => simp
  | cons a l ih =>
      have hle := List.length_filterMap_le f l
      cases ha : f a with
      | none =>
          rw [List.filterMap_cons_none ha]
          constructor
          · intro h
            rw [List.length_cons] at h
            omega
          · intro h
            have hsome := h a (by simp)
            rw [ha] at hsome
            cases hsome
      | some b =>
          rw [List.filterMap_cons_some ha, List.length_cons, List.length_cons, Nat.succ_inj, ih]
          simp [ha]

/-- The gross total is the sum, and the net total too unless it is absent for
want of a net amount. -/
structure Exact (rows : List StoreFinance) (s : StoreFinanceSummary) : Prop where
  gross : s.grossCents = (rows.map fun r ↦ r.line.row.grossCents).sum
  absent : s.netCents = none ↔ ∃ r ∈ rows, r.line.row.netCents = none
  net : ∀ n, s.netCents = some n → n = (rows.filterMap fun r ↦ r.line.row.netCents).sum
  count : s.rows = rows.length

theorem exact_of_summaryOf {rows : List StoreFinance} {s : StoreFinanceSummary}
    (h : summaryOf group rows = some s) : (s.provider, s.currency) = group ∧ Exact rows s := by
  obtain ⟨gross, hgross, h⟩ := Option.bind_eq_some_iff.mp h
  obtain ⟨net, hnet, rfl⟩ := Option.map_eq_some_iff.mp h
  have hall : rows.length = (rows.filterMap fun r ↦ r.line.row.netCents).length ↔
      ∀ r ∈ rows, r.line.row.netCents.isSome = true := length_filterMap_eq_iff
  refine ⟨rfl, toBigint_eq_some hgross, ?_, ?_, rfl⟩
  · unfold netTotal at hnet
    split at hnet
    · rename_i hlength
      obtain ⟨n, _, rfl⟩ := Option.map_eq_some_iff.mp hnet
      refine iff_of_false (nomatch ·) ?_
      rintro ⟨r, hr, hnone⟩
      have hsome := hall.mp hlength r hr
      rw [hnone] at hsome
      cases hsome
    · rename_i hlength
      obtain rfl := Option.some.inj hnet
      refine iff_of_true rfl ?_
      by_contra hno
      refine hlength (hall.mpr fun r hr ↦ ?_)
      by_contra hnone
      exact hno ⟨r, hr, by simpa using hnone⟩
  · rintro n rfl
    unfold netTotal at hnet
    split at hnet
    · obtain ⟨m, hm, heq⟩ := Option.map_eq_some_iff.mp hnet
      rw [← Option.some.inj heq]
      exact toBigint_eq_some hm
    · cases hnet

theorem mem_of_mapM {α β : Type} {f : α → Option β} {l : List α} {bs : List β}
    (h : l.mapM f = some bs) :
    (∀ b ∈ bs, ∃ a ∈ l, f a = some b) ∧ ∀ a ∈ l, ∃ b ∈ bs, f a = some b := by
  induction l generalizing bs with
  | nil =>
      obtain rfl := Option.some.inj h
      exact ⟨fun b hb ↦ absurd hb List.not_mem_nil, fun a ha ↦ absurd ha List.not_mem_nil⟩
  | cons a l ih =>
      rw [List.mapM_cons] at h
      obtain ⟨b, hb, h⟩ := Option.bind_eq_some_iff.mp h
      obtain ⟨rest, hrest, h⟩ := Option.bind_eq_some_iff.mp h
      obtain rfl := Option.some.inj h
      obtain ⟨hbs, has⟩ := ih hrest
      refine ⟨fun c hc ↦ ?_, fun c hc ↦ ?_⟩
      · rcases List.mem_cons.mp hc with rfl | hc
        · exact ⟨a, by simp, hb⟩
        · obtain ⟨d, hd, hfd⟩ := hbs c hc
          exact ⟨d, by simp [hd], hfd⟩
      · rcases List.mem_cons.mp hc with rfl | hc
        · exact ⟨b, by simp, hb⟩
        · obtain ⟨d, hd, hfd⟩ := has c hc
          exact ⟨d, by simp [hd], hfd⟩

/-- Every group of the period has its line, and every line is exact. -/
theorem financeSummary_exact {summary : List StoreFinanceSummary}
    (h : financeSummary t period = some summary) :
    (∀ s ∈ summary, Exact (grouped t period (s.provider, s.currency)) s) ∧
      ∀ r ∈ t, inPeriod period r = true → ∃ s ∈ summary, (s.provider, s.currency) = r.group := by
  obtain ⟨hlines, hgroups⟩ := mem_of_mapM h
  refine ⟨fun s hs ↦ ?_, fun r hr hperiod ↦ ?_⟩
  · obtain ⟨group, _, hsummary⟩ := hlines s hs
    obtain ⟨hgroup, hexact⟩ := exact_of_summaryOf hsummary
    rw [hgroup]
    exact hexact
  · have hmem : r.group ∈ (((t.select (inPeriod period)).map
        StoreFinance.group).dedup.insertionSort groupBefore) := by
      rw [List.mem_insertionSort, List.mem_dedup]
      exact List.mem_map_of_mem (Table.mem_select.mpr ⟨hr, hperiod⟩)
    obtain ⟨s, hs, hsummary⟩ := hgroups _ hmem
    exact ⟨s, hs, (exact_of_summaryOf hsummary).1⟩

end Totals

end Histae.Billing
