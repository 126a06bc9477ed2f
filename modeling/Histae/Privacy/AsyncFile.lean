import Mathlib

/-!
# Files written in the background

A file of the asynchronous runtime hands a piece to the operating system and
answers before the piece is on the disk. What became of it is reported by the
next call. A piece longer than the buffer goes in several parts, so that the
call that fails may have handed over a part of its own piece.
-/

namespace Histae.Privacy

/-- The longest file that the operating system addresses. -/
def fileLimit : ℕ := 2 ^ 63 - 1

/-- What a file hands over at once. -/
def maxBufSize : ℕ := 2 * 1024 * 1024

/-- A file and its calls, which answer whether they succeeded. -/
class AsyncFile (φ : Type) where
  writeAll : φ → List UInt8 → Bool × φ
  flush : φ → Bool × φ
  rewind : φ → Bool × φ
  /-- What is in the file when the write under way is over. -/
  bytes : φ → List UInt8
  /-- No failure is still to be reported. -/
  Intact : φ → Prop

open AsyncFile

/-- What the export relies on. -/
class LawfulFile (φ : Type) [AsyncFile φ] : Prop where
  length_le : ∀ file : φ, (bytes file).length ≤ fileLimit
  writeAll_take : ∀ (file : φ) value, ∃ taken,
    bytes (writeAll file value).2 = bytes file ++ value.take taken
  writeAll_ok : ∀ (file : φ) value, (writeAll file value).1 = true →
    Intact (writeAll file value).2 → Intact file ∧ bytes (writeAll file value).2 = bytes file ++ value
  writeAll_error : ∀ (file : φ) value, value.length ≤ maxBufSize → (writeAll file value).1 = false →
    bytes (writeAll file value).2 = bytes file
  flush_ok : ∀ file : φ, (flush file).1 = true → Intact file
  flush_bytes : ∀ file : φ, bytes (flush file).2 = bytes file
  rewind_bytes : ∀ file : φ, bytes (rewind file).2 = bytes file

/-- A file on a disk that takes only so much of some of the parts to come. -/
structure DiskFile where
  bytes : List UInt8
  faults : List (Option ℕ)
  failed : Bool
  length_le : bytes.length ≤ fileLimit

namespace DiskFile

def empty (faults : List (Option ℕ)) : DiskFile := ⟨[], faults, false, Nat.zero_le _⟩

/-- How much of a part the disk takes. -/
def taken (file : DiskFile) (part : List UInt8) : ℕ :=
  min (file.faults.head?.join.getD part.length) (min part.length (fileLimit - file.bytes.length))

/-- A part is written in the background. -/
def put (file : DiskFile) (part : List UInt8) : DiskFile where
  bytes := file.bytes ++ part.take (file.taken part)
  faults := file.faults.tail
  failed := decide (file.taken part < part.length)
  length_le := by
    have hfile := file.length_le
    rw [List.length_append, List.length_take, taken]
    omega

/-- The failure has been reported. -/
def reported (file : DiskFile) : DiskFile := { file with failed := false }

/-- Hands over part after part; no piece needs more parts than it has bytes. -/
def writeParts : ℕ → DiskFile → List UInt8 → Bool × DiskFile
  | 0, file, value => (value.isEmpty, file)
  | fuel + 1, file, value =>
      if value.isEmpty then (true, file)
      else if file.failed then (false, file.reported)
      else writeParts fuel (file.put (value.take maxBufSize)) (value.drop maxBufSize)

instance instAsyncFile : AsyncFile DiskFile where
  writeAll file value := writeParts value.length file value
  flush file := (!file.failed, file.reported)
  rewind file := (true, file)
  bytes := DiskFile.bytes
  Intact file := file.failed = false

variable {file : DiskFile} {part value : List UInt8} {fuel : ℕ}

theorem bytes_put : (file.put part).bytes = file.bytes ++ part.take (file.taken part) := rfl

theorem failed_put : (file.put part).failed = decide (file.taken part < part.length) := rfl

/-- A part that did not fail is in the file. -/
theorem bytes_put_of_ok (h : (file.put part).failed = false) :
    (file.put part).bytes = file.bytes ++ part := by
  have hall : part.length ≤ file.taken part := by simpa [failed_put] using h
  rw [bytes_put, List.take_of_length_le hall]

theorem writeParts_failed (h : file.failed = true) :
    (writeParts fuel file value).2.bytes = file.bytes := by
  cases fuel with
  | zero => rfl
  | succ fuel =>
      rw [writeParts, if_pos h]
      split_ifs <;> rfl

theorem writeParts_take (fuel : ℕ) (file : DiskFile) (value : List UInt8) :
    ∃ taken, (writeParts fuel file value).2.bytes = file.bytes ++ value.take taken := by
  induction fuel generalizing file value with
  | zero => exact ⟨0, by simp [writeParts]⟩
  | succ fuel ih =>
      rw [writeParts]
      split_ifs with hempty hfailed
      · exact ⟨0, by simp⟩
      · exact ⟨0, by simp [reported]⟩
      · cases hput : (file.put (value.take maxBufSize)).failed with
        | true =>
            rw [writeParts_failed hput, bytes_put, List.take_take]
            exact ⟨_, rfl⟩
        | false =>
            obtain ⟨taken, htaken⟩ := ih (file.put (value.take maxBufSize)) (value.drop maxBufSize)
            refine ⟨maxBufSize + taken, ?_⟩
            rw [htaken, bytes_put_of_ok hput, List.append_assoc, List.take_add]

theorem writeParts_ok (hok : (writeParts fuel file value).1 = true)
    (hintact : (writeParts fuel file value).2.failed = false) :
    file.failed = false ∧ (writeParts fuel file value).2.bytes = file.bytes ++ value := by
  induction fuel generalizing file value with
  | zero =>
      rw [writeParts] at hok hintact ⊢
      rw [List.isEmpty_iff.mp hok, List.append_nil]
      exact ⟨hintact, rfl⟩
  | succ fuel ih =>
      rw [writeParts] at hok hintact ⊢
      split_ifs at hok hintact ⊢ with hempty hfailed
      · rw [List.isEmpty_iff.mp hempty, List.append_nil]
        exact ⟨hintact, rfl⟩
      · obtain ⟨hput, hbytes⟩ := ih hok hintact
        refine ⟨Bool.eq_false_iff.mpr hfailed, ?_⟩
        rw [hbytes, bytes_put_of_ok hput, List.append_assoc, List.take_append_drop]

/-- A piece that fits into the buffer is handed over at the end or not at all. -/
theorem writeParts_error (hfuel : value.length ≤ fuel) (hshort : value.length ≤ maxBufSize)
    (herror : (writeParts fuel file value).1 = false) :
    (writeParts fuel file value).2.bytes = file.bytes := by
  cases fuel with
  | zero => rfl
  | succ fuel =>
      rw [writeParts] at herror ⊢
      split_ifs at herror ⊢ with hempty hfailed
      · rfl
      · rw [List.drop_of_length_le hshort] at herror
        cases fuel <;> simp [writeParts] at herror

theorem writeParts_clean (hfuel : value.length ≤ fuel) (hfaults : file.faults = [])
    (hfailed : file.failed = false) (hroom : file.bytes.length + value.length ≤ fileLimit) :
    (writeParts fuel file value).1 = true ∧ (writeParts fuel file value).2.failed = false := by
  induction fuel generalizing file value with
  | zero =>
      rw [writeParts, List.eq_nil_of_length_eq_zero (Nat.le_zero.mp hfuel)]
      exact ⟨rfl, hfailed⟩
  | succ fuel ih =>
      rw [writeParts]
      split_ifs with hempty hbroken
      · exact ⟨rfl, hfailed⟩
      · exact absurd hbroken (Bool.eq_false_iff.mp hfailed)
      · have hbuffer : 0 < maxBufSize := by decide
        have hpart : file.taken (value.take maxBufSize) = (value.take maxBufSize).length := by
          rw [taken, hfaults, List.length_take]
          change min (min maxBufSize value.length) _ = _
          omega
        have hput : (file.put (value.take maxBufSize)).failed = false := by simp [failed_put, hpart]
        refine ih ?_ ?_ hput ?_
        · rw [List.length_drop]
          omega
        · rw [put, hfaults, List.tail_nil]
        · rw [bytes_put_of_ok hput, List.length_append, List.length_take, List.length_drop]
          omega

instance instLawfulFile : LawfulFile DiskFile where
  length_le := DiskFile.length_le
  writeAll_take file value := writeParts_take value.length file value
  writeAll_ok _ _ := writeParts_ok
  writeAll_error _ _ := writeParts_error le_rfl
  flush_ok _ h := (Bool.not_eq_true' _).mp h
  flush_bytes _ := rfl
  rewind_bytes _ := rfl

/-- A disk that takes everything from now on. -/
theorem bytes_writeAll (hfaults : file.faults = []) (hfailed : file.failed = false)
    (hroom : file.bytes.length + value.length ≤ fileLimit) :
    (writeAll file value).2.bytes = file.bytes ++ value := by
  obtain ⟨hok, hintact⟩ := writeParts_clean le_rfl hfaults hfailed hroom
  exact (writeParts_ok hok hintact).2

end DiskFile

end Histae.Privacy
