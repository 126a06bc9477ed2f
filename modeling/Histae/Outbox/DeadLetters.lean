import Mathlib
import Histae.Matches.Cursor
import Histae.Outbox.Events
import Histae.Paging.Positions

/-!
# The list of dead letters

`OutboxAdminService::dead_letters` serves the dead letters newest first. The
table shows each instant to the microsecond, but the cursor is written anew in
milliseconds, and the next page starts strictly below it. The functions of
other crates are those of `CursorCodec`, with chrono's way of writing an
instant in milliseconds.
-/

namespace Histae.Outbox

open Relational Paging Text Matches

structure DeadLetterCursor where
  at_ : ℤ
  id : Uuid
  deriving DecidableEq

structure DeadLetterRow where
  id : Uuid
  eventType : OutboxEventType
  attempts : ℕ
  lastErrorCode : Option String
  createdAt : List Char
  deadLetteredAt : List Char
  deriving DecidableEq

structure DeadLetter where
  eventId : Uuid
  eventType : OutboxEventType
  attempts : ℕ
  lastErrorCode : Option String
  createdAt : List Char
  deadLetteredAt : List Char
  deriving DecidableEq

inductive OutboxAdminError
  | invalidRequest
  | invalidCursor
  deriving DecidableEq

def DeadLetterCursor.key (c : DeadLetterCursor) : ℤ ×ₗ ℕ := toLex (c.at_, c.id.toNat)

/-- The dead letters of the table with the instants of their last failure. -/
def deadLetters (rows : Table OutboxRow.id) : List (OutboxRow × ℤ) :=
  rows.rows.filterMap fun r ↦
    match r.status with
    | .deadLetter deadLetteredAt => some (r, deadLetteredAt)
    | _ => none

/-- `(dead_lettered_at, id)`. -/
def position (x : OutboxRow × ℤ) : ℤ ×ₗ ℕ := toLex (x.2, x.1.id.toNat)

def DeadLetterRow.ofEvent (x : OutboxRow × ℤ) : DeadLetterRow where
  id := x.1.id
  eventType := x.1.eventType
  attempts := x.1.attempts
  lastErrorCode := x.1.lastErrorCode
  createdAt := cursorAt x.1.createdAt
  deadLetteredAt := cursorAt x.2

def DeadLetter.ofRow (row : DeadLetterRow) : DeadLetter where
  eventId := row.id
  eventType := row.eventType
  attempts := row.attempts
  lastErrorCode := row.lastErrorCode
  createdAt := row.createdAt
  deadLetteredAt := row.deadLetteredAt

def listDeadLetters (rows : Table OutboxRow.id) (limit : ℕ) (cursor : Option DeadLetterCursor) :
    List DeadLetterRow :=
  ((newestFirst position ((deadLetters rows).filter fun x ↦
    cursor.all fun c ↦ position x < c.key)).take limit).map DeadLetterRow.ofEvent

/-- The functions of other crates behind a cursor; the last one is chrono's
`to_rfc3339_opts(SecondsFormat::Millis, true)`. -/
structure MillisCodec extends CursorCodec where
  toRfc3339Millis : ℤ → List Char

/-- The parts before and after the first occurrence of `c`. -/
def splitOnce (c : Char) (text : List Char) : Option (List Char × List Char) :=
  match text.dropWhile (· ≠ c) with
  | [] => none
  | _ :: rest => some (text.takeWhile (· ≠ c), rest)

def validCursorTimestamp (text : List Char) : Bool :=
  match splitOnce '.' text with
  | none => false
  | some (date, suffix) =>
      byteLength date = 19 && suffix.getLast? = some 'Z' &&
        (byteLength suffix = 4 || byteLength suffix = 7) && suffix.dropLast.all isAsciiDigit

section Codec

variable (codec : MillisCodec)

def decodeCursor (raw : Option (List Char)) :
    Except OutboxAdminError (Option DeadLetterCursor) :=
  match raw.filter fun text ↦ !text.isEmpty with
  | none => .ok none
  | some text =>
      match (codec.base64Decode text).bind codec.fromSlice with
      | none => .error .invalidCursor
      | some wire =>
          match codec.parseFromRfc3339 wire.at_ with
          | none => .error .invalidCursor
          | some at_ =>
              if !validCursorTimestamp wire.at_ then .error .invalidCursor
              else
                match codec.parseStr wire.id with
                | none => .error .invalidCursor
                | some id =>
                    if byteLength wire.id ≠ 36 ∨ codec.hyphenated id ≠ wire.id.map Char.toLower then
                      .error .invalidCursor
                    else .ok (some ⟨at_, id⟩)

def encodeCursor (at_ : List Char) (id : Uuid) : Except OutboxAdminError (List Char) :=
  match codec.parseFromRfc3339 at_ with
  | none => .error .invalidCursor
  | some timestamp =>
      match codec.toVec ⟨codec.toRfc3339Millis timestamp, codec.hyphenated id⟩ with
      | none => .error .invalidCursor
      | some bytes => .ok (codec.base64Encode bytes)

/-- `OutboxAdminService::dead_letters`. -/
def deadLetterPage (rows : Table OutboxRow.id) (limit : ℕ) (raw : Option (List Char)) :
    Except OutboxAdminError (Page (List Char) DeadLetter) :=
  if 1 ≤ limit ∧ limit ≤ 100 then
    match decodeCursor codec raw with
    | .error error => .error error
    | .ok cursor =>
        let found := listDeadLetters rows (limit + 1) cursor
        let shown := found.take limit
        let last := if limit < found.length then shown.getLast? else none
        match last.map fun row ↦ encodeCursor codec row.deadLetteredAt row.id with
        | none => .ok ⟨shown.map DeadLetter.ofRow, none⟩
        | some (.ok text) => .ok ⟨shown.map DeadLetter.ofRow, some text⟩
        | some (.error error) => .error error
  else .error .invalidRequest

end Codec

def fourDigitYear (t : ℤ) : Prop :=
  1 ≤ (CivilTime.ofInstant t).year ∧ (CivilTime.ofInstant t).year ≤ 9999

def millisText (c : CivilTime) : List Char :=
  dateText c ++ '.' :: decimal.numeral 3 (c.micro / 1000).toNat ++ ['Z']

/-- The start of the millisecond of an instant. -/
def millisecond (t : ℤ) : ℤ := t - t % 1000

/-- What the other crates promise about the texts of a cursor. -/
structure MillisCodec.Lawful (codec : MillisCodec) : Prop
    extends codec.toCursorCodec.Lawful where
  lowercase : ∀ id, (codec.hyphenated id).map Char.toLower = codec.hyphenated id
  toMillis : ∀ t, fourDigitYear t →
    codec.toRfc3339Millis t = millisText (CivilTime.ofInstant t)
  parseMillis : ∀ t, fourDigitYear t →
    codec.parseFromRfc3339 (millisText (CivilTime.ofInstant t)) = some (millisecond t)

section Cursors

variable {codec : MillisCodec} {t : ℤ} {id : Uuid}

theorem splitOnce_append {c : Char} {before after : List Char} (h : c ∉ before) :
    splitOnce c (before ++ c :: after) = some (before, after) := by
  have hall : ∀ x ∈ before, decide (x ≠ c) = true := by
    intro x hx
    rw [decide_eq_true_iff]
    rintro rfl
    exact h hx
  simp only [splitOnce]
  rw [List.dropWhile_append_of_pos hall, List.takeWhile_append_of_pos hall]
  simp

theorem all_isPlain_millisText (h : fourDigitYear t) :
    (millisText (CivilTime.ofInstant t)).all isPlain = true := by
  simp only [millisText, List.all_append, List.all_cons, all_isPlain_dateText h,
    all_isPlain_numeral]
  decide

theorem dot_notMem_dateText (h : fourDigitYear t) :
    '.' ∉ dateText (CivilTime.ofInstant t) := by
  simp [dateText, yearText_of_four_digits h, dot_notMem_numeral]

theorem validCursorTimestamp_millisText (h : fourDigitYear t) :
    validCursorTimestamp (millisText (CivilTime.ofInstant t)) = true := by
  have hsplit : splitOnce '.' (millisText (CivilTime.ofInstant t)) =
      some (dateText (CivilTime.ofInstant t),
        decimal.numeral 3 ((CivilTime.ofInstant t).micro / 1000).toNat ++ ['Z']) := by
    rw [millisText, List.append_assoc, List.cons_append]
    exact splitOnce_append (dot_notMem_dateText h)
  have hdate : byteLength (dateText (CivilTime.ofInstant t)) = 19 := by
    rw [byteLength_of_plain (all_isPlain_dateText h), length_dateText h]
  have hplain : (decimal.numeral 3 ((CivilTime.ofInstant t).micro / 1000).toNat ++ ['Z']).all
      isPlain = true := by
    rw [List.all_append, all_isPlain_numeral]
    decide
  have hdigits : (decimal.numeral 3 ((CivilTime.ofInstant t).micro / 1000).toNat).all
      isAsciiDigit = true := List.all_eq_true.mpr fun _ hx ↦ isAsciiDigit_of_mem_numeral hx
  simp [validCursorTimestamp, hsplit, hdate, byteLength_of_plain hplain, hdigits]

/-- The text of the cursor to an event. -/
def cursorText (codec : MillisCodec) (x : OutboxRow × ℤ) : List Char :=
  codec.base64Encode
    ((codec.toVec ⟨millisText (CivilTime.ofInstant x.2), codec.hyphenated x.1.id⟩).getD [])

/-- A cursor is read back as the start of the millisecond of its event. -/
theorem decodeCursor_cursorText (h : codec.Lawful) {x : OutboxRow × ℤ} (hyear : fourDigitYear x.2) :
    encodeCursor codec (cursorAt x.2) x.1.id = .ok (cursorText codec x) ∧
      decodeCursor codec (some (cursorText codec x)) =
        .ok (some ⟨millisecond x.2, x.1.id⟩) := by
  obtain ⟨hlength, hplain, _⟩ := h.hyphenated x.1.id
  obtain ⟨bytes, htoVec, hfromSlice, hbytes⟩ :=
    h.json ⟨millisText (CivilTime.ofInstant x.2), codec.hyphenated x.1.id⟩
      (all_isPlain_millisText hyear) hplain
  have htext : cursorText codec x = codec.base64Encode bytes := by
    simp only [cursorText, htoVec, Option.getD_some]
  have hparse := h.rfc3339 _ (CivilTime.valid_ofInstant x.2) hyear.1 hyear.2
  rw [CivilTime.instant_ofInstant] at hparse
  have hsize : 0 < utf16Length (codec.base64Encode bytes) := by
    rw [h.base64Length, hbytes, hlength]
    omega
  have hne : (codec.base64Encode bytes).isEmpty = false := by
    cases hempty : codec.base64Encode bytes with
    | nil =>
        rw [hempty] at hsize
        exact absurd hsize (by decide)
    | cons y rest => rfl
  have hid : byteLength (codec.hyphenated x.1.id) = 36 := by
    rw [byteLength_of_plain hplain, hlength]
  constructor
  · rw [htext]
    simp only [encodeCursor]
    rw [show codec.parseFromRfc3339 (cursorAt x.2) = some x.2 from hparse]
    simp only [h.toMillis _ hyear, htoVec]
  · rw [htext]
    simp only [decodeCursor, Option.filter_some, hne, Bool.not_false, if_true, h.base64,
      Option.bind_some, hfromSlice, h.parseMillis _ hyear, validCursorTimestamp_millisText hyear,
      Bool.not_true, Bool.false_eq_true, if_false, h.parseStr, hid, h.lowercase, ne_eq,
      not_true_eq_false, or_self]

end Cursors

section Pages

variable {codec : MillisCodec} {rows : Table OutboxRow.id} {limit : ℕ}

/-- The position that a cursor keeps of its event. -/
def keptPosition (x : OutboxRow × ℤ) : ℤ ×ₗ ℕ := toLex (millisecond x.2, x.1.id.toNat)

def DeadLetter.ofEvent (x : OutboxRow × ℤ) : DeadLetter := .ofRow (.ofEvent x)

theorem nodup_deadLetters (rows : Table OutboxRow.id) :
    ((deadLetters rows).map position).Nodup := by
  refine List.Nodup.of_map (fun k ↦ (ofLex k).2) ?_
  rw [List.map_map]
  have hsub : ((deadLetters rows).map fun x ↦ x.1.id).Sublist (rows.rows.map OutboxRow.id) := by
    unfold deadLetters
    rw [List.map_filterMap]
    induction rows.rows with
    | nil => exact List.Sublist.refl []
    | cons r tail ih =>
        rw [List.filterMap_cons, List.map_cons]
        cases hstatus : r.status with
        | deadLetter t =>
            simp only [Option.map_some]
            exact ih.cons_cons r.id
        | pending | processing | completed | discarded =>
            simp only [Option.map_none]
            exact ih.cons r.id
  have hids := rows.nodup.sublist hsub
  have hmap := hids.map (f := BitVec.toNat) fun _ _ heq ↦ BitVec.eq_of_toNat_eq heq
  rwa [List.map_map] at hmap

/-- A page of the events that follow a decoded cursor. -/
theorem deadLetterPage_eq (hcodec : codec.Lawful)
    (hyears : ∀ x ∈ deadLetters rows, fourDigitYear x.2) (hlimit : 1 ≤ limit ∧ limit ≤ 100)
    {raw : Option (List Char)} {cursor : Option DeadLetterCursor}
    (hraw : decodeCursor codec raw = .ok cursor) :
    deadLetterPage codec rows limit raw = .ok (Page.of limit (cursorText codec) DeadLetter.ofEvent
      ((newestFirst position (deadLetters rows)).filter fun x ↦
        cursor.all fun c ↦ position x < c.key)) := by
  set rest := (newestFirst position (deadLetters rows)).filter fun x ↦
    cursor.all fun c ↦ position x < c.key
  have hlist : listDeadLetters rows (limit + 1) cursor =
      (rest.take (limit + 1)).map DeadLetterRow.ofEvent := by
    rw [listDeadLetters, newestFirst_filter (nodup_deadLetters rows)]
  have hshown : (listDeadLetters rows (limit + 1) cursor).take limit =
      (rest.take limit).map DeadLetterRow.ofEvent := by
    rw [hlist, ← List.map_take, List.take_take, Nat.min_eq_left (Nat.le_succ limit)]
  have hmore : limit < (listDeadLetters rows (limit + 1) cursor).length ↔ limit < rest.length := by
    rw [hlist, List.length_map, List.length_take]
    omega
  have hitems : ((rest.take limit).map DeadLetterRow.ofEvent).map DeadLetter.ofRow =
      (rest.take limit).map DeadLetter.ofEvent := by
    rw [List.map_map]
    rfl
  simp only [deadLetterPage, if_pos hlimit, hraw, hshown, hmore, hitems]
  by_cases hlong : limit < rest.length
  · have hindex : limit - 1 < rest.length := by omega
    have hlast : ((rest.take limit).map DeadLetterRow.ofEvent).getLast? =
        some (DeadLetterRow.ofEvent rest[limit - 1]) := by
      rw [List.getLast?_map, List.getLast?_take]
      have hne : limit ≠ 0 := by omega
      simp [hne, List.getElem?_eq_getElem hindex]
    have hmem : rest[limit - 1] ∈ deadLetters rows := by
      have hin : rest[limit - 1] ∈ rest := List.getElem_mem hindex
      exact mem_newestFirst.mp (List.mem_filter.mp hin).1
    have hencode := (decodeCursor_cursorText hcodec (hyears _ hmem)).1
    rw [if_pos hlong, hlast, Option.map_some]
    simp only [DeadLetterRow.ofEvent, hencode]
    simp [Page.of, hlong, List.getElem?_eq_getElem hindex]
  · rw [if_neg hlong, Option.map_none]
    simp [Page.of, hlong]

theorem servesBelow_deadLetters (hcodec : codec.Lawful)
    (hyears : ∀ x ∈ deadLetters rows, fourDigitYear x.2) (hlimit : 1 ≤ limit ∧ limit ≤ 100) :
    ServesBelow (deadLetterPage codec rows limit) limit (cursorText codec) DeadLetter.ofEvent
      position keptPosition (newestFirst position (deadLetters rows)) where
  first := by
    have hdecode : decodeCursor codec none = .ok none := rfl
    simpa using deadLetterPage_eq hcodec hyears hlimit hdecode
  next x hx := by
    have hdecode := (decodeCursor_cursorText hcodec (hyears x (mem_newestFirst.mp hx))).2
    rw [deadLetterPage_eq hcodec hyears hlimit hdecode]
    congr 2

theorem keptPosition_le (x : OutboxRow × ℤ) : keptPosition x ≤ position x := by
  rw [keptPosition, position, Prod.Lex.toLex_le_toLex]
  have hmod : 0 ≤ x.2 % 1000 := Int.emod_nonneg _ (by decide)
  rcases hmod.lt_or_eq with hlt | heq
  · exact Or.inl (by unfold millisecond; omega)
  · refine Or.inr ⟨?_, le_rfl⟩
    unfold millisecond
    omega

/-- Where a page ends, the next event failed before the millisecond of the last
event shown, or at its very start with a smaller identifier. -/
def PagesEndBetweenMilliseconds (rows : Table OutboxRow.id) (limit : ℕ) : Prop :=
  ∀ k last next,
    (newestFirst position (deadLetters rows))[(k + 1) * limit - 1]? = some last →
    (newestFirst position (deadLetters rows))[(k + 1) * limit]? = some next →
      next.2 < millisecond last.2 ∨ next.2 = millisecond last.2 ∧ next.1.id < last.1.id

theorem resumes_iff_pagesEndBetweenMilliseconds :
    Resumes position keptPosition limit (newestFirst position (deadLetters rows)) ↔
      PagesEndBetweenMilliseconds rows limit := by
  refine forall_congr' fun k ↦ forall_congr' fun last ↦ forall_congr' fun next ↦ ?_
  rw [position, keptPosition, Prod.Lex.toLex_lt_toLex]
  rfl

/-- Following the cursors serves every dead letter exactly when no page ends
inside a millisecond. -/
theorem dead_letters_complete_iff (hcodec : codec.Lawful)
    (hyears : ∀ x ∈ deadLetters rows, fourDigitYear x.2) (hlimit : 1 ≤ limit ∧ limit ≤ 100) :
    ((∃ fuel pages, follow (deadLetterPage codec rows limit) fuel none = some pages ∧
      pages.flatMap Page.items =
        (newestFirst position (deadLetters rows)).map DeadLetter.ofEvent) ↔
      PagesEndBetweenMilliseconds rows limit) ∧
    (newestFirst position (deadLetters rows)).Perm (deadLetters rows) ∧
    (newestFirst position (deadLetters rows)).Pairwise fun a b ↦ position b < position a := by
  have hsorted := pairwise_newestFirst (nodup_deadLetters rows)
  refine ⟨?_, perm_newestFirst _, hsorted⟩
  rw [← resumes_iff_pagesEndBetweenMilliseconds]
  exact (servesBelow_deadLetters hcodec hyears hlimit).follow_iff hsorted hlimit.1 keptPosition_le

end Pages

/-- The canonical texts of instants with six or three digits of the second. -/
def parseRfc3339 (text : List Char) : Option ℤ :=
  if text.length = 24 then
    StandardCodec.parseFromRfc3339 (text.dropLast ++ ['0', '0', '0', 'Z'])
  else StandardCodec.parseFromRfc3339 text

def standardMillisCodec : MillisCodec :=
  { standardCodec with
    parseFromRfc3339 := parseRfc3339
    toRfc3339Millis := fun t ↦ millisText (CivilTime.ofInstant t) }

theorem toLower_hexadecimal (w n : ℕ) :
    (hexadecimal.numeral w n).map Char.toLower = hexadecimal.numeral w n := by
  rw [Alphabet.numeral, List.map_map]
  refine List.map_congr_left fun d hd ↦ ?_
  have hall : ∀ d < 16, (hexadecimal.toChar d).toLower = hexadecimal.toChar d := by decide
  exact hall d (lt_of_mem_digits (by decide) hd)

theorem numeral_mul_thousand (n : ℕ) :
    decimal.numeral 6 (n * 1000) = decimal.numeral 3 n ++ ['0', '0', '0'] := by
  have hdivs : n * 1000 / 10 = n * 100 ∧ n * 100 / 10 = n * 10 ∧ n * 10 / 10 = n := by omega
  have hmods : n * 1000 % 10 = 0 ∧ n * 100 % 10 = 0 ∧ n * 10 % 10 = 0 := by omega
  have hdigits : digits 10 6 (n * 1000) = digits 10 3 n ++ [0, 0, 0] := by
    simp only [digits, hdivs, hmods, List.nil_append, List.cons_append]
  rw [Alphabet.numeral, hdigits, List.map_append]
  rfl

theorem dateText_millisecond (t : ℤ) :
    dateText (CivilTime.ofInstant (millisecond t)) = dateText (CivilTime.ofInstant t) ∧
      (CivilTime.ofInstant (millisecond t)).micro.toNat =
        ((CivilTime.ofInstant t).micro / 1000).toNat * 1000 := by
  have hday : millisecond t / microsPerDay = t / microsPerDay := by
    unfold millisecond microsPerDay
    omega
  have hrest : millisecond t % microsPerDay = t % microsPerDay - t % 1000 := by
    unfold millisecond microsPerDay
    omega
  have hmod : t % 1000 = t % microsPerDay % 1000 := by
    unfold microsPerDay
    omega
  have hnonneg : 0 ≤ t % microsPerDay := Int.emod_nonneg _ (by decide)
  simp only [dateText, CivilTime.ofInstant, hday, hrest, hmod]
  generalize t % microsPerDay = rest at hnonneg ⊢
  have hhour : (rest - rest % 1000) / 3600000000 = rest / 3600000000 := by omega
  have hminute : (rest - rest % 1000) / 60000000 = rest / 60000000 := by omega
  have hsecond : (rest - rest % 1000) / 1000000 = rest / 1000000 := by omega
  rw [hhour, hminute, hsecond]
  refine ⟨rfl, ?_⟩
  omega

theorem toLower_hyphenated (id : Uuid) :
    (StandardCodec.hyphenated id).map Char.toLower = StandardCodec.hyphenated id := by
  have hdash : Char.toLower '-' = '-' := by decide
  simp only [StandardCodec.hyphenated, List.map_append, List.map_cons, toLower_hexadecimal, hdash]

theorem fourDigitYear_millisecond {t : ℤ} (h : fourDigitYear t) :
    fourDigitYear (millisecond t) := by
  have hday : millisecond t / microsPerDay = t / microsPerDay := by
    unfold millisecond microsPerDay
    omega
  have hsame : (CivilTime.ofInstant (millisecond t)).year = (CivilTime.ofInstant t).year := by
    simp only [CivilTime.ofInstant, hday]
  unfold fourDigitYear
  rw [hsame]
  exact h

theorem parseFromRfc3339_timestampText {c : CivilTime} (hvalid : c.Valid)
    (hyear : 1 ≤ c.year ∧ c.year ≤ 9999) :
    StandardCodec.parseFromRfc3339 (timestampText c) = some c.instant := by
  simp [StandardCodec.parseFromRfc3339, StandardCodec.readCivil_timestampText hvalid hyear]

theorem parseRfc3339_timestampText {c : CivilTime} (hvalid : c.Valid)
    (hyear : 1 ≤ c.year ∧ c.year ≤ 9999) : parseRfc3339 (timestampText c) = some c.instant := by
  have hlength : (timestampText c).length = 27 := by
    simp [timestampText, length_dateText hyear]
  rw [parseRfc3339, if_neg (by rw [hlength]; decide), parseFromRfc3339_timestampText hvalid hyear]

theorem parseRfc3339_millisText {t : ℤ} (h : fourDigitYear t) :
    parseRfc3339 (millisText (CivilTime.ofInstant t)) = some (millisecond t) := by
  have hlength : (millisText (CivilTime.ofInstant t)).length = 24 := by
    simp [millisText, length_dateText h]
  obtain ⟨hdate, hmicro⟩ := dateText_millisecond t
  have hpadded : (millisText (CivilTime.ofInstant t)).dropLast ++ ['0', '0', '0', 'Z'] =
      timestampText (CivilTime.ofInstant (millisecond t)) := by
    rw [millisText, List.dropLast_concat, timestampText, hdate, hmicro, numeral_mul_thousand]
    simp
  rw [parseRfc3339, if_pos hlength, hpadded,
    parseFromRfc3339_timestampText (CivilTime.valid_ofInstant _) (fourDigitYear_millisecond h),
    CivilTime.instant_ofInstant]

theorem standardMillisCodec_lawful : standardMillisCodec.Lawful where
  json := standardCodec_lawful.json
  base64 := standardCodec_lawful.base64
  base64Length := standardCodec_lawful.base64Length
  hyphenated := standardCodec_lawful.hyphenated
  parseStr := standardCodec_lawful.parseStr
  rfc3339 c hvalid hfirst hlast := by
    simp only [standardMillisCodec]
    exact parseRfc3339_timestampText hvalid ⟨hfirst, hlast⟩
  lowercase := toLower_hyphenated
  toMillis t _ := by simp only [standardMillisCodec]
  parseMillis t h := by
    simp only [standardMillisCodec]
    exact parseRfc3339_millisText h

/-- Two pushes that failed for the last time at the given instants. -/
def twoLetters (first second : ℤ) : Table OutboxRow.id :=
  ⟨[⟨1, .notificationPush, 11, .deadLetter first, 10, 0, some "push_failed", 0, by decide⟩,
    ⟨2, .notificationPush, 12, .deadLetter second, 10, 0, some "push_failed", 0, by decide⟩],
    by simp⟩

theorem deadLetters_twoLetters (first second : ℤ) :
    (deadLetters (twoLetters first second)).map Prod.snd = [first, second] := rfl

/-- The second failure falls into the millisecond of the first, and is skipped. -/
theorem dead_letter_is_skipped :
    ¬ ∃ fuel pages, follow (deadLetterPage standardMillisCodec (twoLetters 900 800) 1) fuel none =
        some pages ∧ pages.flatMap Page.items =
          (newestFirst position (deadLetters (twoLetters 900 800))).map DeadLetter.ofEvent := by
  have hyears : ∀ x ∈ deadLetters (twoLetters 900 800), fourDigitYear x.2 := by
    intro x hx
    have hsnd : x.2 ∈ [900, 800] := deadLetters_twoLetters 900 800 ▸ List.mem_map_of_mem hx
    simp only [List.mem_cons, List.not_mem_nil, or_false] at hsnd
    rcases hsnd with hsnd | hsnd <;> rw [hsnd] <;> exact ⟨by decide, by decide⟩
  have hlimit : 1 ≤ 1 ∧ 1 ≤ 100 := by decide
  have hserves := servesBelow_deadLetters standardMillisCodec_lawful hyears hlimit
  rw [hserves.follow_iff (pairwise_newestFirst (nodup_deadLetters _)) (by decide) keptPosition_le,
    resumes_iff_pagesEndBetweenMilliseconds]
  intro h
  have hboundary := h 0 _ _ rfl rfl
  revert hboundary
  decide +kernel

theorem dead_letters_complete_iff_twoLetters :
    ∃ fuel pages, follow (deadLetterPage standardMillisCodec (twoLetters 1900 800) 1) fuel none =
        some pages ∧ pages.flatMap Page.items =
          (newestFirst position (deadLetters (twoLetters 1900 800))).map DeadLetter.ofEvent := by
  have hyears : ∀ x ∈ deadLetters (twoLetters 1900 800), fourDigitYear x.2 := by
    intro x hx
    have hsnd : x.2 ∈ [1900, 800] := deadLetters_twoLetters 1900 800 ▸ List.mem_map_of_mem hx
    simp only [List.mem_cons, List.not_mem_nil, or_false] at hsnd
    rcases hsnd with hsnd | hsnd <;> rw [hsnd] <;> exact ⟨by decide, by decide⟩
  refine (dead_letters_complete_iff standardMillisCodec_lawful hyears (by decide)).1.mpr ?_
  intro k last next hlast hnext
  have hlength : (newestFirst position (deadLetters (twoLetters 1900 800))).length = 2 := rfl
  obtain rfl : k = 0 := by
    have hindex := (List.getElem?_eq_some_iff.mp hnext).1
    omega
  obtain rfl := Option.some.inj hlast
  obtain rfl := Option.some.inj hnext
  decide +kernel

end Histae.Outbox
