import Histae.Matches.Requests
import Histae.Text.Base64
import Histae.Text.Calendar

/-!
# Page cursors

A cursor is the activity time and the identifier of the last row of a page,
as JSON in base64. The JSON, base64, UUID and RFC 3339 functions belong to
other crates, so they are parameters; `CursorCodec.Lawful` states what their
documentation promises about the texts that the service builds.
-/

namespace Histae.Matches

open Text

structure PageCursor where
  at_ : ℤ
  id : Uuid
  deriving DecidableEq

structure CursorWire where
  at_ : List Char
  id : List Char
  deriving DecidableEq

structure CursorCodec where
  toVec : CursorWire → Option (List UInt8)
  fromSlice : List UInt8 → Option CursorWire
  base64Encode : List UInt8 → List Char
  base64Decode : List Char → Option (List UInt8)
  hyphenated : Uuid → List Char
  parseStr : List Char → Option Uuid
  parseFromRfc3339 : List Char → Option ℤ

def versionNum (id : Uuid) : ℕ := id.toNat / 2 ^ 76 % 16

/-- The two upper bits of the ninth byte are `10`. -/
def isRfc4122 (id : Uuid) : Bool := id.toNat / 2 ^ 62 % 4 = 2

/-- The length in UTF-16 code units. -/
def utf16Length (text : List Char) : ℕ := (text.map fun c ↦ if c.toNat < 65536 then 1 else 2).sum

/-- The length in UTF-8 bytes. -/
def byteLength (text : List Char) : ℕ := (text.map Char.utf8Size).sum

def stripSuffix (c : Char) (text : List Char) : Option (List Char) :=
  if text.getLast? = some c then some text.dropLast else none

/-- The parts before and after the last occurrence of `c`. -/
def rsplitOnce (c : Char) : List Char → Option (List Char × List Char)
  | [] => none
  | x :: rest =>
      match rsplitOnce c rest with
      | some (before, after) => some (x :: before, after)
      | none => if x = c then some ([], rest) else none

def isAsciiDigit (c : Char) : Bool := '0' ≤ c && c ≤ '9'

def eqIgnoreAsciiCase (a b : List Char) : Bool := a.map Char.toLower = b.map Char.toLower

section Codec

variable (codec : CursorCodec)

def validCursorTimestamp (text : List Char) : Bool :=
  match (stripSuffix 'Z' text).bind (rsplitOnce '.') with
  | none => false
  | some (date, fraction) =>
      3 ≤ byteLength fraction && byteLength fraction ≤ 6 && fraction.all isAsciiDigit &&
        byteLength date = 19 && (codec.parseFromRfc3339 text).isSome

def canonicalUuid (text : List Char) (parsed : Uuid) : Bool :=
  byteLength text = 36 && [8, 13, 18, 23].all (fun i ↦ text[i]? = some '-') &&
    eqIgnoreAsciiCase (codec.hyphenated parsed) text

def decodeCursor (raw : Option (List Char)) : Except MatchError (Option PageCursor) :=
  match raw.filter fun text ↦ !text.isEmpty with
  | none => .ok none
  | some text =>
      if 512 < utf16Length text then .error .invalidRequest
      else
        match (codec.base64Decode text).bind codec.fromSlice with
        | none => .error .invalidCursor
        | some cursor =>
            match codec.parseStr cursor.id with
            | none => .error .invalidCursor
            | some id =>
                if !validCursorTimestamp codec cursor.at_ || !canonicalUuid codec cursor.id id ||
                    !(1 ≤ versionNum id && versionNum id ≤ 8) || !isRfc4122 id then
                  .error .invalidCursor
                else
                  match codec.parseFromRfc3339 cursor.at_ with
                  | none => .error .invalidCursor
                  | some at_ => .ok (some ⟨at_, id⟩)

def encodeCursor (at_ : List Char) (id : Uuid) : Except MatchError (List Char) :=
  match codec.toVec ⟨at_, codec.hyphenated id⟩ with
  | none => .error .invalidCursor
  | some bytes => .ok (codec.base64Encode bytes)

end Codec

/-- At least four digits; years before the common era lose their sign. -/
def yearText (year : ℤ) : List Char :=
  let shown := (if year ≤ 0 then 1 - year else year).toNat
  if shown < 10000 then decimal.numeral 4 shown else Nat.toDigits 10 shown

def dateText (c : CivilTime) : List Char :=
  yearText c.year ++ '-' :: decimal.numeral 2 c.month.toNat ++ '-' ::
    decimal.numeral 2 c.day.toNat ++ 'T' :: decimal.numeral 2 c.hour.toNat ++ ':' ::
    decimal.numeral 2 c.minute.toNat ++ ':' :: decimal.numeral 2 c.second.toNat

def timestampText (c : CivilTime) : List Char :=
  dateText c ++ '.' :: decimal.numeral 6 c.micro.toNat ++ ['Z']

/-- `to_char` of an instant with the pattern `YYYY-MM-DD"T"HH24:MI:SS.US"Z"`. -/
def cursorAt (at_ : ℤ) : List Char := timestampText (CivilTime.ofInstant at_)

/-- A character that takes one byte and no escape in a JSON string. -/
def isPlain (c : Char) : Bool :=
  ('0' ≤ c && c ≤ '9') || ('A' ≤ c && c ≤ 'Z') || ('a' ≤ c && c ≤ 'z') || c = '-' || c = ':' ||
    c = '.'

/-- What the other crates promise about timestamps and hyphenated identifiers. -/
structure CursorCodec.Lawful (codec : CursorCodec) : Prop where
  json : ∀ wire : CursorWire, wire.at_.all isPlain = true → wire.id.all isPlain = true →
    ∃ bytes, codec.toVec wire = some bytes ∧ codec.fromSlice bytes = some wire ∧
      bytes.length = wire.at_.length + wire.id.length + 17
  base64 : ∀ bytes, codec.base64Decode (codec.base64Encode bytes) = some bytes
  base64Length : ∀ bytes, utf16Length (codec.base64Encode bytes) = (4 * bytes.length + 2) / 3
  hyphenated : ∀ id, (codec.hyphenated id).length = 36 ∧
    (codec.hyphenated id).all isPlain = true ∧
    ∀ i ∈ [8, 13, 18, 23], (codec.hyphenated id)[i]? = some '-'
  parseStr : ∀ id, codec.parseStr (codec.hyphenated id) = some id
  rfc3339 : ∀ c : CivilTime, c.Valid → 1 ≤ c.year → c.year ≤ 9999 →
    codec.parseFromRfc3339 (timestampText c) = some c.instant

/-- The rows a cursor can point at: their time has a four-digit year, their
identifier is an RFC 4122 UUID. -/
structure Addressable (at_ : ℤ) (id : Uuid) : Prop where
  year : 1 ≤ (CivilTime.ofInstant at_).year ∧ (CivilTime.ofInstant at_).year ≤ 9999
  version : 1 ≤ versionNum id ∧ versionNum id ≤ 8
  variant : isRfc4122 id = true

section Texts

variable {text : List Char} {c : CivilTime}

theorem isAsciiDigit_of_mem_numeral {w n : ℕ} {x : Char} (h : x ∈ decimal.numeral w n) :
    isAsciiDigit x = true := by
  obtain ⟨d, hd, rfl⟩ := List.mem_map.mp h
  have hlt := lt_of_mem_digits (by decide) hd
  have hall : ∀ d < 10, isAsciiDigit (decimal.toChar d) = true := by decide
  exact hall d hlt

theorem isPlain_of_isAsciiDigit {x : Char} (h : isAsciiDigit x = true) : isPlain x = true := by
  have hdigit : ('0' ≤ x && x ≤ '9') = true := h
  simp [isPlain, hdigit]

theorem utf8Size_of_isPlain {x : Char} (h : isPlain x = true) : x.utf8Size = 1 := by
  rw [Char.utf8Size_eq_one_iff]
  simp only [isPlain, Bool.or_eq_true, Bool.and_eq_true, decide_eq_true_eq] at h
  rcases h with ((((⟨_, h⟩ | ⟨_, h⟩) | ⟨_, h⟩) | rfl) | rfl) | rfl
  · exact UInt32.le_trans (Char.le_def.mp h) (by decide)
  · exact UInt32.le_trans (Char.le_def.mp h) (by decide)
  · exact UInt32.le_trans (Char.le_def.mp h) (by decide)
  · decide
  · decide
  · decide

theorem byteLength_of_plain (h : text.all isPlain = true) : byteLength text = text.length := by
  induction text with
  | nil => rfl
  | cons x rest ih =>
      obtain ⟨hx, hrest⟩ := Bool.and_eq_true_iff.mp (List.all_cons ▸ h)
      have hsum : byteLength (x :: rest) = x.utf8Size + byteLength rest := List.sum_cons
      rw [hsum, utf8Size_of_isPlain hx, ih hrest, List.length_cons, Nat.add_comm]

theorem all_isPlain_numeral (w n : ℕ) : (decimal.numeral w n).all isPlain = true :=
  List.all_eq_true.mpr fun _ hx ↦ isPlain_of_isAsciiDigit (isAsciiDigit_of_mem_numeral hx)

theorem yearText_of_four_digits {year : ℤ} (h : 1 ≤ year ∧ year ≤ 9999) :
    yearText year = decimal.numeral 4 year.toNat := by
  have hpos : ¬ year ≤ 0 := by omega
  have hlt : year.toNat < 10000 := by omega
  simp [yearText, hpos, hlt]

theorem all_isPlain_dateText (h : 1 ≤ c.year ∧ c.year ≤ 9999) :
    (dateText c).all isPlain = true := by
  simp only [dateText, yearText_of_four_digits h, List.all_append, List.all_cons,
    all_isPlain_numeral]
  decide

theorem length_dateText (h : 1 ≤ c.year ∧ c.year ≤ 9999) : (dateText c).length = 19 := by
  simp [dateText, yearText_of_four_digits h]

theorem rsplitOnce_append {x : Char} {before after : List Char} (h : x ∉ after) :
    rsplitOnce x (before ++ x :: after) = some (before, after) := by
  have hnone : ∀ rest : List Char, x ∉ rest → rsplitOnce x rest = none := by
    intro rest hrest
    induction rest with
    | nil => rfl
    | cons y rest ih =>
        rw [List.mem_cons, not_or] at hrest
        simp [rsplitOnce, ih hrest.2, Ne.symm hrest.1]
  induction before with
  | nil => simp [rsplitOnce, hnone after h]
  | cons y before ih => simp [rsplitOnce, ih]

theorem dot_notMem_numeral (w n : ℕ) : '.' ∉ decimal.numeral w n := by
  intro hmem
  have hdigit := isAsciiDigit_of_mem_numeral hmem
  revert hdigit
  decide

end Texts

section RoundTrip

variable {codec : CursorCodec} {at_ : ℤ} {id : Uuid}

theorem validCursorTimestamp_cursorAt (h : codec.Lawful)
    (hyear : 1 ≤ (CivilTime.ofInstant at_).year ∧ (CivilTime.ofInstant at_).year ≤ 9999) :
    validCursorTimestamp codec (cursorAt at_) = true := by
  have hsplit : (stripSuffix 'Z' (cursorAt at_)).bind (rsplitOnce '.') =
      some (dateText (CivilTime.ofInstant at_),
        decimal.numeral 6 (CivilTime.ofInstant at_).micro.toNat) := by
    simp only [cursorAt, timestampText, stripSuffix, List.getLast?_append_of_ne_nil _
      (List.cons_ne_nil 'Z' []), List.getLast?_singleton, if_true, List.dropLast_concat,
      Option.bind_some]
    exact rsplitOnce_append (dot_notMem_numeral _ _)
  have hparse := h.rfc3339 _ (CivilTime.valid_ofInstant at_) hyear.1 hyear.2
  have hdate : byteLength (dateText (CivilTime.ofInstant at_)) = 19 := by
    rw [byteLength_of_plain (all_isPlain_dateText hyear), length_dateText hyear]
  have hfraction : byteLength (decimal.numeral 6 (CivilTime.ofInstant at_).micro.toNat) = 6 := by
    rw [byteLength_of_plain (all_isPlain_numeral _ _), Alphabet.length_numeral]
  have hdigits : (decimal.numeral 6 (CivilTime.ofInstant at_).micro.toNat).all isAsciiDigit = true :=
    List.all_eq_true.mpr fun _ hx ↦ isAsciiDigit_of_mem_numeral hx
  have hsome : (codec.parseFromRfc3339 (cursorAt at_)).isSome = true := by
    rw [cursorAt, hparse]
    rfl
  simp [validCursorTimestamp, hsplit, hdate, hfraction, hdigits, hsome]

theorem canonicalUuid_hyphenated (h : codec.Lawful) (id : Uuid) :
    canonicalUuid codec (codec.hyphenated id) id = true := by
  obtain ⟨hlength, hplain, hdash⟩ := h.hyphenated id
  have hbytes : byteLength (codec.hyphenated id) = 36 := by
    rw [byteLength_of_plain hplain, hlength]
  have hdashes : [8, 13, 18, 23].all (fun i ↦ (codec.hyphenated id)[i]? = some '-') = true :=
    List.all_eq_true.mpr fun i hi ↦ decide_eq_true (hdash i hi)
  rw [canonicalUuid, hbytes, hdashes]
  simp [eqIgnoreAsciiCase]

theorem all_isPlain_cursorAt
    (hyear : 1 ≤ (CivilTime.ofInstant at_).year ∧ (CivilTime.ofInstant at_).year ≤ 9999) :
    (cursorAt at_).all isPlain = true := by
  simp only [cursorAt, timestampText, List.all_append, List.all_cons, all_isPlain_dateText hyear,
    all_isPlain_numeral]
  decide

/-- The cursor of an addressable row is read back as that row, to the
microsecond. -/
theorem decodeCursor_encodeCursor (h : codec.Lawful) (hrow : Addressable at_ id) :
    ∃ text, encodeCursor codec (cursorAt at_) id = .ok text ∧
      decodeCursor codec (some text) = .ok (some ⟨at_, id⟩) := by
  obtain ⟨hlength, hplain, _⟩ := h.hyphenated id
  obtain ⟨bytes, htoVec, hfromSlice, hbytes⟩ :=
    h.json ⟨cursorAt at_, codec.hyphenated id⟩ (all_isPlain_cursorAt hrow.year) hplain
  have hsize : bytes.length = 80 := by
    rw [hbytes, hlength]
    simp [cursorAt, timestampText, length_dateText hrow.year]
  have htext : utf16Length (codec.base64Encode bytes) = 107 := by
    rw [h.base64Length, hsize]
  have hne : (codec.base64Encode bytes).isEmpty = false := by
    cases hempty : codec.base64Encode bytes with
    | nil =>
        rw [hempty] at htext
        cases htext
    | cons x rest => rfl
  have hparse := h.rfc3339 _ (CivilTime.valid_ofInstant at_) hrow.year.1 hrow.year.2
  rw [CivilTime.instant_ofInstant] at hparse
  refine ⟨codec.base64Encode bytes, by simp [encodeCursor, htoVec], ?_⟩
  have hversion : (decide (1 ≤ versionNum id) && decide (versionNum id ≤ 8)) = true := by
    simp [hrow.version]
  simp only [decodeCursor, Option.filter_some, hne, Bool.not_false, if_true, htext, h.base64,
    Option.bind_some, hfromSlice, h.parseStr, validCursorTimestamp_cursorAt h hrow.year,
    canonicalUuid_hyphenated h, hversion, hrow.variant, Bool.not_true, Bool.or_self,
    Bool.false_eq_true, if_false]
  rw [if_neg (by decide)]
  rw [show codec.parseFromRfc3339 (cursorAt at_) = some at_ from hparse]

end RoundTrip

namespace StandardCodec

def jsonParts : List Char × List Char × List Char :=
  (['\x7b', '"', 'a', 't', '"', ':', '"'], ['"', ',', '"', 'i', 'd', '"', ':', '"'], ['"', '\x7d'])

def toVec (wire : CursorWire) : List UInt8 :=
  (jsonParts.1 ++ wire.at_ ++ jsonParts.2.1 ++ wire.id ++ jsonParts.2.2).map
    fun c ↦ UInt8.ofNat c.toNat

/-- What follows `expected` at the start of `text`. -/
def dropText (expected text : List Char) : Option (List Char) :=
  if expected <+: text then some (text.drop expected.length) else none

def fromSlice (bytes : List UInt8) : Option CursorWire :=
  (dropText jsonParts.1 (bytes.map fun b ↦ Char.ofNat b.toNat)).bind fun text ↦
    (dropText jsonParts.2.1 (text.dropWhile (· ≠ '"'))).bind fun rest ↦
      if rest.dropWhile (· ≠ '"') = jsonParts.2.2 then
        some ⟨text.takeWhile (· ≠ '"'), rest.takeWhile (· ≠ '"')⟩
      else none

def hyphenated (id : Uuid) : List Char :=
  hexadecimal.numeral 8 (id.toNat / 2 ^ 96) ++ '-' ::
    hexadecimal.numeral 4 (id.toNat / 2 ^ 80 % 2 ^ 16) ++ '-' ::
    hexadecimal.numeral 4 (id.toNat / 2 ^ 64 % 2 ^ 16) ++ '-' ::
    hexadecimal.numeral 4 (id.toNat / 2 ^ 48 % 2 ^ 16) ++ '-' ::
    hexadecimal.numeral 12 (id.toNat % 2 ^ 48)

def parseStr (text : List Char) : Option Uuid := do
  let a ← hexadecimal.readNumeral (text.take 8)
  let b ← hexadecimal.readNumeral ((text.drop 9).take 4)
  let c ← hexadecimal.readNumeral ((text.drop 14).take 4)
  let d ← hexadecimal.readNumeral ((text.drop 19).take 4)
  let e ← hexadecimal.readNumeral (text.drop 24)
  return BitVec.ofNat 128 (a * 2 ^ 96 + b * 2 ^ 80 + c * 2 ^ 64 + d * 2 ^ 48 + e)

def readCivil (text : List Char) : Option CivilTime := do
  let year ← decimal.readNumeral (text.take 4)
  let month ← decimal.readNumeral ((text.drop 5).take 2)
  let day ← decimal.readNumeral ((text.drop 8).take 2)
  let hour ← decimal.readNumeral ((text.drop 11).take 2)
  let minute ← decimal.readNumeral ((text.drop 14).take 2)
  let second ← decimal.readNumeral ((text.drop 17).take 2)
  let micro ← decimal.readNumeral ((text.drop 20).take 6)
  return ⟨year, month, day, hour, minute, second, micro⟩

def parseFromRfc3339 (text : List Char) : Option ℤ :=
  ((readCivil text).filter fun c ↦ timestampText c = text).map CivilTime.instant

end StandardCodec

/-- Base64, UUID and RFC 3339 texts in their canonical forms, and JSON without
escapes or blanks. -/
def standardCodec : CursorCodec where
  toVec wire := some (StandardCodec.toVec wire)
  fromSlice := StandardCodec.fromSlice
  base64Encode := Base64.encode
  base64Decode := Base64.decode
  hyphenated := StandardCodec.hyphenated
  parseStr := StandardCodec.parseStr
  parseFromRfc3339 := StandardCodec.parseFromRfc3339

namespace StandardCodec

section Json

variable {text rest : List Char}

theorem ofNat_toUInt8 {c : Char} (h : c.toNat < 256) :
    Char.ofNat (UInt8.ofNat c.toNat).toNat = c := by
  rw [UInt8.toNat_ofNat', Nat.mod_eq_of_lt h]
  exact Char.ofNat_toNat c

theorem toNat_lt_of_isPlain {c : Char} (h : isPlain c = true) : c.toNat < 256 := by
  have hsize := Char.utf8Size_eq_one_iff.mp (utf8Size_of_isPlain h)
  have hle : c.toNat ≤ 127 := UInt32.le_iff_toNat_le.mp hsize
  omega

theorem quote_notMem (h : text.all isPlain = true) : ∀ c ∈ text, (decide (c ≠ '"')) = true := by
  intro c hc
  have hplain := List.all_eq_true.mp h c hc
  rw [decide_eq_true_iff]
  rintro rfl
  revert hplain
  decide

theorem span_quote (h : text.all isPlain = true) :
    (text ++ '"' :: rest).takeWhile (· ≠ '"') = text ∧
      (text ++ '"' :: rest).dropWhile (· ≠ '"') = '"' :: rest := by
  have hall := quote_notMem h
  rw [List.takeWhile_append_of_pos hall, List.dropWhile_append_of_pos hall]
  simp

theorem dropText_append (expected rest : List Char) :
    dropText expected (expected ++ rest) = some rest := by
  rw [dropText, if_pos (List.prefix_append expected rest), List.drop_left]

theorem read_bytes {chars : List Char} (h : ∀ c ∈ chars, c.toNat < 256) :
    (chars.map fun c ↦ UInt8.ofNat c.toNat).map (fun b ↦ Char.ofNat b.toNat) = chars := by
  rw [List.map_map]
  exact (List.map_congr_left fun c hc ↦ ofNat_toUInt8 (h c hc)).trans (List.map_id chars)

theorem fromSlice_toVec {wire : CursorWire} (hat : wire.at_.all isPlain = true)
    (hid : wire.id.all isPlain = true) : fromSlice (toVec wire) = some wire := by
  have hall : (jsonParts.1 ++ jsonParts.2.1 ++ jsonParts.2.2).all (fun c ↦ c.toNat < 256) = true := by
    decide
  have hliteral : ∀ c ∈ jsonParts.1 ++ jsonParts.2.1 ++ jsonParts.2.2, c.toNat < 256 :=
    fun c hc ↦ of_decide_eq_true (List.all_eq_true.mp hall c hc)
  have hsmall : ∀ c ∈ jsonParts.1 ++ wire.at_ ++ jsonParts.2.1 ++ wire.id ++ jsonParts.2.2,
      c.toNat < 256 := by
    intro c hc
    simp only [List.mem_append] at hc hliteral
    rcases hc with (((hc | hc) | hc) | hc) | hc
    · exact hliteral c (Or.inl (Or.inl hc))
    · exact toNat_lt_of_isPlain (List.all_eq_true.mp hat c hc)
    · exact hliteral c (Or.inl (Or.inr hc))
    · exact toNat_lt_of_isPlain (List.all_eq_true.mp hid c hc)
    · exact hliteral c (Or.inr hc)
  have hmiddle (tail : List Char) :
      wire.at_ ++ (jsonParts.2.1 ++ tail) = wire.at_ ++ '"' :: (jsonParts.2.1.drop 1 ++ tail) := rfl
  have hclose : wire.id ++ jsonParts.2.2 = wire.id ++ '"' :: jsonParts.2.2.drop 1 := rfl
  rw [fromSlice, toVec, read_bytes hsmall]
  simp only [List.append_assoc]
  rw [dropText_append, Option.bind_some, hmiddle, (span_quote hat).1, (span_quote hat).2]
  rw [show '"' :: (jsonParts.2.1.drop 1 ++ (wire.id ++ jsonParts.2.2)) =
    jsonParts.2.1 ++ (wire.id ++ jsonParts.2.2) from rfl, dropText_append, Option.bind_some, hclose,
    (span_quote hid).1, (span_quote hid).2]
  rfl

end Json

theorem isPlain_hexadecimal {w n : ℕ} {x : Char} (h : x ∈ hexadecimal.numeral w n) :
    isPlain x = true := by
  obtain ⟨d, hd, rfl⟩ := List.mem_map.mp h
  have hlt := lt_of_mem_digits (by decide) hd
  have hall : ∀ d < 16, isPlain (hexadecimal.toChar d) = true := by decide
  exact hall d hlt

theorem parseStr_hyphenated (id : Uuid) : parseStr (hyphenated id) = some id := by
  have hid : id.toNat < 2 ^ 128 := id.isLt
  have hread {w n : ℕ} (h : n < 16 ^ w) := hexadecimal.readNumeral_numeral (by decide) h
  have hparts : (hyphenated id).take 8 = hexadecimal.numeral 8 (id.toNat / 2 ^ 96) ∧
      ((hyphenated id).drop 9).take 4 = hexadecimal.numeral 4 (id.toNat / 2 ^ 80 % 2 ^ 16) ∧
      ((hyphenated id).drop 14).take 4 = hexadecimal.numeral 4 (id.toNat / 2 ^ 64 % 2 ^ 16) ∧
      ((hyphenated id).drop 19).take 4 = hexadecimal.numeral 4 (id.toNat / 2 ^ 48 % 2 ^ 16) ∧
      (hyphenated id).drop 24 = hexadecimal.numeral 12 (id.toNat % 2 ^ 48) := by
    refine ⟨?_, ?_, ?_, ?_, ?_⟩ <;>
      simp [hyphenated, List.drop_append, List.drop_of_length_le]
  obtain ⟨ha, hb, hc, hd, he⟩ := hparts
  rw [parseStr, ha, hb, hc, hd, he, hread (by norm_num; omega), hread (by norm_num; omega),
    hread (by norm_num; omega), hread (by norm_num; omega), hread (by norm_num; omega)]
  simp only [Option.bind_eq_bind, Option.bind_some, Option.pure_def, Option.some.injEq]
  apply BitVec.eq_of_toNat_eq
  rw [BitVec.toNat_ofNat]
  omega

theorem readCivil_timestampText {c : CivilTime} (hvalid : c.Valid)
    (hyear : 1 ≤ c.year ∧ c.year ≤ 9999) : readCivil (timestampText c) = some c := by
  have hday : c.day ≤ 31 := by
    refine hvalid.day.2.trans ?_
    unfold daysInMonth
    split
    · split <;> decide
    · split <;> decide
  have hread {w n : ℕ} (h : n < 10 ^ w) := decimal.readNumeral_numeral (by decide) h
  have hparts : (timestampText c).take 4 = decimal.numeral 4 c.year.toNat ∧
      ((timestampText c).drop 5).take 2 = decimal.numeral 2 c.month.toNat ∧
      ((timestampText c).drop 8).take 2 = decimal.numeral 2 c.day.toNat ∧
      ((timestampText c).drop 11).take 2 = decimal.numeral 2 c.hour.toNat ∧
      ((timestampText c).drop 14).take 2 = decimal.numeral 2 c.minute.toNat ∧
      ((timestampText c).drop 17).take 2 = decimal.numeral 2 c.second.toNat ∧
      ((timestampText c).drop 20).take 6 = decimal.numeral 6 c.micro.toNat := by
    refine ⟨?_, ?_, ?_, ?_, ?_, ?_, ?_⟩ <;>
      simp [timestampText, dateText, yearText_of_four_digits hyear, List.drop_append,
        List.drop_of_length_le]
  obtain ⟨hy, hmo, hd, hh, hmi, hs, hu⟩ := hparts
  have hmonth := hvalid.month
  have hdays := hvalid.day
  have hhour := hvalid.hour
  have hminute := hvalid.minute
  have hsecond := hvalid.second
  have hmicro := hvalid.micro
  rw [readCivil, hy, hmo, hd, hh, hmi, hs, hu, hread (by norm_num; omega), hread (by norm_num; omega),
    hread (by norm_num; omega), hread (by norm_num; omega), hread (by norm_num; omega),
    hread (by norm_num; omega), hread (by norm_num; omega)]
  simp only [Option.bind_eq_bind, Option.bind_some, Option.pure_def, Option.some.injEq]
  rw [Int.toNat_of_nonneg (by omega), Int.toNat_of_nonneg (by omega), Int.toNat_of_nonneg (by omega),
    Int.toNat_of_nonneg (by omega), Int.toNat_of_nonneg (by omega), Int.toNat_of_nonneg (by omega),
    Int.toNat_of_nonneg (by omega)]

theorem utf16Length_encode (bytes : List UInt8) :
    utf16Length (Base64.encode bytes) = (4 * bytes.length + 2) / 3 := by
  have hunits : (Base64.encode bytes).map (fun c ↦ if c.toNat < 65536 then 1 else 2) =
      (Base64.encode bytes).map fun _ ↦ 1 := by
    refine List.map_congr_left fun c hc ↦ if_pos ?_
    obtain ⟨s, hs, rfl⟩ := List.mem_map.mp hc
    have hall : ∀ s < 64, (base64Url.toChar s).toNat < 65536 := by decide +kernel
    exact hall s (Base64.lt_of_mem_encodeSextets hs)
  rw [utf16Length, hunits, ← Base64.length_encode]
  simp

end StandardCodec

theorem standardCodec_lawful : standardCodec.Lawful where
  json wire hat hid := by
    refine ⟨StandardCodec.toVec wire, rfl, StandardCodec.fromSlice_toVec hat hid, ?_⟩
    have hparts : StandardCodec.jsonParts.1.length = 7 ∧ StandardCodec.jsonParts.2.1.length = 8 ∧
        StandardCodec.jsonParts.2.2.length = 2 := by decide
    simp only [StandardCodec.toVec, List.length_map, List.length_append, hparts]
    omega
  base64 := Base64.decode_encode
  base64Length := StandardCodec.utf16Length_encode
  hyphenated id := by
    refine ⟨by simp [standardCodec, StandardCodec.hyphenated], ?_, ?_⟩
    · have hplain (w n : ℕ) : (hexadecimal.numeral w n).all isPlain = true :=
        List.all_eq_true.mpr fun _ hx ↦ StandardCodec.isPlain_hexadecimal hx
      simp only [standardCodec, StandardCodec.hyphenated, List.all_append, List.all_cons, hplain]
      decide
    · simp [standardCodec, StandardCodec.hyphenated, List.getElem?_append]
  parseStr := StandardCodec.parseStr_hyphenated
  rfc3339 c hvalid hfirst hlast := by
    simp [standardCodec, StandardCodec.parseFromRfc3339,
      StandardCodec.readCivil_timestampText hvalid ⟨hfirst, hlast⟩]

end Histae.Matches
