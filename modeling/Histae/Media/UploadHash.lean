import Histae.Text.Numeral
import Histae.Text.Trim

/-!
# The hash of an upload

An upload is hashed with its file name, its declared type and its bytes, each
with its length in front of it. Lengths are four bytes and saturate. The limit
on the body of a request keeps them below that, so that two uploads of one hash
have the same three fields.
-/

namespace Histae.Media

open Text

structure UploadPhoto where
  filename : List Char
  mimeType : List Char
  body : List UInt8
  deriving DecidableEq

/-- SHA-256, the lower case of a text and the text of an identifier. -/
structure UploadCodec where
  sha256 : List UInt8 → List UInt8
  toLowercase : List Char → List Char
  hyphenated : BitVec 128 → List Char

/-- SHA-256 does not collide, and a character has at most three in lower case. -/
structure UploadCodec.Lawful (codec : UploadCodec) : Prop where
  sha256 : Function.Injective codec.sha256
  toLowercase : ∀ text, (codec.toLowercase text).length ≤ 3 * text.length

def isWhitespace (c : Char) : Bool :=
  ('\x09' ≤ c && c ≤ '\x0D') || c = ' ' || c = '\u0085' || c = '\u00A0' || c = '\u1680' ||
    ('\u2000' ≤ c && c ≤ '\u200A') || c = '\u2028' || c = '\u2029' || c = '\u202F' ||
    c = '\u205F' || c = '\u3000'

def utf8 (text : List Char) : List UInt8 := text.flatMap String.utf8EncodeChar

def toBeBytes (n : ℕ) : List UInt8 := (digits 256 4 n).map UInt8.ofNat

/-- The bytes that `update_length_prefixed` adds to the hash. -/
def lengthPrefixed (value : List UInt8) : List UInt8 :=
  toBeBytes (min value.length (2 ^ 32 - 1)) ++ value

section Hash

variable (codec : UploadCodec)

def normalizedType (mimeType : List Char) : List Char :=
  codec.toLowercase (trimMatches isWhitespace mimeType)

def hashedBytes (upload : UploadPhoto) : List UInt8 :=
  lengthPrefixed (utf8 upload.filename) ++
    (lengthPrefixed (utf8 (normalizedType codec upload.mimeType)) ++ lengthPrefixed upload.body)

def uploadRequestHash (upload : UploadPhoto) : List UInt8 := codec.sha256 (hashedBytes codec upload)

end Hash

def jsonBodyLimit : ℕ := 1024 * 1024

def maxPhotoUploadBytes : ℕ := 500000

/-- The fields of one request, whose body the router limits. -/
structure UploadPhoto.Received (upload : UploadPhoto) : Prop where
  body : upload.body.length ≤ maxPhotoUploadBytes
  request : (utf8 upload.filename).length + (utf8 upload.mimeType).length + upload.body.length ≤
    jsonBodyLimit

instance (upload : UploadPhoto) : Decidable upload.Received :=
  decidable_of_iff (upload.body.length ≤ maxPhotoUploadBytes ∧
      (utf8 upload.filename).length + (utf8 upload.mimeType).length + upload.body.length ≤
        jsonBodyLimit)
    ⟨fun h ↦ ⟨h.1, h.2⟩, fun h ↦ ⟨h.body, h.request⟩⟩

section Injective

variable {value value' rest rest' : List UInt8}

theorem utf8_injective : Function.Injective utf8 := by
  intro text text' hsame
  have hbytes : text.utf8Encode = text'.utf8Encode := by
    unfold List.utf8Encode
    exact congrArg List.toByteArray hsame
  refine String.ofList_injective ?_
  refine String.toByteArray_inj.mp ?_
  rw [String.toByteArray_ofList, String.toByteArray_ofList, hbytes]

theorem length_toBeBytes (n : ℕ) : (toBeBytes n).length = 4 := by simp [toBeBytes]

theorem toBeBytes_inj {m n : ℕ} (hm : m < 2 ^ 32) (hn : n < 2 ^ 32) (h : toBeBytes m = toBeBytes n) :
    m = n := by
  have hread : ∀ k < 2 ^ 32, value 256 ((toBeBytes k).map UInt8.toNat) = k := by
    intro k hk
    have hdigits : (toBeBytes k).map UInt8.toNat = digits 256 4 k := by
      unfold toBeBytes
      rw [List.map_map]
      conv_rhs => rw [← List.map_id (digits 256 4 k)]
      refine List.map_congr_left fun d hd ↦ ?_
      have hlt : d < 256 := lt_of_mem_digits (by omega) hd
      exact UInt8.toNat_ofNat_of_lt' hlt
    rw [hdigits]
    exact value_digits (by omega)
  rw [← hread m hm, h, hread n hn]

/-- The length in front of a field says where it ends. -/
theorem lengthPrefixed_append_inj (hvalue : value.length < 2 ^ 32) (hvalue' : value'.length < 2 ^ 32)
    (h : lengthPrefixed value ++ rest = lengthPrefixed value' ++ rest') :
    value = value' ∧ rest = rest' := by
  unfold lengthPrefixed at h
  rw [List.append_assoc, List.append_assoc] at h
  obtain ⟨hlength, hrest⟩ := List.append_inj h (by rw [length_toBeBytes, length_toBeBytes])
  have hsame := toBeBytes_inj (by omega) (by omega) hlength
  exact List.append_inj hrest (by omega)

variable {codec : UploadCodec} {upload upload' : UploadPhoto}

/-- The encoding of the three fields is injective. -/
theorem hashedBytes_inj (hfilename : (utf8 upload.filename).length < 2 ^ 32)
    (hfilename' : (utf8 upload'.filename).length < 2 ^ 32)
    (htype : (utf8 (normalizedType codec upload.mimeType)).length < 2 ^ 32)
    (htype' : (utf8 (normalizedType codec upload'.mimeType)).length < 2 ^ 32)
    (hbody : upload.body.length < 2 ^ 32) (hbody' : upload'.body.length < 2 ^ 32)
    (h : hashedBytes codec upload = hashedBytes codec upload') :
    upload.filename = upload'.filename ∧
      normalizedType codec upload.mimeType = normalizedType codec upload'.mimeType ∧
      upload.body = upload'.body := by
  obtain ⟨hname, hrest⟩ := lengthPrefixed_append_inj hfilename hfilename' h
  obtain ⟨hmime, hlast⟩ := lengthPrefixed_append_inj htype htype' hrest
  have hnil : lengthPrefixed upload.body ++ [] = lengthPrefixed upload'.body ++ [] := by
    rw [List.append_nil, List.append_nil]
    exact hlast
  exact ⟨utf8_injective hname, utf8_injective hmime,
    (lengthPrefixed_append_inj hbody hbody' hnil).1⟩

theorem length_utf8_le (text : List Char) : (utf8 text).length ≤ 4 * text.length := by
  induction text with
  | nil => rfl
  | cons c text ih =>
      have hc : (String.utf8EncodeChar c).length ≤ 4 := by
        rw [String.length_utf8EncodeChar]
        exact Char.utf8Size_le_four c
      have hcons : utf8 (c :: text) = String.utf8EncodeChar c ++ utf8 text := List.flatMap_cons
      rw [hcons, List.length_append, List.length_cons]
      omega

theorem length_le_utf8 (text : List Char) : text.length ≤ (utf8 text).length := by
  induction text with
  | nil => rfl
  | cons c text ih =>
      have hc : 0 < (String.utf8EncodeChar c).length := by
        rw [String.length_utf8EncodeChar]
        exact Char.utf8Size_pos c
      have hcons : utf8 (c :: text) = String.utf8EncodeChar c ++ utf8 text := List.flatMap_cons
      rw [hcons, List.length_append, List.length_cons]
      omega

theorem length_normalizedType (hl : codec.Lawful) (hreceived : upload.Received) :
    (utf8 (normalizedType codec upload.mimeType)).length < 2 ^ 32 := by
  have hutf8 := length_utf8_le (normalizedType codec upload.mimeType)
  have hlower := hl.toLowercase (trimMatches isWhitespace upload.mimeType)
  have htrim := ( trimMatches_infix isWhitespace upload.mimeType).length_le
  have hmime := length_le_utf8 upload.mimeType
  have hrequest := hreceived.request
  unfold jsonBodyLimit at hrequest
  unfold normalizedType at hutf8 ⊢
  omega

/-- Two received uploads have one hash exactly when their names, their types up
to case and surrounding spaces, and their bytes agree. -/
theorem uploadRequestHash_eq_iff (hl : codec.Lawful) (hreceived : upload.Received)
    (hreceived' : upload'.Received) :
    uploadRequestHash codec upload = uploadRequestHash codec upload' ↔
      upload.filename = upload'.filename ∧
        normalizedType codec upload.mimeType = normalizedType codec upload'.mimeType ∧
        upload.body = upload'.body := by
  have hrequest := hreceived.request
  have hrequest' := hreceived'.request
  unfold jsonBodyLimit at hrequest hrequest'
  constructor
  · intro hsame
    exact hashedBytes_inj (by omega) (by omega) (length_normalizedType hl hreceived)
      (length_normalizedType hl hreceived') (by omega) (by omega) (hl.sha256 hsame)
  · rintro ⟨hname, hmime, hbody⟩
    unfold uploadRequestHash hashedBytes
    rw [hname, hmime, hbody]

end Injective

end Histae.Media
