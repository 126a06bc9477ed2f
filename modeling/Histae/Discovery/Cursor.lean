import Mathlib
import Histae.Matches.Cursor
import Histae.Text.Numeral

/-!
# Cursors of the discovery feed

A distance is a double-precision number, kept as its bits; positive numbers
are ordered like their bits. `FeedCursorCodec` seals a distance, an identifier
and an expiry under the viewer's identifier. The cipher and the base64
functions belong to other crates: `FeedCipher.Lawful` states that a sealed text
opens under the associated data it was sealed with, and under no other.
-/

namespace Histae.Discovery

open Text Matches

/-- The bits of a double-precision number. -/
structure F64 where
  bits : BitVec 64
  deriving DecidableEq

namespace F64

variable (x : F64)

def magnitude : ℕ := x.bits.toNat % 2 ^ 63

def isNegative : Bool := 2 ^ 63 ≤ x.bits.toNat

def exponent : ℕ := x.magnitude / 2 ^ 52

def isFinite : Bool := x.exponent < 2047

def isNan : Bool := 2047 * 2 ^ 52 < x.magnitude

/-- Numbers are compared like their ranks; both zeros have rank 0. -/
def rank : ℤ := if x.isNegative then -x.magnitude else x.magnitude

def ofMagnitude (negative : Bool) (magnitude : ℕ) : F64 :=
  ⟨BitVec.ofNat 64 (if negative then 2 ^ 63 + magnitude else magnitude)⟩

/-- The product with 2: exact, or infinite above the largest exponent. -/
def double : F64 :=
  if x.exponent = 2047 then x
  else if x.exponent = 2046 then ofMagnitude x.isNegative (2047 * 2 ^ 52)
  else if x.exponent = 0 then ofMagnitude x.isNegative (2 * x.magnitude)
  else ofMagnitude x.isNegative (x.magnitude + 2 ^ 52)

/-- `f64::max`, which drops a number that is not one. -/
def max (y : F64) : F64 :=
  if x.isNan then y else if y.isNan then x else if x.rank < y.rank then y else x

/-- The number nearest to one tenth. -/
def tenth : F64 := ⟨0x3fb999999999999a⟩

end F64

structure DiscoveryCursor where
  distanceKm : F64
  id : Uuid
  deriving DecidableEq

inductive DiscoveryError
  | invalidFeedRequest
  | invalidCursor
  | notReady
  | unavailable
  deriving DecidableEq

def DiscoveryCursor.key (c : DiscoveryCursor) : ℤ ×ₗ ℕ := toLex (c.distanceKm.rank, c.id.toNat)

def toBeBytes (w n : ℕ) : List UInt8 := (digits 256 w n).map UInt8.ofNat

def fromBeBytes (bytes : List UInt8) : ℕ := value 256 (bytes.map UInt8.toNat)

/-- The functions of other crates behind a cursor, under the derived key. -/
structure FeedCipher where
  encrypt (nonce aad msg : List UInt8) : Option (List UInt8)
  decrypt (nonce aad msg : List UInt8) : Option (List UInt8)
  base64Encode : List UInt8 → List Char
  base64Decode : List Char → Option (List UInt8)

structure Nonce where
  bytes : List UInt8
  length_eq : bytes.length = 12
  deriving DecidableEq

def version : UInt8 := 1

def payloadBytes : ℕ := 8 + 16 + 8

def tokenBytes : ℕ := 1 + 12 + payloadBytes + 16

def ttlSeconds : ℤ := 900

/-- Whole seconds since the epoch. -/
def timestamp (now : ℤ) : ℤ := now / 1000000

def checkedAdd (a b : ℤ) : Option ℤ :=
  if -2 ^ 63 ≤ a + b ∧ a + b < 2 ^ 63 then some (a + b) else none

def validCursor (cursor : DiscoveryCursor) : Bool :=
  cursor.distanceKm.isFinite && 0 ≤ cursor.distanceKm.rank &&
    (1 ≤ versionNum cursor.id && versionNum cursor.id ≤ 8) && isRfc4122 cursor.id

def payload (cursor : DiscoveryCursor) (expiresAt : ℤ) : List UInt8 :=
  toBeBytes 8 cursor.distanceKm.bits.toNat ++ toBeBytes 16 cursor.id.toNat ++
    toBeBytes 8 (BitVec.ofInt 64 expiresAt).toNat

section Codec

variable (cipher : FeedCipher)

/-- `FeedCursorCodec::encode`; without randomness there is no nonce. -/
def encode (viewer : Uuid) (cursor : DiscoveryCursor) (now : ℤ) (nonce : Option Nonce) :
    Except DiscoveryError (List Char) :=
  if !validCursor cursor then .error .unavailable
  else
    match checkedAdd (timestamp now) ttlSeconds with
    | none => .error .unavailable
    | some expiresAt =>
        match nonce with
        | none => .error .unavailable
        | some nonce =>
            match cipher.encrypt nonce.bytes (toBeBytes 16 viewer.toNat)
                (payload cursor expiresAt) with
            | none => .error .unavailable
            | some encrypted => .ok (cipher.base64Encode (version :: nonce.bytes ++ encrypted))

/-- `FeedCursorCodec::decode`. -/
def decode (viewer : Uuid) (value : Option (List Char)) (now : ℤ) :
    Except DiscoveryError (Option DiscoveryCursor) :=
  match value.filter fun text ↦ !text.isEmpty with
  | none => .ok none
  | some text =>
      if 128 < byteLength text then .error .invalidCursor
      else
        match cipher.base64Decode text with
        | none => .error .invalidCursor
        | some token =>
            if token.length ≠ tokenBytes ∨ token.head? ≠ some version then .error .invalidCursor
            else
              match cipher.decrypt ((token.drop 1).take 12) (toBeBytes 16 viewer.toNat)
                  (token.drop 13) with
              | none => .error .invalidCursor
              | some plaintext =>
                  if plaintext.length ≠ payloadBytes then .error .invalidCursor
                  else
                    let cursor : DiscoveryCursor :=
                      ⟨⟨BitVec.ofNat 64 (fromBeBytes (plaintext.take 8))⟩,
                        BitVec.ofNat 128 (fromBeBytes ((plaintext.drop 8).take 16))⟩
                    let expiresAt :=
                      (BitVec.ofNat 64 (fromBeBytes (plaintext.drop 24))).toInt
                    if expiresAt ≤ timestamp now ∨ !validCursor cursor then .error .invalidCursor
                    else .ok (some cursor)

end Codec

/-- What the other crates promise about sealed texts. -/
structure FeedCipher.Lawful (cipher : FeedCipher) : Prop where
  seals : ∀ nonce aad msg, nonce.length = 12 → aad.length = 16 → ∃ sealed,
    cipher.encrypt nonce aad msg = some sealed ∧ sealed.length = msg.length + 16 ∧
      cipher.decrypt nonce aad sealed = some msg
  authentic : ∀ nonce aad aad' msg msg' sealed, aad.length = 16 → aad'.length = 16 →
    cipher.encrypt nonce aad msg = some sealed → cipher.decrypt nonce aad' sealed = some msg' →
    aad' = aad
  base64 : ∀ bytes, cipher.base64Decode (cipher.base64Encode bytes) = some bytes
  base64Length : ∀ bytes, byteLength (cipher.base64Encode bytes) = (4 * bytes.length + 2) / 3

section Bytes

variable {w n : ℕ}

@[simp] theorem length_toBeBytes (w n : ℕ) : (toBeBytes w n).length = w := by simp [toBeBytes]

theorem fromBeBytes_toBeBytes (h : n < 256 ^ w) : fromBeBytes (toBeBytes w n) = n := by
  have hdigits : ((digits 256 w n).map UInt8.ofNat).map UInt8.toNat = digits 256 w n := by
    rw [List.map_map]
    refine (List.map_congr_left fun d hd ↦ ?_).trans (List.map_id _)
    have hlt := lt_of_mem_digits (by decide) hd
    simpa using Nat.mod_eq_of_lt hlt
  rw [fromBeBytes, toBeBytes, hdigits, value_digits h]

theorem toBeBytes_inj {m : ℕ} (hm : m < 256 ^ w) (hn : n < 256 ^ w)
    (h : toBeBytes w m = toBeBytes w n) : m = n := by
  rw [← fromBeBytes_toBeBytes hm, h, fromBeBytes_toBeBytes hn]

end Bytes

section RoundTrip

variable {cipher : FeedCipher} {viewer : Uuid} {cursor : DiscoveryCursor} {now later : ℤ}
  {nonce : Option Nonce} {text : List Char} {expiresAt : ℤ}

theorem length_payload : (payload cursor expiresAt).length = payloadBytes := by
  simp [payload, payloadBytes]

theorem payload_parts :
    (payload cursor expiresAt).take 8 = toBeBytes 8 cursor.distanceKm.bits.toNat ∧
      ((payload cursor expiresAt).drop 8).take 16 = toBeBytes 16 cursor.id.toNat ∧
      (payload cursor expiresAt).drop 24 = toBeBytes 8 (BitVec.ofInt 64 expiresAt).toNat := by
  refine ⟨?_, ?_, ?_⟩ <;> simp [payload, List.drop_append]

/-- What a successful encoding has done. -/
theorem encode_eq_ok (h : encode cipher viewer cursor now nonce = .ok text) :
    validCursor cursor = true ∧ -2 ^ 63 ≤ timestamp now + ttlSeconds ∧
      timestamp now + ttlSeconds < 2 ^ 63 ∧ ∃ n sealed, nonce = some n ∧
        cipher.encrypt n.bytes (toBeBytes 16 viewer.toNat)
          (payload cursor (timestamp now + ttlSeconds)) = some sealed ∧
        text = cipher.base64Encode (version :: n.bytes ++ sealed) := by
  unfold encode at h
  split at h
  · exact absurd h (by simp)
  rename_i hvalid
  split at h
  · exact absurd h (by simp)
  rename_i expires hadd
  unfold checkedAdd at hadd
  split at hadd
  · rename_i hrange
    obtain rfl := Option.some.inj hadd
    split at h
    · exact absurd h (by simp)
    rename_i n
    split at h
    · exact absurd h (by simp)
    rename_i sealed hsealed
    exact ⟨by simpa using hvalid, hrange.1, hrange.2, n, sealed, rfl, hsealed,
      (Except.ok.inj h).symm⟩
  · exact absurd hadd (by simp)

/-- Decoding a sealed cursor depends on what its cipher opens. -/
theorem decode_token (hcipher : cipher.Lawful) (n : Nonce) {sealed : List UInt8}
    (hlength : sealed.length = payloadBytes + 16) (other : Uuid) (later : ℤ) :
    decode cipher other (some (cipher.base64Encode (version :: n.bytes ++ sealed))) later =
      match cipher.decrypt n.bytes (toBeBytes 16 other.toNat) sealed with
      | none => .error .invalidCursor
      | some plaintext =>
          if plaintext.length ≠ payloadBytes then .error .invalidCursor
          else if (BitVec.ofNat 64 (fromBeBytes (plaintext.drop 24))).toInt ≤ timestamp later ∨
              !validCursor ⟨⟨BitVec.ofNat 64 (fromBeBytes (plaintext.take 8))⟩,
                BitVec.ofNat 128 (fromBeBytes ((plaintext.drop 8).take 16))⟩ then
            .error .invalidCursor
          else .ok (some ⟨⟨BitVec.ofNat 64 (fromBeBytes (plaintext.take 8))⟩,
            BitVec.ofNat 128 (fromBeBytes ((plaintext.drop 8).take 16))⟩) := by
  have htoken : (version :: n.bytes ++ sealed).length = tokenBytes := by
    simp [n.length_eq, hlength, payloadBytes, tokenBytes]
  have hbytes : byteLength (cipher.base64Encode (version :: n.bytes ++ sealed)) = 82 := by
    rw [hcipher.base64Length, htoken]
    decide
  have hne : (cipher.base64Encode (version :: n.bytes ++ sealed)).isEmpty = false := by
    cases hempty : cipher.base64Encode (version :: n.bytes ++ sealed) with
    | nil =>
        rw [hempty] at hbytes
        exact absurd hbytes (by decide)
    | cons x rest => rfl
  have hnonce : ((version :: n.bytes ++ sealed).drop 1).take 12 = n.bytes := by
    simp [n.length_eq]
  have hsealed : (version :: n.bytes ++ sealed).drop 13 = sealed := by
    simp [n.length_eq]
  simp only [decode, Option.filter_some, hne, Bool.not_false, if_true, hbytes, hcipher.base64,
    htoken, hnonce, hsealed]
  simp

theorem toInt_expiry (hlow : -2 ^ 63 ≤ expiresAt) (hhigh : expiresAt < 2 ^ 63) :
    (BitVec.ofNat 64 (fromBeBytes (toBeBytes 8 (BitVec.ofInt 64 expiresAt).toNat))).toInt =
      expiresAt := by
  have hlt : (BitVec.ofInt 64 expiresAt).toNat < 256 ^ 8 := (BitVec.ofInt 64 expiresAt).isLt
  rw [fromBeBytes_toBeBytes hlt, BitVec.ofNat_toNat, BitVec.setWidth_eq, BitVec.toInt_ofInt]
  rw [Int.bmod_eq_of_le] <;> omega

theorem cursor_of_payload :
    (⟨⟨BitVec.ofNat 64 (fromBeBytes (toBeBytes 8 cursor.distanceKm.bits.toNat))⟩,
      BitVec.ofNat 128 (fromBeBytes (toBeBytes 16 cursor.id.toNat))⟩ : DiscoveryCursor) =
      cursor := by
  have hdistance : cursor.distanceKm.bits.toNat < 256 ^ 8 := cursor.distanceKm.bits.isLt
  have hid : cursor.id.toNat < 256 ^ 16 := cursor.id.isLt
  rw [fromBeBytes_toBeBytes hdistance, fromBeBytes_toBeBytes hid]
  simp

/-- A cursor is read back for its viewer until it expires, and never for
another viewer. -/
theorem decode_encode (hcipher : cipher.Lawful)
    (h : encode cipher viewer cursor now nonce = .ok text) (later : ℤ) :
    (timestamp later < timestamp now + ttlSeconds →
      decode cipher viewer (some text) later = .ok (some cursor)) ∧
    (timestamp now + ttlSeconds ≤ timestamp later →
      decode cipher viewer (some text) later = .error .invalidCursor) ∧
    ∀ other, other ≠ viewer → decode cipher other (some text) later = .error .invalidCursor := by
  obtain ⟨hvalid, hlow, hhigh, n, sealed, rfl, hsealed, rfl⟩ := encode_eq_ok h
  obtain ⟨sealed', hsealed', hlength, hopen⟩ := hcipher.seals n.bytes (toBeBytes 16 viewer.toNat)
    (payload cursor (timestamp now + ttlSeconds)) n.length_eq (length_toBeBytes 16 _)
  obtain rfl := Option.some.inj (hsealed.symm.trans hsealed')
  rw [length_payload] at hlength
  have htoken := decode_token hcipher n hlength
  obtain ⟨hdistance, hid, hexpires⟩ := @payload_parts cursor (timestamp now + ttlSeconds)
  have hown : ∀ later, decode cipher viewer
      (some (cipher.base64Encode (version :: n.bytes ++ sealed))) later =
        if timestamp now + ttlSeconds ≤ timestamp later then .error .invalidCursor
        else .ok (some cursor) := by
    intro later
    rw [htoken viewer later, hopen]
    simp only [length_payload, hdistance, hid, hexpires, toInt_expiry hlow hhigh,
      cursor_of_payload, hvalid]
    simp
  refine ⟨fun hbefore ↦ ?_, fun hafter ↦ ?_, fun other hother ↦ ?_⟩
  · rw [hown, if_neg (not_le.mpr hbefore)]
  · rw [hown, if_pos hafter]
  · rw [htoken other later]
    cases hdecrypt : cipher.decrypt n.bytes (toBeBytes 16 other.toNat) sealed with
    | none => rfl
    | some plaintext =>
        have hsame := hcipher.authentic n.bytes _ _ _ plaintext sealed (length_toBeBytes 16 _)
          (length_toBeBytes 16 _) hsealed hdecrypt
        have heq := toBeBytes_inj other.isLt viewer.isLt hsame
        exact absurd (BitVec.eq_of_toNat_eq heq) hother

end RoundTrip

/-- A cipher that hides nothing: the sealed text carries its associated data. -/
def plainCipher : FeedCipher where
  encrypt _ aad msg := some (msg ++ aad)
  decrypt _ aad sealed :=
    if sealed.drop (sealed.length - 16) = aad then some (sealed.take (sealed.length - 16)) else none
  base64Encode := Base64.encode
  base64Decode := Base64.decode

theorem byteLength_encode (bytes : List UInt8) :
    byteLength (Base64.encode bytes) = (4 * bytes.length + 2) / 3 := by
  have hunits : (Base64.encode bytes).map Char.utf8Size = (Base64.encode bytes).map fun _ ↦ 1 := by
    refine List.map_congr_left fun c hc ↦ ?_
    obtain ⟨s, hs, rfl⟩ := List.mem_map.mp hc
    have hall : ∀ s < 64, (base64Url.toChar s).utf8Size = 1 := by decide +kernel
    exact hall s (Base64.lt_of_mem_encodeSextets hs)
  rw [byteLength, hunits, ← Base64.length_encode]
  simp

theorem plainCipher_lawful : plainCipher.Lawful where
  seals nonce aad msg _ haad := by
    refine ⟨msg ++ aad, rfl, by rw [List.length_append, haad], ?_⟩
    simp [plainCipher, haad]
  authentic nonce aad aad' msg msg' sealed haad _ hsealed hopen := by
    obtain rfl := Option.some.inj hsealed
    simp only [plainCipher, List.length_append, haad, Nat.add_sub_cancel, List.drop_left] at hopen
    split at hopen
    · rename_i hsame
      exact hsame.symm
    · exact absurd hopen (by simp)
  base64 := Base64.decode_encode
  base64Length := byteLength_encode

end Histae.Discovery
