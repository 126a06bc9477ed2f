import Mathlib
import Histae.Matches.Cursor
import Histae.Text.Base64

/-!
# Opaque refresh tokens

A refresh token is its identifier, a colon and 32 random bytes in base 64.
The database keeps the SHA-256 digest of the encoded secret. A recovery
receipt seals a replacement token under a key derived from the presented
token and the attempt, with the attempt as associated data.

SHA-256, AES-GCM and the textual form of a UUID come from other crates and
are parameters; `Lawful` is what the service relies on.
-/

namespace Histae.Identity

open Text Matches

structure TokenCrypto where
  hyphenated : Uuid → List Char
  parseStr : List Char → Option Uuid
  sha256Hex : List UInt8 → List Char
  sealSecret : (nonce : List UInt8) → (value key : List Char) → (purpose : List UInt8) →
    List UInt8
  openSecret : (sealed : List UInt8) → (key : List Char) → (purpose : List UInt8) →
    Option (List Char)

/-- SHA-256 does not collide, and a sealed value opens under the key and the
purpose it was sealed with, and under no other. -/
structure TokenCrypto.Lawful (c : TokenCrypto) : Prop where
  hyphenated : ∀ id, ':' ∉ c.hyphenated id
  parseStr : ∀ id, c.parseStr (c.hyphenated id) = some id
  sha256Hex : Function.Injective c.sha256Hex
  openSecret : ∀ nonce value key purpose key' purpose',
    c.openSecret (c.sealSecret nonce value key purpose) key' purpose' =
      if key' = key ∧ purpose' = purpose then some value else none

/-- The bytes of an ASCII text. -/
def asciiBytes (text : List Char) : List UInt8 := text.map fun c ↦ UInt8.ofNat c.toNat

def uuidBytes (id : Uuid) : List UInt8 := Base64.bytesOf 16 id.toNat

def isSecretChar (c : Char) : Bool :=
  ('0' ≤ c && c ≤ '9') || ('A' ≤ c && c ≤ 'Z') || ('a' ≤ c && c ≤ 'z') || c = '_' || c = '-'

def isRandomUuid (id : Uuid) : Bool := versionNum id = 4 && isRfc4122 id

def uuidAll (id : Uuid) : Bool :=
  id = 0 || id = BitVec.allOnes 128 ||
    (1 ≤ versionNum id && versionNum id ≤ 8 && isRfc4122 id)

structure NewRefreshToken where
  id : Uuid
  jti : Uuid
  secret : List UInt8
  createdAt : ℤ
  expiresAt : ℤ
  random : isRandomUuid jti = true
  size : secret.length = 32
  deriving DecidableEq

structure ParsedRefreshToken where
  jti : Uuid
  hash : List Char
  deriving DecidableEq

section Format

variable (c : TokenCrypto)

def canonicalUuid (value : List Char) : Option Uuid :=
  (c.parseStr value).filter fun parsed ↦
    eqIgnoreAsciiCase (c.hyphenated parsed) value && uuidAll parsed

def NewRefreshToken.plain (token : NewRefreshToken) : List Char :=
  c.hyphenated token.jti ++ ':' :: Base64.encode token.secret

def NewRefreshToken.hash (token : NewRefreshToken) : List Char :=
  c.sha256Hex (asciiBytes (Base64.encode token.secret))

def parseRefreshToken (value : List Char) : Option ParsedRefreshToken :=
  if ':' ∉ value then none
  else
    let secret := (value.dropWhile (· ≠ ':')).drop 1
    if secret.length ≠ 43 || !secret.all isSecretChar then none
    else ((canonicalUuid c (value.takeWhile (· ≠ ':'))).filter isRandomUuid).map fun jti ↦
      ⟨jti, c.sha256Hex (asciiBytes secret)⟩

def recoveryKey (parent : List Char) (attempt : Uuid) : List Char :=
  c.sha256Hex (asciiBytes ("histae/refresh-recovery/key/v1".toList ++ ['\x00']) ++
    asciiBytes parent ++ uuidBytes attempt)

def recoveryPurpose (attempt : Uuid) : List UInt8 :=
  asciiBytes ("histae/refresh-recovery/result/v1".toList ++ ['\x00']) ++ uuidBytes attempt

def requestHashOf (attempt : Uuid) : List Char := c.sha256Hex (uuidBytes attempt)

structure RefreshRecovery where
  requestHash : List Char
  encryptedToken : List UInt8
  key : List Char
  purpose : List UInt8
  deriving DecidableEq

def RefreshRecovery.new (parent : List Char) (attempt : Uuid) (replacement : List Char)
    (nonce : List UInt8) : RefreshRecovery where
  requestHash := requestHashOf c attempt
  encryptedToken := c.sealSecret nonce replacement (recoveryKey c parent attempt)
    (recoveryPurpose attempt)
  key := recoveryKey c parent attempt
  purpose := recoveryPurpose attempt

def RefreshRecovery.open (recovery : RefreshRecovery) (encrypted : List UInt8) :
    Option (List Char) :=
  c.openSecret encrypted recovery.key recovery.purpose

end Format

theorem isSecretChar_toChar : ∀ d < 64, isSecretChar (base64Url.toChar d) = true := by
  decide +kernel

theorem all_isSecretChar_encode (bytes : List UInt8) :
    (Base64.encode bytes).all isSecretChar = true := by
  rw [List.all_eq_true]
  intro ch hch
  obtain ⟨d, hd, rfl⟩ := List.mem_map.mp hch
  exact isSecretChar_toChar d (Base64.lt_of_mem_encodeSextets hd)

theorem uuidAll_of_random {id : Uuid} (h : isRandomUuid id = true) : uuidAll id = true := by
  obtain ⟨hversion, hvariant⟩ := Bool.and_eq_true_iff.mp h
  have hfour : versionNum id = 4 := of_decide_eq_true hversion
  simp [uuidAll, hfour, hvariant]

variable {c : TokenCrypto}

/-- A generated token is read back as its identifier and the stored digest. -/
theorem parseRefreshToken_plain (h : c.Lawful) (token : NewRefreshToken) :
    parseRefreshToken c (token.plain c) = some ⟨token.jti, token.hash c⟩ := by
  have hcolon : ∀ ch ∈ c.hyphenated token.jti, decide (ch ≠ ':') = true := by
    intro ch hch
    rw [decide_eq_true_iff]
    rintro rfl
    exact h.hyphenated token.jti hch
  have htake : (token.plain c).takeWhile (· ≠ ':') = c.hyphenated token.jti := by
    rw [NewRefreshToken.plain, List.takeWhile_append_of_pos hcolon]
    simp
  have hdrop : ((token.plain c).dropWhile (· ≠ ':')).drop 1 = Base64.encode token.secret := by
    rw [NewRefreshToken.plain, List.dropWhile_append_of_pos hcolon]
    simp
  have hlength : (Base64.encode token.secret).length = 43 := by
    rw [Base64.length_encode, token.size]
  have hcanonical : canonicalUuid c (c.hyphenated token.jti) = some token.jti := by
    simp [canonicalUuid, h.parseStr, eqIgnoreAsciiCase, uuidAll_of_random token.random]
  have hmem : ':' ∈ token.plain c := by simp [NewRefreshToken.plain]
  rw [parseRefreshToken, if_neg (not_not.mpr hmem)]
  simp only [htake, hdrop, hlength, all_isSecretChar_encode, hcanonical]
  simp [token.random, NewRefreshToken.hash]

theorem uuidBytes_injective : Function.Injective uuidBytes := by
  intro x y hxy
  have hvalue : ∀ id : Uuid, Base64.bytesValue (uuidBytes id) = id.toNat :=
    fun id ↦ Base64.bytesValue_bytesOf id.isLt
  exact BitVec.eq_of_toNat_eq (by rw [← hvalue x, ← hvalue y, hxy])

theorem requestHashOf_injective (h : c.Lawful) : Function.Injective (requestHashOf c) := by
  intro x y hxy
  exact uuidBytes_injective (h.sha256Hex hxy)

/-- Receipts are opened with the token and the attempt they were made for. -/
theorem RefreshRecovery.open_new (h : c.Lawful) (parent : List Char) (attempt : Uuid)
    (replacement ignored : List Char) (nonce nonce' : List UInt8) :
    (RefreshRecovery.new c parent attempt ignored nonce').open c
      (RefreshRecovery.new c parent attempt replacement nonce).encryptedToken =
        some replacement := by
  simp [RefreshRecovery.open, RefreshRecovery.new, h.openSecret]

namespace TransparentCrypto

def encodeText (text : List Char) : List UInt8 :=
  text.flatMap (fun ch ↦ 1 :: Base64.bytesOf 4 ch.toNat) ++ [0]

def decodeText : List UInt8 → Option (List Char × List UInt8)
  | 0 :: rest => some ([], rest)
  | 1 :: b₀ :: b₁ :: b₂ :: b₃ :: rest =>
      (decodeText rest).map fun x ↦
        (Char.ofNat (Base64.bytesValue [b₀, b₁, b₂, b₃]) :: x.1, x.2)
  | _ => none

theorem decodeText_encodeText (text : List Char) (rest : List UInt8) :
    decodeText (encodeText text ++ rest) = some (text, rest) := by
  induction text with
  | nil => rfl
  | cons ch text ih =>
      have hlt : ch.toNat < 256 ^ 4 := ch.val.toNat_lt
      have hvalue := Base64.bytesValue_bytesOf hlt
      have hlength : (Base64.bytesOf 4 ch.toNat).length = 4 := by simp [Base64.bytesOf]
      obtain ⟨b₀, b₁, b₂, b₃, hbytes⟩ := List.length_eq_four.mp hlength
      have hsplit : encodeText (ch :: text) ++ rest =
          1 :: b₀ :: b₁ :: b₂ :: b₃ :: (encodeText text ++ rest) := by
        simp [encodeText, hbytes]
      rw [hsplit, decodeText, ih, Option.map_some, ← hbytes, hvalue, Char.ofNat_toNat]

def sealSecret (_nonce : List UInt8) (value key : List Char) (purpose : List UInt8) :
    List UInt8 :=
  encodeText key ++ (encodeText value ++ purpose)

def openSecret (sealed : List UInt8) (key : List Char) (purpose : List UInt8) :
    Option (List Char) := do
  let (key', rest) ← decodeText sealed
  let (value, purpose') ← decodeText rest
  if key = key' ∧ purpose = purpose' then some value else none

end TransparentCrypto

/-- Digests that are the digested bytes, and ciphertexts that are legible: the
laws hold, and nothing else is hidden. -/
def transparentCrypto : TokenCrypto where
  hyphenated := StandardCodec.hyphenated
  parseStr := StandardCodec.parseStr
  sha256Hex bytes := bytes.map fun b ↦ Char.ofNat b.toNat
  sealSecret := TransparentCrypto.sealSecret
  openSecret := TransparentCrypto.openSecret

theorem transparentCrypto_lawful : transparentCrypto.Lawful where
  hyphenated id := by
    have hnumeral : ∀ w n, ':' ∉ hexadecimal.numeral w n := by
      intro w n hmem
      obtain ⟨d, hd, hchar⟩ := List.mem_map.mp hmem
      have hall : ∀ d < 16, hexadecimal.toChar d ≠ ':' := by decide
      exact hall d (lt_of_mem_digits (by decide) hd) hchar
    simp [transparentCrypto, StandardCodec.hyphenated, hnumeral]
  parseStr := standardCodec_lawful.parseStr
  sha256Hex := by
    refine List.map_injective_iff.mpr fun x y hxy ↦ ?_
    have hnat : ∀ b : UInt8, (Char.ofNat b.toNat).toNat = b.toNat := by
      intro b
      have hlt := b.toNat_lt
      rw [Char.toNat_ofNat, if_pos (Or.inl (by omega))]
    have hvalue := congrArg Char.toNat hxy
    rw [hnat, hnat] at hvalue
    exact UInt8.toNat_inj.mp hvalue
  openSecret nonce value key purpose key' purpose' := by
    simp [transparentCrypto, TransparentCrypto.sealSecret, TransparentCrypto.openSecret,
      TransparentCrypto.decodeText_encodeText]

end Histae.Identity
