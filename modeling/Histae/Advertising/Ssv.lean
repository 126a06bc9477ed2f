import Histae.Advertising.Rewards
import Histae.Text.Split

/-!
# Callbacks of the ad network

The parser of `src/advertising/ssv.rs`. A query ends with a signature and the
id of its key, and the signature covers the bytes before them. The signed bytes
are read as form-encoded fields, each at most once, all from a fixed list. The
decoders of the crates are parameters, and so are the keys and the check of the
signature; an error carries the code that is logged.
-/

namespace Histae.Advertising

open Matches

def maxQueryBytes : ℕ := 4096

def urlValidationCustomData : List Char := "histae-ssv-validation".toList

inductive VerificationError
  | invalid (code : String)
  | unavailable
  deriving DecidableEq

inductive VerifiedCallback
  | reward (callback : Callback)
  | urlValidation
  deriving DecidableEq

structure SignedQuery where
  content : List Char
  signature : List UInt8
  keyId : ℕ
  callback : VerifiedCallback
  deriving DecidableEq

/-- The decoders of the crates `url`, `base64`, `openssl` and `uuid`. -/
structure SsvCodec where
  formUrlencoded : List Char → List (List Char × List Char)
  urlSafeNoPad : List Char → Option (List UInt8)
  urlSafe : List Char → Option (List UInt8)
  fromDer : List UInt8 → Bool
  parseStr : List Char → Option Uuid

def invalidCallback (code : String) : VerificationError := .invalid code

/-- `str::parse` to an unsigned integer. -/
def parseUnsigned (bits : ℕ) (text : List Char) : Option ℕ :=
  let digits :=
    match text with
    | '+' :: digits => digits
    | digits => digits
  if digits = [] then none else (Text.decimal.readNumeral digits).filter (· < 2 ^ bits)

/-- `str::parse` to a signed integer. -/
def parseSigned (bits : ℕ) (text : List Char) : Option ℤ :=
  match text with
  | '-' :: digits =>
      if digits = [] then none
      else ((Text.decimal.readNumeral digits).filter (· ≤ 2 ^ (bits - 1))).map fun n ↦ -(n : ℤ)
  | text => (parseUnsigned (bits - 1) text).map fun n ↦ (n : ℤ)

def isAsciiHexdigit (c : Char) : Bool := (Text.hexadecimal.ofChar c).isSome

def callbackFields : List (List Char) :=
  ["ad_network", "ad_unit", "custom_data", "reward_amount", "reward_item", "timestamp",
    "transaction_id", "user_id"].map String.toList

/-- The fields read so far, each under its name. -/
def collectFields (fields : List (List Char × List Char)) :
    List (List Char × List Char) → Except VerificationError (List (List Char × List Char))
  | [] => .ok fields
  | (key, value) :: rest =>
      if key ∉ callbackFields ∨ (fields.lookup key).isSome then
        .error (invalidCallback "admob_callback_fields_invalid")
      else collectFields ((key, value) :: fields) rest

def required (fields : List (List Char × List Char)) (name : String) :
    Except VerificationError (List Char) :=
  match (fields.lookup name.toList).filter fun value ↦ !value.isEmpty with
  | some value => .ok value
  | none => .error (invalidCallback "admob_required_field_missing")

def orInvalid {α : Type} (code : String) : Option α → Except VerificationError α
  | some value => .ok value
  | none => .error (invalidCallback code)

/-- The checks of the fields, in the order of the source. -/
def readFields (codec : SsvCodec) (fields : List (List Char × List Char)) :
    Except VerificationError VerifiedCallback := do
  let transactionId ← required fields "transaction_id"
  if byteLength transactionId > 128 ∨ !transactionId.all isAsciiHexdigit then
    throw (invalidCallback "admob_transaction_id_invalid")
  if (fields.lookup "user_id".toList).any fun value ↦ !value.isEmpty then
    throw (invalidCallback "admob_user_id_not_allowed")
  let network ← required fields "ad_network"
  let _ ← orInvalid "admob_ad_network_invalid" (parseUnsigned 64 network)
  let customData ← required fields "custom_data"
  let adUnit ← required fields "ad_unit"
  let timestamp ← required fields "timestamp"
  let timestampMs ← orInvalid "admob_timestamp_invalid" (parseSigned 64 timestamp)
  let amount ← required fields "reward_amount"
  let rewardAmount ← orInvalid "admob_reward_amount_invalid" (parseSigned 32 amount)
  let rewardItem ← required fields "reward_item"
  if customData = urlValidationCustomData then
    return .urlValidation
  else
    let intentId ← orInvalid "admob_custom_data_invalid" (codec.parseStr customData)
    return .reward {
      intentId
      adUnit := String.ofList adUnit
      transactionId := String.ofList transactionId
      timestampMs
      rewardAmount
      rewardItem := String.ofList rewardItem }

/-- The signed bytes, the encoded signature and the text of the key id. -/
def splitQuery (raw : List Char) :
    Except VerificationError (List Char × List Char × List Char) := do
  if byteLength raw > maxQueryBytes then
    throw (invalidCallback "admob_query_too_large")
  let (content, tail) ← orInvalid "admob_signature_missing"
    (Text.rsplitOnce "&signature=".toList raw)
  let (signature, keyId) ← orInvalid "admob_key_id_missing"
    (Text.splitOnce "&key_id=".toList tail)
  if '&' ∈ signature ∨ '&' ∈ keyId then
    throw (invalidCallback "admob_signature_parameter_order_invalid")
  return (content, signature, keyId)

def readSignature (codec : SsvCodec) (signature : List Char) :
    Except VerificationError (List UInt8) := do
  let pair ← orInvalid "admob_signature_encoding_invalid"
    (codec.formUrlencoded ("signature=".toList ++ signature)).head?
  let bytes ← orInvalid "admob_signature_encoding_invalid"
    ((codec.urlSafeNoPad pair.2).or (codec.urlSafe pair.2))
  if !(8 ≤ bytes.length ∧ bytes.length ≤ 72) ∨ !codec.fromDer bytes then
    throw (invalidCallback "admob_signature_der_invalid")
  return bytes

def parse (codec : SsvCodec) (raw : List Char) : Except VerificationError SignedQuery := do
  let (content, signature, keyId) ← splitQuery raw
  let signature ← readSignature codec signature
  let keyId ← orInvalid "admob_key_id_invalid" (parseUnsigned 64 keyId)
  let fields ← collectFields [] (codec.formUrlencoded content)
  let callback ← readFields codec fields
  return { content, signature, keyId, callback }

section Verifier

variable {Key : Type} (codec : SsvCodec) (key : ℕ → Except VerificationError Key)
  (authenticates : Key → List Char → List UInt8 → Bool)

def verify (publicKey : Key) (signed : SignedQuery) : Except VerificationError Unit :=
  if authenticates publicKey signed.content signed.signature then .ok ()
  else .error (invalidCallback "admob_signature_mismatch")

/-- The key comes from the cache or from a refresh, and `slot` tells whether a
verification slot is free. -/
def AdMobVerifier.verify (slot : Bool) (raw : List Char) :
    Except VerificationError VerifiedCallback := do
  let signed ← parse codec raw
  let publicKey ← key signed.keyId
  if !slot then
    throw .unavailable
  Advertising.verify authenticates publicKey signed
  return signed.callback

end Verifier

def completeVerifiedCallback (digest : String → String) (config : AdvertisingConfig)
    (db : RewardDb) (callback : VerifiedCallback) (now : ℤ) : Except RewardError RewardDb :=
  match callback with
  | .urlValidation => .ok db
  | .reward callback => complete digest config db callback now

section Accepted

variable {codec : SsvCodec} {raw content : List Char} {signed : SignedQuery}
  {fields pairs : List (List Char × List Char)} {callback : VerifiedCallback}

theorem bind_eq_ok {ε α β : Type} {x : Except ε α} {f : α → Except ε β} {b : β}
    (h : x >>= f = .ok b) : ∃ a, x = .ok a ∧ f a = .ok b := by
  cases x with
  | error error => cases h
  | ok a => exact ⟨a, rfl, h⟩

theorem orInvalid_eq_ok {α : Type} {code : String} {x : Option α} {a : α}
    (h : orInvalid code x = .ok a) : x = some a := by
  cases x with
  | none => cases h
  | some b =>
      cases h
      rfl

theorem required_eq_ok {name : String} {value : List Char}
    (h : required fields name = .ok value) : fields.lookup name.toList = some value := by
  unfold required at h
  split at h
  · rename_i found hfound
    cases h
    exact (Option.filter_eq_some_iff.mp hfound).1
  · cases h

theorem splitQuery_eq_ok {signature keyId : List Char}
    (h : splitQuery raw = .ok (content, signature, keyId)) :
    raw = content ++ "&signature=".toList ++ signature ++ "&key_id=".toList ++ keyId ∧
      '&' ∉ signature ∧ '&' ∉ keyId := by
  unfold splitQuery at h
  split at h
  · cases h
  obtain ⟨⟨before, tail⟩, hcontent, h⟩ := bind_eq_ok h
  obtain ⟨⟨middle, last⟩, htail, h⟩ := bind_eq_ok h
  simp only at h
  split at h
  · cases h
  · rename_i hfree
    obtain ⟨rfl, rfl, rfl⟩ := h
    rw [not_or] at hfree
    refine ⟨?_, hfree⟩
    rw [Text.rsplitOnce_eq (orInvalid_eq_ok hcontent),
      Text.splitOnce_eq (orInvalid_eq_ok htail)]
    simp

/-- The fields are the decoded pairs, last first, and no name comes twice. -/
theorem collectFields_eq_ok {acc : List (List Char × List Char)}
    (hacc : (acc.map Prod.fst).Nodup) (h : collectFields acc pairs = .ok fields) :
    fields = pairs.reverse ++ acc ∧ (fields.map Prod.fst).Nodup ∧
      ∀ pair ∈ pairs, pair.1 ∈ callbackFields := by
  induction pairs generalizing acc with
  | nil =>
      cases h
      exact ⟨rfl, hacc, fun pair hpair ↦ absurd hpair List.not_mem_nil⟩
  | cons pair rest ih =>
      obtain ⟨key, value⟩ := pair
      unfold collectFields at h
      split at h
      · cases h
      · rename_i hfresh
        rw [not_or, not_not] at hfresh
        obtain ⟨hknown, hfresh⟩ := hfresh
        have hnew : key ∉ acc.map Prod.fst := by
          intro hmem
          obtain ⟨⟨name, old⟩, hold, rfl⟩ := List.mem_map.mp hmem
          exact hfresh (List.lookup_isSome_iff.mpr ⟨_, hold, beq_self_eq_true name⟩)
        have hnext : (((key, value) :: acc).map Prod.fst).Nodup := by
          rw [List.map_cons, List.nodup_cons]
          exact ⟨hnew, hacc⟩
        obtain ⟨hfields, hnodup, hrest⟩ := ih hnext h
        refine ⟨?_, hnodup, ?_⟩
        · rw [hfields, List.reverse_cons, List.append_assoc]
          rfl
        · intro pair hpair
          rcases List.mem_cons.mp hpair with rfl | hpair
          · exact hknown
          · exact hrest pair hpair

theorem readFields_eq_ok (h : readFields codec fields = .ok callback) :
    callback = .urlValidation ↔
      fields.lookup "custom_data".toList = some urlValidationCustomData := by
  unfold readFields at h
  obtain ⟨transactionId, -, h⟩ := bind_eq_ok h
  simp only at h
  split at h
  · cases h
  split at h
  · cases h
  obtain ⟨network, -, h⟩ := bind_eq_ok h
  obtain ⟨_, -, h⟩ := bind_eq_ok h
  obtain ⟨customData, hcustom, h⟩ := bind_eq_ok h
  obtain ⟨adUnit, -, h⟩ := bind_eq_ok h
  obtain ⟨timestamp, -, h⟩ := bind_eq_ok h
  obtain ⟨timestampMs, -, h⟩ := bind_eq_ok h
  obtain ⟨amount, -, h⟩ := bind_eq_ok h
  obtain ⟨rewardAmount, -, h⟩ := bind_eq_ok h
  obtain ⟨rewardItem, -, h⟩ := bind_eq_ok h
  rw [required_eq_ok hcustom, Option.some_inj]
  split at h
  · rename_i hmarker
    cases h
    exact ⟨fun _ ↦ hmarker, fun _ ↦ rfl⟩
  · rename_i hmarker
    obtain ⟨intentId, -, h⟩ := bind_eq_ok h
    cases h
    exact ⟨(nomatch ·), fun hcustom ↦ absurd hcustom hmarker⟩

theorem lookup_eq_some_iff_mem {k v : List Char} (hnodup : (fields.map Prod.fst).Nodup) :
    fields.lookup k = some v ↔ (k, v) ∈ fields := by
  induction fields with
  | nil => simp
  | cons pair rest ih =>
      obtain ⟨name, value⟩ := pair
      rw [List.map_cons, List.nodup_cons] at hnodup
      rw [List.lookup_cons, List.mem_cons]
      by_cases hk : k = name
      · subst hk
        have habsent : (k, v) ∉ rest := fun hmem ↦
          hnodup.1 (List.mem_map.mpr ⟨(k, v), hmem, rfl⟩)
        simp [habsent, eq_comm]
      · have hbeq : (k == name) = false := beq_false_of_ne hk
        simp only [hbeq, ih hnodup.2, Prod.mk.injEq, hk, false_and, false_or]

/-- What an accepted query went through. -/
theorem parse_eq_ok (h : parse codec raw = .ok signed) :
    ∃ signature keyId fields, splitQuery raw = .ok (signed.content, signature, keyId) ∧
      collectFields [] (codec.formUrlencoded signed.content) = .ok fields ∧
      readFields codec fields = .ok signed.callback := by
  unfold parse at h
  obtain ⟨⟨content, signature, keyId⟩, hsplit, h⟩ := bind_eq_ok h
  obtain ⟨bytes, -, h⟩ := bind_eq_ok h
  obtain ⟨number, -, h⟩ := bind_eq_ok h
  obtain ⟨fields, hfields, h⟩ := bind_eq_ok h
  obtain ⟨callback, hcallback, h⟩ := bind_eq_ok h
  cases h
  exact ⟨signature, keyId, fields, hsplit, hfields, hcallback⟩

/-- A signature and a key id without separators leave one way to read the
signed bytes. -/
theorem content_eq {content' s k s' k' : List Char}
    (h : content ++ "&signature=".toList ++ s ++ "&key_id=".toList ++ k =
      content' ++ "&signature=".toList ++ s' ++ "&key_id=".toList ++ k')
    (hs : '&' ∉ s) (hk : '&' ∉ k) (hs' : '&' ∉ s') (hk' : '&' ∉ k') : content = content' := by
  have hpattern : "&signature=".toList = '&' :: "signature=".toList := by decide
  simp only [hpattern, List.append_assoc, List.cons_append] at h
  refine Text.append_inj_of_count h ?_
  simp only [List.count_append, List.count_eq_zero_of_not_mem hs, List.count_eq_zero_of_not_mem hk,
    List.count_eq_zero_of_not_mem hs', List.count_eq_zero_of_not_mem hk']

theorem verify_eq_ok {Key : Type} {key : ℕ → Except VerificationError Key}
    {authenticates : Key → List Char → List UInt8 → Bool} {slot : Bool}
    (hparse : parse codec raw = .ok signed)
    (h : AdMobVerifier.verify codec key authenticates slot raw = .ok callback) :
    callback = signed.callback ∧ ∃ publicKey, key signed.keyId = .ok publicKey ∧
      authenticates publicKey signed.content signed.signature = true := by
  unfold AdMobVerifier.verify at h
  obtain ⟨other, hother, h⟩ := bind_eq_ok h
  obtain rfl := Except.ok.inj (hparse.symm.trans hother)
  obtain ⟨publicKey, hkey, h⟩ := bind_eq_ok h
  split at h
  · cases h
  obtain ⟨_, hverify, h⟩ := bind_eq_ok h
  cases h
  refine ⟨rfl, publicKey, hkey, ?_⟩
  unfold verify at hverify
  split at hverify
  · assumption
  · cases hverify

/-- The signed bytes of an accepted query determine the callback, and are the
bytes whose signature is checked. -/
theorem signature_covers_callback (codec : SsvCodec) (raw : List Char) (signed : SignedQuery)
    (h : parse codec raw = .ok signed) :
    (∃ s k, raw = signed.content ++ "&signature=".toList ++ s ++ "&key_id=".toList ++ k ∧
      '&' ∉ s ∧ '&' ∉ k) ∧
    (∀ content s k, raw = content ++ "&signature=".toList ++ s ++ "&key_id=".toList ++ k →
      '&' ∉ s → '&' ∉ k → content = signed.content) ∧
    ((codec.formUrlencoded signed.content).map Prod.fst).Nodup ∧
    (∀ pair ∈ codec.formUrlencoded signed.content, pair.1 ∈ callbackFields) ∧
    (∀ raw' signed', parse codec raw' = .ok signed' → signed'.content = signed.content →
      signed'.callback = signed.callback) ∧
    (∀ (Key : Type) (key : ℕ → Except VerificationError Key)
      (authenticates : Key → List Char → List UInt8 → Bool) slot callback,
      AdMobVerifier.verify codec key authenticates slot raw = .ok callback →
      callback = signed.callback ∧ ∃ publicKey, key signed.keyId = .ok publicKey ∧
        authenticates publicKey signed.content signed.signature = true) ∧
    (signed.callback = .urlValidation ↔ ("custom_data".toList, urlValidationCustomData) ∈
      codec.formUrlencoded signed.content) ∧
    (signed.callback = .urlValidation → ∀ digest config db now,
      completeVerifiedCallback digest config db signed.callback now = .ok db) := by
  obtain ⟨signature, keyId, fields, hsplit, hfields, hcallback⟩ := parse_eq_ok h
  obtain ⟨hraw, hsignature, hkeyId⟩ := splitQuery_eq_ok hsplit
  obtain ⟨hpairs, hnodup, hknown⟩ := collectFields_eq_ok (by simp) hfields
  rw [List.append_nil] at hpairs
  refine ⟨⟨signature, keyId, hraw, hsignature, hkeyId⟩, ?_, ?_, hknown, ?_, ?_, ?_, ?_⟩
  · intro content s k hother hs hk
    exact content_eq (hother.symm.trans hraw) hs hk hsignature hkeyId
  · rw [hpairs, List.map_reverse, List.nodup_reverse] at hnodup
    exact hnodup
  · intro raw' signed' hparse' hcontent
    obtain ⟨-, -, fields', -, hfields', hcallback'⟩ := parse_eq_ok hparse'
    rw [hcontent, hfields] at hfields'
    obtain rfl := Except.ok.inj hfields'
    exact Except.ok.inj (hcallback'.symm.trans hcallback)
  · intro Key key authenticates slot callback hverify
    exact verify_eq_ok h hverify
  · rw [readFields_eq_ok hcallback, lookup_eq_some_iff_mem hnodup, hpairs, List.mem_reverse]
  · intro hvalidation digest config db now
    rw [hvalidation]
    rfl

end Accepted

namespace StandardSsv

def splitPair (text : List Char) : List Char × List Char :=
  (Text.splitOnce ['='] text).getD (text, [])

/-- Percent escapes of ASCII characters. -/
def percentDecode : List Char → List Char
  | '%' :: a :: b :: rest =>
      match Text.hexadecimal.readNumeral [a, b] with
      | some n => Char.ofNat n :: percentDecode rest
      | none => '%' :: percentDecode (a :: b :: rest)
  | c :: rest => c :: percentDecode rest
  | [] => []

def decodeForm (text : List Char) : List Char :=
  percentDecode (text.map fun c ↦ if c = '+' then ' ' else c)

def formUrlencoded (text : List Char) : List (List Char × List Char) :=
  ((text.splitOn '&').filter (· ≠ [])).map fun sequence ↦
    ((splitPair sequence).map decodeForm decodeForm)

/-- The text without its padding of at most two characters. -/
def dropPadding (text : List Char) : List Char :=
  text.take (text.length - 2) ++
    ((text.drop (text.length - 2)).reverse.dropWhile (· = '=')).reverse

def urlSafe (text : List Char) : Option (List UInt8) :=
  if text.length % 4 = 0 then Text.Base64.decode (dropPadding text) else none

def derInteger : List UInt8 → Option (List UInt8)
  | 2 :: length :: rest =>
      if 0 < length ∧ length.toNat ≤ rest.length then some (rest.drop length.toNat) else none
  | _ => none

/-- A sequence of two integers. -/
def fromDer : List UInt8 → Bool
  | 48 :: length :: rest =>
      length.toNat = rest.length && ((derInteger rest).bind derInteger) = some []
  | _ => false

end StandardSsv

/-- The decoders on ASCII texts. -/
def standardSsv : SsvCodec where
  formUrlencoded := StandardSsv.formUrlencoded
  urlSafeNoPad := Text.Base64.decode
  urlSafe := StandardSsv.urlSafe
  fromDer := StandardSsv.fromDer
  parseStr := StandardCodec.parseStr

def sampleContent : List Char :=
  ("ad_network=5450213213286189855&ad_unit=123" ++
    "&custom%5Fdata=00000000-0000-0000-0000-000000000001&reward_amount=1" ++
    "&reward_item=continuation_credit&timestamp=1791907200000&transaction_id=abcdef").toList

def sampleQuery : List Char :=
  sampleContent ++ "&signature=%4DAYCAQECAQE&key_id=42".toList

def sampleSigned : SignedQuery where
  content := sampleContent
  signature := [48, 6, 2, 1, 1, 2, 1, 1]
  keyId := 42
  callback := .reward ⟨1, "123", "abcdef", 1791907200000, 1, "continuation_credit"⟩

theorem signature_covers_callback_sample :
    parse standardSsv sampleQuery = .ok sampleSigned ∧
      ∀ raw' signed', parse standardSsv raw' = .ok signed' → signed'.content = sampleSigned.content →
        signed'.callback = sampleSigned.callback := by
  have hparse : parse standardSsv sampleQuery = .ok sampleSigned := by decide +kernel
  obtain ⟨-, -, -, -, hsame, -⟩ :=
    signature_covers_callback standardSsv sampleQuery sampleSigned hparse
  exact ⟨hparse, hsame⟩

end Histae.Advertising
