import Histae.Text.Numeral

/-!
# Base64 without padding

Three bytes are one number below `2 ^ 24` and four digits in base 64. A last
group of one or two bytes is shifted to a whole number of digits, whose unused
bits have to be zero.
-/

namespace Histae.Text

def base64UrlChars : List Char :=
  "ABCDEFGHIJKLMNOPQRSTUVWXYZabcdefghijklmnopqrstuvwxyz0123456789-_".toList

def base64Url : Alphabet 64 where
  toChar d := base64UrlChars[d]?.getD 'A'
  ofChar := base64UrlChars.idxOf?
  ofChar_toChar := by decide

namespace Base64

def bytesValue (bytes : List UInt8) : ℕ := value 256 (bytes.map UInt8.toNat)

def bytesOf (w n : ℕ) : List UInt8 := (digits 256 w n).map UInt8.ofNat

theorem bytesValue_lt (bytes : List UInt8) : bytesValue bytes < 256 ^ bytes.length := by
  have hlt : ∀ d ∈ bytes.map UInt8.toNat, d < 256 := by
    intro d hd
    obtain ⟨byte, _, rfl⟩ := List.mem_map.mp hd
    exact byte.toNat_lt
  simpa [bytesValue] using value_lt hlt

theorem bytesOf_bytesValue (bytes : List UInt8) : bytesOf bytes.length (bytesValue bytes) = bytes := by
  have hlt : ∀ d ∈ bytes.map UInt8.toNat, d < 256 := by
    intro d hd
    obtain ⟨byte, _, rfl⟩ := List.mem_map.mp hd
    exact byte.toNat_lt
  have hdigits := digits_value hlt
  rw [List.length_map] at hdigits
  rw [bytesOf, bytesValue, hdigits, List.map_map]
  exact List.map_id'' (fun byte ↦ UInt8.ofNat_toNat) bytes

theorem bytesValue_bytesOf {w n : ℕ} (h : n < 256 ^ w) : bytesValue (bytesOf w n) = n := by
  have hdigits : (digits 256 w n).map (UInt8.toNat ∘ UInt8.ofNat) = digits 256 w n := by
    conv_rhs => rw [← List.map_id (digits 256 w n)]
    refine List.map_congr_left fun d hd ↦ ?_
    have hlt := lt_of_mem_digits (by decide) hd
    simp [UInt8.toNat_ofNat', Nat.mod_eq_of_lt hlt]
  rw [bytesValue, bytesOf, List.map_map, hdigits, value_digits h]

def encodeSextets : List UInt8 → List ℕ
  | a :: b :: c :: rest => digits 64 4 (bytesValue [a, b, c]) ++ encodeSextets rest
  | [a, b] => digits 64 3 (bytesValue [a, b] * 4)
  | [a] => digits 64 2 (bytesValue [a] * 16)
  | [] => []

def decodeSextets : List ℕ → Option (List UInt8)
  | s₀ :: s₁ :: s₂ :: s₃ :: rest =>
      (decodeSextets rest).map (bytesOf 3 (value 64 [s₀, s₁, s₂, s₃]) ++ ·)
  | [s₀, s₁, s₂] =>
      if value 64 [s₀, s₁, s₂] % 4 = 0 then some (bytesOf 2 (value 64 [s₀, s₁, s₂] / 4)) else none
  | [s₀, s₁] =>
      if value 64 [s₀, s₁] % 16 = 0 then some (bytesOf 1 (value 64 [s₀, s₁] / 16)) else none
  | [_] => none
  | [] => some []

theorem decodeSextets_group {group rest : List ℕ} (h : group.length = 4) :
    decodeSextets (group ++ rest) =
      (decodeSextets rest).map (bytesOf 3 (value 64 group) ++ ·) := by
  match group, h with
  | [s₀, s₁, s₂, s₃], _ => rfl

theorem decodeSextets_three {group : List ℕ} (h : group.length = 3) :
    decodeSextets group =
      if value 64 group % 4 = 0 then some (bytesOf 2 (value 64 group / 4)) else none := by
  match group, h with
  | [s₀, s₁, s₂], _ => rfl

theorem decodeSextets_two {group : List ℕ} (h : group.length = 2) :
    decodeSextets group =
      if value 64 group % 16 = 0 then some (bytesOf 1 (value 64 group / 16)) else none := by
  match group, h with
  | [s₀, s₁], _ => rfl

theorem decodeSextets_encodeSextets (bytes : List UInt8) :
    decodeSextets (encodeSextets bytes) = some bytes := by
  induction bytes using encodeSextets.induct with
  | case1 a b c rest ih =>
      have hlt : bytesValue [a, b, c] < 64 ^ 4 :=
        (bytesValue_lt [a, b, c]).trans_eq (by norm_num)
      rw [encodeSextets, decodeSextets_group (length_digits ..), value_digits hlt, ih,
        show (3 : ℕ) = [a, b, c].length from rfl, bytesOf_bytesValue]
      rfl
  | case2 a b =>
      have hlt : bytesValue [a, b] < 65536 := (bytesValue_lt [a, b]).trans_eq (by norm_num)
      have hwidth : bytesValue [a, b] * 4 < 64 ^ 3 := by
        norm_num
        omega
      rw [encodeSextets, decodeSextets_three (length_digits ..), value_digits hwidth,
        if_pos (Nat.mul_mod_left _ _), Nat.mul_div_cancel _ (by decide),
        show (2 : ℕ) = [a, b].length from rfl, bytesOf_bytesValue]
  | case3 a =>
      have hlt : bytesValue [a] < 256 := (bytesValue_lt [a]).trans_eq (by norm_num)
      have hwidth : bytesValue [a] * 16 < 64 ^ 2 := by
        norm_num
        omega
      rw [encodeSextets, decodeSextets_two (length_digits ..), value_digits hwidth,
        if_pos (Nat.mul_mod_left _ _), Nat.mul_div_cancel _ (by decide),
        show (1 : ℕ) = [a].length from rfl, bytesOf_bytesValue]
  | case4 => rfl

theorem length_encodeSextets (bytes : List UInt8) :
    (encodeSextets bytes).length = (4 * bytes.length + 2) / 3 := by
  induction bytes using encodeSextets.induct with
  | case1 a b c rest ih =>
      rw [encodeSextets, List.length_append, length_digits, ih]
      simp only [List.length_cons]
      omega
  | case2 a b => simp [encodeSextets]
  | case3 a => simp [encodeSextets]
  | case4 => rfl

theorem lt_of_mem_encodeSextets {bytes : List UInt8} {s : ℕ} (h : s ∈ encodeSextets bytes) :
    s < 64 := by
  induction bytes using encodeSextets.induct with
  | case1 a b c rest ih =>
      rw [encodeSextets, List.mem_append] at h
      rcases h with h | h
      · exact lt_of_mem_digits (by decide) h
      · exact ih h
  | case2 a b => exact lt_of_mem_digits (by decide) h
  | case3 a => exact lt_of_mem_digits (by decide) h
  | case4 => cases h

def encode (bytes : List UInt8) : List Char := (encodeSextets bytes).map base64Url.toChar

def decode (text : List Char) : Option (List UInt8) := (base64Url.read text).bind decodeSextets

theorem decode_encode (bytes : List UInt8) : decode (encode bytes) = some bytes := by
  rw [decode, encode, base64Url.read_map fun s hs ↦ lt_of_mem_encodeSextets hs, Option.bind_some,
    decodeSextets_encodeSextets]

theorem length_encode (bytes : List UInt8) :
    (encode bytes).length = (4 * bytes.length + 2) / 3 := by
  rw [encode, List.length_map, length_encodeSextets]

example : encode [104, 105, 33, 255] = "aGkh_w".toList := by decide

end Base64

end Histae.Text
