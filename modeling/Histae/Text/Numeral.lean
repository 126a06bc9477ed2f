import Mathlib

/-!
# Numerals of fixed width

A numeral lists the digits of a number in some base, the most significant
first, with leading zeros up to a given width. An alphabet writes each digit
as a character.
-/

namespace Histae.Text

section Digits

variable {b w n : ℕ} {ds : List ℕ}

def digits (b : ℕ) : ℕ → ℕ → List ℕ
  | 0, _ => []
  | w + 1, n => digits b w (n / b) ++ [n % b]

def value (b : ℕ) (ds : List ℕ) : ℕ := ds.foldl (fun n d ↦ n * b + d) 0

@[simp] theorem value_nil : value b [] = 0 := rfl

theorem value_concat (ds : List ℕ) (d : ℕ) : value b (ds ++ [d]) = value b ds * b + d := by
  simp [value]

@[simp] theorem length_digits (b w n : ℕ) : (digits b w n).length = w := by
  induction w generalizing n with
  | zero => rfl
  | succ w ih => simp [digits, ih]

theorem lt_of_mem_digits (hb : 0 < b) {d : ℕ} (h : d ∈ digits b w n) : d < b := by
  induction w generalizing n with
  | zero => cases h
  | succ w ih =>
      rw [digits, List.mem_append, List.mem_singleton] at h
      rcases h with h | rfl
      · exact ih h
      · exact Nat.mod_lt n hb

theorem value_digits (h : n < b ^ w) : value b (digits b w n) = n := by
  induction w generalizing n with
  | zero =>
      rw [pow_zero] at h
      rw [digits, value_nil]
      omega
  | succ w ih =>
      have hdiv : n / b < b ^ w := Nat.div_lt_of_lt_mul (by rwa [pow_succ, mul_comm] at h)
      rw [digits, value_concat, ih hdiv]
      exact Nat.div_add_mod' n b

theorem value_lt (h : ∀ d ∈ ds, d < b) : value b ds < b ^ ds.length := by
  induction ds using List.reverseRecOn with
  | nil => simp
  | append_singleton ds d ih =>
      have hd : d < b := h d (by simp)
      have hds := ih fun x hx ↦ h x (by simp [hx])
      rw [value_concat, List.length_append, List.length_singleton, pow_succ]
      calc value b ds * b + d < value b ds * b + b := by omega
        _ = (value b ds + 1) * b := by ring
        _ ≤ b ^ ds.length * b := Nat.mul_le_mul_right b hds

theorem digits_value (h : ∀ d ∈ ds, d < b) : digits b ds.length (value b ds) = ds := by
  induction ds using List.reverseRecOn with
  | nil => rfl
  | append_singleton ds d ih =>
      have hd : d < b := h d (by simp)
      have hds := ih fun x hx ↦ h x (by simp [hx])
      have hpos : 0 < b := Nat.pos_of_ne_zero (by omega)
      rw [value_concat, List.length_append, List.length_singleton, digits]
      rw [Nat.mul_add_mod_of_lt hd, Nat.add_comm, Nat.add_mul_div_right _ _ hpos,
        Nat.div_eq_of_lt hd, Nat.zero_add, hds]

end Digits

/-- Characters for the digits of a base. -/
structure Alphabet (b : ℕ) where
  toChar : ℕ → Char
  ofChar : Char → Option ℕ
  ofChar_toChar : ∀ d < b, ofChar (toChar d) = some d

namespace Alphabet

variable {b : ℕ} (A : Alphabet b)

def read (cs : List Char) : Option (List ℕ) := cs.mapM A.ofChar

theorem read_map {ds : List ℕ} (h : ∀ d ∈ ds, d < b) : A.read (ds.map A.toChar) = some ds := by
  induction ds with
  | nil => rfl
  | cons d ds ih =>
      have hd := A.ofChar_toChar d (h d List.mem_cons_self)
      have hds : (ds.map A.toChar).mapM A.ofChar = some ds :=
        ih fun x hx ↦ h x (List.mem_cons_of_mem d hx)
      rw [read, List.map_cons, List.mapM_cons, hd, hds]
      rfl

def numeral (w n : ℕ) : List Char := (digits b w n).map A.toChar

def readNumeral (cs : List Char) : Option ℕ := (A.read cs).map (value b)

@[simp] theorem length_numeral (w n : ℕ) : (A.numeral w n).length = w := by simp [numeral]

theorem readNumeral_numeral {w n : ℕ} (hb : 0 < b) (h : n < b ^ w) :
    A.readNumeral (A.numeral w n) = some n := by
  rw [readNumeral, numeral, A.read_map fun d hd ↦ lt_of_mem_digits hb hd, Option.map_some,
    value_digits h]

end Alphabet

def decimal : Alphabet 10 where
  toChar := Nat.digitChar
  ofChar c := if '0' ≤ c ∧ c ≤ '9' then some (c.toNat - 48) else none
  ofChar_toChar := by decide

/-- Hexadecimal digits are written in lower case and read in either case. -/
def hexadecimal : Alphabet 16 where
  toChar := Nat.digitChar
  ofChar c :=
    if '0' ≤ c ∧ c ≤ '9' then some (c.toNat - 48)
    else if 'a' ≤ c ∧ c ≤ 'f' then some (c.toNat - 87)
    else if 'A' ≤ c ∧ c ≤ 'F' then some (c.toNat - 55)
    else none
  ofChar_toChar := by decide

end Histae.Text
