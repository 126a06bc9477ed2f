import Mathlib

/-!
# Textual IP addresses

The readers of `IpAddr::from_str`. A reader takes characters off the front of
a text or leaves it as it is; an address is accepted when nothing is left. The
readers take hexadecimal digits, points and colons only.
-/

namespace Histae.Text

inductive IpAddr
  | v4 (address : BitVec 32)
  | v6 (address : BitVec 128)
  deriving DecidableEq

abbrev Reader (α : Type) := List Char → Option (α × List Char)

section Readers

/-- `char::to_digit`. -/
def toDigit (radix : ℕ) (c : Char) : Option ℕ :=
  let n :=
    if '0' ≤ c ∧ c ≤ '9' then c.toNat - '0'.toNat
    else if 'a' ≤ c ∧ c ≤ 'z' then c.toNat - 'a'.toNat + 10
    else if 'A' ≤ c ∧ c ≤ 'Z' then c.toNat - 'A'.toNat + 10
    else radix
  if n < radix then some n else none

def readGivenChar (given : Char) : Reader Unit
  | [] => none
  | c :: rest => if c = given then some ((), rest) else none

/-- A number below `bound`, of at most `maxDigits` digits. -/
def readNumber (radix maxDigits bound : ℕ) (allowZeroPrefix : Bool) : Reader ℕ := fun text ↦
  let digits := text.takeWhile fun c ↦ (toDigit radix c).isSome
  let n := (digits.filterMap (toDigit radix)).foldl (fun n d ↦ n * radix + d) 0
  if digits = [] ∨ maxDigits < digits.length ∨ bound ≤ n ∨
      (allowZeroPrefix = false ∧ digits.head? = some '0' ∧ 1 < digits.length) then none
  else some (n, text.dropWhile fun c ↦ (toDigit radix c).isSome)

/-- The separator stands before every item but the first. -/
def readSeparator {α : Type} (sep : Char) (first : Bool) (inner : Reader α) : Reader α :=
  if first then inner else fun text ↦ (readGivenChar sep text).bind fun r ↦ inner r.2

def readOctet (first : Bool) : Reader ℕ := readSeparator '.' first (readNumber 10 3 256 false)

def readIpv4Addr : Reader (List ℕ) := fun text ↦ do
  let (a, text) ← readOctet true text
  let (b, text) ← readOctet false text
  let (c, text) ← readOctet false text
  let (d, text) ← readOctet false text
  return ([a, b, c, d], text)

/-- Up to `limit` groups, and whether they end in an embedded IPv4 address. -/
def readGroups : ℕ → Bool → List Char → List ℕ × Bool × List Char
  | 0, _, text => ([], false, text)
  | limit + 1, first, text =>
      match if 0 < limit then readSeparator ':' first readIpv4Addr text else none with
      | some ([a, b, c, d], rest) => ([a * 256 + b, c * 256 + d], true, rest)
      | _ =>
          match readSeparator ':' first (readNumber 16 4 65536 true) text with
          | none => ([], false, text)
          | some (group, rest) =>
              let (groups, embedded, rest) := readGroups limit false rest
              (group :: groups, embedded, rest)

def readIpv6Addr : Reader (List ℕ) := fun text ↦
  let (head, embedded, rest) := readGroups 8 true text
  if head.length = 8 then some (head, rest)
  else if embedded then none
  else do
    let (_, rest) ← readGivenChar ':' rest
    let (_, rest) ← readGivenChar ':' rest
    let (tail, _, rest) := readGroups (7 - head.length) true rest
    return (head ++ List.replicate (8 - head.length - tail.length) 0 ++ tail, rest)

def joined (base : ℕ) (parts : List ℕ) : ℕ := parts.foldl (fun n part ↦ n * base + part) 0

def parseIpAddr (text : List Char) : Option IpAddr :=
  match readIpv4Addr text with
  | some (octets, rest) => if rest = [] then some (.v4 (BitVec.ofNat 32 (joined 256 octets))) else none
  | none =>
      match readIpv6Addr text with
      | some (groups, rest) =>
          if rest = [] then some (.v6 (BitVec.ofNat 128 (joined 65536 groups))) else none
      | none => none

example : parseIpAddr "203.0.113.4".toList = some (.v4 0xCB007104) := by decide +kernel

example : parseIpAddr "2001:db8::1.2.3.4".toList =
    some (.v6 0x20010DB8000000000000000001020304) := by decide +kernel

example : parseIpAddr "203.0.113.04".toList = none := by decide +kernel

end Readers

section Characters

variable {α : Type} {text rest : List Char}

def isAddressChar (c : Char) : Bool := (toDigit 16 c).isSome || c = '.' || c = ':'

/-- What a reader leaves is the end of the text, after address characters. -/
def Leaves (text rest : List Char) : Prop :=
  ∃ taken, text = taken ++ rest ∧ ∀ c ∈ taken, isAddressChar c = true

theorem Leaves.refl (text : List Char) : Leaves text text :=
  ⟨[], rfl, fun _ hc ↦ absurd hc List.not_mem_nil⟩

theorem Leaves.trans {last : List Char} (h : Leaves text rest) (h' : Leaves rest last) :
    Leaves text last := by
  obtain ⟨taken, rfl, htaken⟩ := h
  obtain ⟨taken', rfl, htaken'⟩ := h'
  refine ⟨taken ++ taken', by rw [List.append_assoc], fun c hc ↦ ?_⟩
  rcases List.mem_append.mp hc with hc | hc
  · exact htaken c hc
  · exact htaken' c hc

theorem leaves_readGivenChar {given : Char} {u : Unit} (hgiven : isAddressChar given = true)
    (h : readGivenChar given text = some (u, rest)) : Leaves text rest := by
  cases text with
  | nil => cases h
  | cons c text =>
      change (if c = given then some ((), text) else none) = some (u, rest) at h
      split at h
      · rename_i heq
        obtain ⟨_, rfl⟩ := Prod.mk.inj (Option.some.inj h)
        exact ⟨[c], rfl, fun d hd ↦ by rw [List.mem_singleton.mp hd, heq, hgiven]⟩
      · cases h

theorem isSome_toDigit_hex {radix : ℕ} {c : Char} (hradix : radix ≤ 16)
    (h : (toDigit radix c).isSome = true) : (toDigit 16 c).isSome = true := by
  unfold toDigit at h ⊢
  dsimp only at h ⊢
  split_ifs at h ⊢ <;> first | rfl | omega

theorem toNat_lt_of_toDigit {radix : ℕ} {c : Char} (h : (toDigit radix c).isSome = true) :
    c.toNat < 128 := by
  by_contra hbig
  have hlt {d : Char} (hd : d.toNat < 128) : ¬ c ≤ d := by
    intro hle
    have hle' : c.toNat ≤ d.toNat := hle
    omega
  have hdigit : ¬('0' ≤ c ∧ c ≤ '9') := fun hrange ↦ hlt (by decide) hrange.2
  have hlower : ¬('a' ≤ c ∧ c ≤ 'z') := fun hrange ↦ hlt (by decide) hrange.2
  have hupper : ¬('A' ≤ c ∧ c ≤ 'Z') := fun hrange ↦ hlt (by decide) hrange.2
  unfold toDigit at h
  dsimp only at h
  rw [if_neg hdigit, if_neg hlower, if_neg hupper, if_neg (lt_irrefl radix)] at h
  cases h

theorem leaves_readNumber {radix maxDigits bound n : ℕ} {allowZeroPrefix : Bool}
    (hradix : radix ≤ 16) (h : readNumber radix maxDigits bound allowZeroPrefix text = some (n, rest)) :
    Leaves text rest := by
  unfold readNumber at h
  dsimp only at h
  split at h
  · cases h
  · obtain ⟨_, rfl⟩ := Prod.mk.inj (Option.some.inj h)
    refine ⟨_, (List.takeWhile_append_dropWhile ..).symm, fun c hc ↦ ?_⟩
    have htaken : (toDigit radix c).isSome = true :=
      List.mem_takeWhile_imp (p := fun c ↦ (toDigit radix c).isSome) hc
    have hdigit := isSome_toDigit_hex hradix htaken
    unfold isAddressChar
    rw [hdigit]
    rfl

theorem leaves_readSeparator {sep : Char} {first : Bool} {inner : Reader α} {a : α}
    (hsep : isAddressChar sep = true)
    (hinner : ∀ text a rest, inner text = some (a, rest) → Leaves text rest)
    (h : readSeparator sep first inner text = some (a, rest)) : Leaves text rest := by
  unfold readSeparator at h
  split at h
  · exact hinner text a rest h
  · obtain ⟨r, hsep', hrest⟩ := Option.bind_eq_some_iff.mp h
    exact (leaves_readGivenChar hsep hsep').trans (hinner r.2 a rest hrest)

theorem leaves_readOctet {first : Bool} {n : ℕ} (h : readOctet first text = some (n, rest)) :
    Leaves text rest :=
  leaves_readSeparator (by decide) (fun _ _ _ ↦ leaves_readNumber (by decide)) h

theorem leaves_readIpv4Addr {octets : List ℕ} (h : readIpv4Addr text = some (octets, rest)) :
    Leaves text rest := by
  obtain ⟨a, ha, h⟩ := Option.bind_eq_some_iff.mp h
  obtain ⟨b, hb, h⟩ := Option.bind_eq_some_iff.mp h
  obtain ⟨c, hc, h⟩ := Option.bind_eq_some_iff.mp h
  obtain ⟨d, hd, h⟩ := Option.bind_eq_some_iff.mp h
  obtain ⟨_, rfl⟩ := Prod.mk.inj (Option.some.inj h)
  exact (leaves_readOctet ha).trans <| (leaves_readOctet hb).trans <|
    (leaves_readOctet hc).trans (leaves_readOctet hd)

theorem leaves_readGroups (limit : ℕ) (first : Bool) (text : List Char) :
    Leaves text (readGroups limit first text).2.2 := by
  induction limit generalizing first text with
  | zero => exact .refl text
  | succ limit ih =>
      unfold readGroups
      split
      · rename_i a b c d rest heq
        split at heq
        · exact leaves_readSeparator (by decide) (fun _ _ _ ↦ leaves_readIpv4Addr) heq
        · cases heq
      · split
        · exact .refl text
        · rename_i group rest heq
          have hgroup := leaves_readSeparator (by decide)
            (fun _ _ _ ↦ leaves_readNumber (by decide)) heq
          exact hgroup.trans (ih false rest)

theorem leaves_readIpv6Addr {groups : List ℕ} (h : readIpv6Addr text = some (groups, rest)) :
    Leaves text rest := by
  have hhead := leaves_readGroups 8 true text
  unfold readIpv6Addr at h
  generalize readGroups 8 true text = front at h hhead
  obtain ⟨head, embedded, middle⟩ := front
  dsimp only at h hhead
  split at h
  · obtain ⟨_, rfl⟩ := Prod.mk.inj (Option.some.inj h)
    exact hhead
  · split at h
    · cases h
    · obtain ⟨first, hfirst, h⟩ := Option.bind_eq_some_iff.mp h
      obtain ⟨second, hsecond, h⟩ := Option.bind_eq_some_iff.mp h
      obtain ⟨_, rfl⟩ := Prod.mk.inj (Option.some.inj h)
      exact hhead.trans <| (leaves_readGivenChar (by decide) hfirst).trans <|
        (leaves_readGivenChar (by decide) hsecond).trans (leaves_readGroups ..)

theorem isAddressChar_of_parse {a : IpAddr} (h : parseIpAddr text = some a) :
    ∀ c ∈ text, isAddressChar c = true := by
  have hall (hleaves : Leaves text []) : ∀ c ∈ text, isAddressChar c = true := by
    obtain ⟨taken, rfl, htaken⟩ := hleaves
    simpa using htaken
  unfold parseIpAddr at h
  split at h
  · rename_i octets rest heq
    split at h
    · rename_i hnil
      rw [hnil] at heq
      exact hall (leaves_readIpv4Addr heq)
    · cases h
  · split at h
    · rename_i groups rest heq
      split at h
      · rename_i hnil
        rw [hnil] at heq
        exact hall (leaves_readIpv6Addr heq)
      · cases h
    · cases h

end Characters

end Histae.Text
