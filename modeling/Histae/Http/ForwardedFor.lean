import Histae.Text.Address
import Histae.Text.Trim

/-!
# The address a request is counted under

`client_ip` walks the addresses of `x-forwarded-for` from the socket towards
the client, as long as they belong to trusted networks. The header is read as a
whole before: one part that is no address makes the walk stop at the socket.
-/

namespace Histae.Http

open Text

def xForwardedFor : List Char := "x-forwarded-for".toList

def asciiBytes (text : List Char) : List UInt8 := text.map fun c ↦ UInt8.ofNat c.toNat

/-- What `client_ip` uses of the crates `http` and `ipnet`: the lookup of a
header, `HeaderValue::to_str` and `IpNet::contains`. -/
structure Crates (μ ν : Type) where
  get : μ → List Char → Option (List UInt8)
  toStr : List UInt8 → Option (List Char)
  contains : ν → IpAddr → Bool

/-- A value is read byte by byte, and visible ASCII is read as it is. -/
structure Crates.Lawful {μ ν : Type} (crates : Crates μ ν) : Prop where
  toStr_append : ∀ left right, crates.toStr (left ++ right) =
    (crates.toStr left).bind fun l ↦ (crates.toStr right).map fun r ↦ l ++ r
  toStr_visible : ∀ text : List Char, (∀ c ∈ text, ' ' ≤ c ∧ c ≤ '~') →
    crates.toStr (asciiBytes text) = some text

inductive TrustedProxies (ν : Type)
  | disabled
  | all
  | networks (values : List ν)

section Source

variable {μ ν : Type} (crates : Crates μ ν)

/-- The whitespace of `str::trim`. -/
def isWhitespace (c : Char) : Bool :=
  ('\x09' ≤ c && c ≤ '\x0D') || c = ' ' || c = '\u0085' || c = '\u00A0' || c = '\u1680' ||
    ('\u2000' ≤ c && c ≤ '\u200A') || c = '\u2028' || c = '\u2029' || c = '\u202F' ||
    c = '\u205F' || c = '\u3000'

def parsePart (part : List Char) : Option IpAddr := parseIpAddr (trimMatches isWhitespace part)

def forwardedAddresses (headers : μ) : Option (List IpAddr) := do
  let value ← crates.get headers xForwardedFor
  let text ← crates.toStr value
  (text.splitOn ',').mapM parsePart

namespace TrustedProxies

variable (p : TrustedProxies ν)

def contains (address : IpAddr) : Bool :=
  match p with
  | disabled => false
  | all => true
  | networks values => values.any fun network ↦ crates.contains network address

/-- The loop of `client_ip` over the addresses, the last one first. -/
def walk : IpAddr → List IpAddr → IpAddr
  | client, [] => client
  | client, address :: rest => if p.contains crates client then walk address rest else client

def clientIp (remote : IpAddr) (headers : μ) : IpAddr :=
  if !p.contains crates remote then remote
  else
    match forwardedAddresses crates headers with
    | none => remote
    | some forwarded =>
        match p with
        | disabled => remote
        | all => forwarded.head?.getD remote
        | networks _ => p.walk crates remote forwarded.reverse

end TrustedProxies

/-- The address that the middleware counts a request under; a request without
a peer counts as local. -/
def requestIp (p : TrustedProxies ν) (remote : Option IpAddr) (headers : μ) : IpAddr :=
  match remote with
  | none => .v4 0x7F000001
  | some remote => p.clientIp crates remote headers

end Source

section Headers

variable {μ ν : Type} {crates : Crates μ ν}

/-- The header when the proxies have appended their addresses to what the
client sent, if it sent the header at all. -/
def forwardedFor (client : Option (List UInt8)) (appended : List (List Char)) : List UInt8 :=
  let proxies := asciiBytes (", ".toList.intercalate appended)
  match client with
  | none => proxies
  | some sent => sent ++ asciiBytes ", ".toList ++ proxies

variable (crates) in
/-- Every part of the text is an address. -/
def Legible (sent : List UInt8) : Prop :=
  ∃ text, crates.toStr sent = some text ∧ ∀ part ∈ text.splitOn ',', (parsePart part).isSome = true

instance (sent : List UInt8) : Decidable (Legible crates sent) :=
  decidable_of_iff ((crates.toStr sent).any fun text ↦
    (text.splitOn ',').all fun part ↦ (parsePart part).isSome) <| by
    simp [Legible, Option.any_eq_true]

variable (crates) in
/-- The addresses that the client claimed, if its text is legible. -/
def claimedBy : Option (List UInt8) → Option (List IpAddr)
  | none => some []
  | some sent => (crates.toStr sent).bind fun text ↦ (text.splitOn ',').mapM parsePart

variable {text : List Char} {sent : List UInt8} {appended : List (List Char)}
  {addresses : List IpAddr}

/-- Address characters are visible, no blanks and no separators. -/
theorem plain_of_isAddressChar {c : Char} (h : isAddressChar c = true) :
    (' ' ≤ c ∧ c ≤ '~') ∧ isWhitespace c = false ∧ c ≠ ',' := by
  have hsmall : c.toNat < 128 := by
    simp only [isAddressChar, Bool.or_eq_true, decide_eq_true_eq] at h
    rcases h with (h | rfl) | rfl
    · exact toNat_lt_of_toDigit h
    · decide
    · decide
  have hall : ∀ n < 128, isAddressChar (Char.ofNat n) = true →
      (' ' ≤ Char.ofNat n ∧ Char.ofNat n ≤ '~') ∧
        isWhitespace (Char.ofNat n) = false ∧ Char.ofNat n ≠ ',' := by
    decide +kernel
  have hc := hall c.toNat hsmall
  rw [Char.ofNat_toNat] at hc
  exact hc h

theorem toStr_asciiBytes (hcrates : crates.Lawful)
    (h : ∀ c ∈ text, isAddressChar c = true ∨ c = ' ' ∨ c = ',') :
    crates.toStr (asciiBytes text) = some text := by
  refine hcrates.toStr_visible text fun c hc ↦ ?_
  rcases h c hc with haddress | rfl | rfl
  · exact (plain_of_isAddressChar haddress).1
  · decide
  · decide

theorem parsePart_of_parse {a : IpAddr} (h : parseIpAddr text = some a) :
    parsePart text = some a ∧ parsePart (' ' :: text) = some a := by
  have hblank : ∀ c ∈ text, isWhitespace c = false := fun c hc ↦
    (plain_of_isAddressChar (isAddressChar_of_parse h c hc)).2.1
  have htrim : trimMatches isWhitespace text = text :=
    trimMatches_eq_self (fun c hc ↦ hblank c (List.mem_of_mem_head? hc))
      fun c hc ↦ hblank c (List.mem_of_getLast? hc)
  have hblankSpace : isWhitespace ' ' = true := rfl
  have hspace : trimMatches isWhitespace ([' '] ++ text) = trimMatches isWhitespace text :=
    trimMatches_append_left fun c hc ↦ by rw [List.mem_singleton.mp hc, hblankSpace]
  rw [List.singleton_append] at hspace
  unfold parsePart
  rw [hspace, htrim]
  exact ⟨h, h⟩

theorem splitOn_intercalate (first : List Char) (appended : List (List Char))
    (happended : ∀ t ∈ first :: appended, ',' ∉ t) :
    (", ".toList.intercalate (first :: appended)).splitOn ',' =
      first :: appended.map (List.cons ' ') := by
  induction appended generalizing first with
  | nil => simpa using List.splitOn_eq_singleton (happended first (by simp))
  | cons second rest ih =>
      have hfirst : ',' ∉ first := happended first (by simp)
      have hrest := ih second fun t ht ↦ happended t (by simp [ht])
      have hjoin : ", ".toList.intercalate (first :: second :: rest) =
          first ++ ',' :: ([' '] ++ ", ".toList.intercalate (second :: rest)) := by
        simp [List.intercalate]
      have hblank : (' ' :: ", ".toList.intercalate (second :: rest)).splitOn ',' =
          (' ' :: second) :: rest.map (List.cons ' ') := by
        rw [List.splitOn_cons_eq_if_modifyHead, hrest]
        rfl
      rw [hjoin, List.splitOn_append_cons_self_of_not_mem hfirst]
      exact congrArg (List.cons first) hblank

end Headers

section Chains

variable {μ ν : Type} {crates : Crates μ ν} {remote first : IpAddr} {headers : μ}
  {client : Option (List UInt8)} {texts : List (List Char)} {rest : List IpAddr}

/-- The walk passes the proxies and stops at the first address outside. -/
theorem walk_append (p : TrustedProxies ν) (hremote : p.contains crates remote = true)
    (hrest : ∀ a ∈ rest, p.contains crates a = true) (hfirst : p.contains crates first = false)
    (claimed : List IpAddr) : p.walk crates remote (rest ++ first :: claimed) = first := by
  induction rest generalizing remote with
  | nil =>
      change (if p.contains crates remote then p.walk crates first claimed else remote) = first
      rw [if_pos hremote]
      cases claimed with
      | nil => rfl
      | cons a claimed =>
          change (if p.contains crates first then p.walk crates a claimed else first) = first
          rw [hfirst]
          rfl
  | cons a rest ih =>
      change (if p.contains crates remote then p.walk crates a (rest ++ first :: claimed)
        else remote) = first
      rw [if_pos hremote]
      exact ih (hrest a (by simp)) fun b hb ↦ hrest b (by simp [hb])

theorem isSome_mapM_iff {α β : Type} {f : α → Option β} {l : List α} :
    (l.mapM f).isSome = true ↔ ∀ a ∈ l, (f a).isSome = true := by
  induction l with
  | nil => simp
  | cons a l ih =>
      rw [List.forall_mem_cons, ← ih, List.mapM_cons]
      cases f a <;> cases l.mapM f <;> simp

theorem isSome_claimedBy_iff :
    (claimedBy crates client).isSome = true ↔ ∀ sent ∈ client, Legible crates sent := by
  cases client with
  | none => exact iff_of_true rfl nofun
  | some sent =>
      simp only [claimedBy, Legible, Option.mem_def, Option.some.injEq, forall_eq']
      cases crates.toStr sent with
      | none => simp
      | some text => simp [isSome_mapM_iff]

theorem mapM_parsePart {l : List (List Char)} {addresses : List IpAddr}
    (h : l.mapM parseIpAddr = some addresses) :
    l.mapM parsePart = some addresses ∧
      (l.map (List.cons ' ')).mapM parsePart = some addresses := by
  induction l generalizing addresses with
  | nil => exact ⟨h, h⟩
  | cons t l ih =>
      rw [List.mapM_cons] at h
      obtain ⟨a, ha, h⟩ := Option.bind_eq_some_iff.mp h
      obtain ⟨rest, hrest, h⟩ := Option.bind_eq_some_iff.mp h
      obtain rfl := Option.some.inj h
      obtain ⟨hplain, hblank⟩ := parsePart_of_parse ha
      obtain ⟨hrest', hblanks⟩ := ih hrest
      refine ⟨?_, ?_⟩
      · rw [List.mapM_cons, hplain, hrest']
        rfl
      · rw [List.map_cons, List.mapM_cons, hblank, hblanks]
        rfl

theorem plain_of_mem {addresses : List IpAddr} (h : texts.mapM parseIpAddr = some addresses) :
    ∀ t ∈ texts, ∀ c ∈ t, isAddressChar c = true := by
  intro t ht
  have hparse : (parseIpAddr t).isSome = true :=
    isSome_mapM_iff.mp (Option.isSome_of_eq_some h) t ht
  obtain ⟨a, ha⟩ := Option.isSome_iff_exists.mp hparse
  exact isAddressChar_of_parse ha

theorem mem_intercalate {α : Type} {sep : List α} {l : List (List α)} {a : α}
    (h : a ∈ sep.intercalate l) : (∃ t ∈ l, a ∈ t) ∨ a ∈ sep := by
  induction l with
  | nil => cases h
  | cons t l ih =>
      cases l with
      | nil => exact Or.inl ⟨t, by simp, by simpa [List.intercalate] using h⟩
      | cons u l =>
          have hsplit : sep.intercalate (t :: u :: l) = t ++ (sep ++ sep.intercalate (u :: l)) := by
            simp [List.intercalate]
          rw [hsplit, List.mem_append, List.mem_append] at h
          rcases h with h | h | h
          · exact Or.inl ⟨t, by simp, h⟩
          · exact Or.inr h
          · rcases ih h with ⟨v, hv, hav⟩ | hsep
            · exact Or.inl ⟨v, by simp [hv], hav⟩
            · exact Or.inr hsep

theorem toStr_intercalate (hcrates : crates.Lawful)
    (h : ∀ t ∈ texts, ∀ c ∈ t, isAddressChar c = true) :
    crates.toStr (asciiBytes (", ".toList.intercalate texts)) =
      some (", ".toList.intercalate texts) := by
  refine toStr_asciiBytes hcrates fun c hc ↦ ?_
  rcases mem_intercalate hc with ⟨part, hpart, hc⟩ | hc
  · exact Or.inl (h part hpart c hc)
  · rcases List.mem_cons.mp hc with rfl | hc
    · exact Or.inr (Or.inr rfl)
    · exact Or.inr (Or.inl (List.mem_singleton.mp hc))

/-- The addresses of the header: those that the client claimed, then those of
the proxies. -/
theorem forwardedAddresses_eq (hcrates : crates.Lawful)
    (hheader : crates.get headers xForwardedFor = some (forwardedFor client texts))
    (htexts : texts.mapM parseIpAddr = some (first :: rest)) :
    forwardedAddresses crates headers =
      (claimedBy crates client).map fun claimed ↦ claimed ++ first :: rest := by
  have hplain := plain_of_mem htexts
  have hjoined := toStr_intercalate hcrates hplain
  obtain ⟨t, ts, rfl⟩ : ∃ t ts, texts = t :: ts := by
    cases texts with
    | nil => cases htexts
    | cons t ts => exact ⟨t, ts, rfl⟩
  have hsplit := splitOn_intercalate t ts fun u hu hcomma ↦
    (plain_of_isAddressChar (hplain u hu ',' hcomma)).2.2 rfl
  obtain ⟨hparts, hblanks⟩ := mapM_parsePart htexts
  rw [List.mapM_cons] at htexts
  obtain ⟨a, ha, htexts⟩ := Option.bind_eq_some_iff.mp htexts
  obtain ⟨as, has, htexts⟩ := Option.bind_eq_some_iff.mp htexts
  obtain ⟨rfl, rfl⟩ := List.cons.inj (Option.some.inj htexts)
  have hproxies : ((", ".toList.intercalate (t :: ts)).splitOn ',').mapM parsePart =
      some (a :: as) := by
    rw [hsplit, List.mapM_cons, (parsePart_of_parse ha).1, (mapM_parsePart has).2]
    rfl
  have happended : ((' ' :: ", ".toList.intercalate (t :: ts)).splitOn ',').mapM parsePart =
      some (a :: as) := by
    rw [List.splitOn_cons_eq_if_modifyHead, hsplit]
    change ((' ' :: t) :: ts.map (List.cons ' ')).mapM parsePart = some (a :: as)
    rw [List.mapM_cons, (parsePart_of_parse ha).2, (mapM_parsePart has).2]
    rfl
  unfold forwardedAddresses
  rw [hheader]
  cases client with
  | none =>
      change (crates.toStr (asciiBytes (", ".toList.intercalate (t :: ts)))).bind
        (fun text ↦ (text.splitOn ',').mapM parsePart) = some (a :: as)
      rw [hjoined]
      exact hproxies
  | some sent =>
      change (crates.toStr (sent ++ asciiBytes ", ".toList ++
        asciiBytes (", ".toList.intercalate (t :: ts)))).bind
          (fun text ↦ (text.splitOn ',').mapM parsePart) =
            ((crates.toStr sent).bind fun text ↦ (text.splitOn ',').mapM parsePart).map
              fun claimed ↦ claimed ++ a :: as
      have hsep : crates.toStr (asciiBytes ", ".toList) = some [',', ' '] :=
        toStr_asciiBytes hcrates (by simp)
      rw [hcrates.toStr_append, hcrates.toStr_append, hjoined, hsep]
      cases crates.toStr sent with
      | none => rfl
      | some text =>
          have htext : text ++ [',', ' '] ++ ", ".toList.intercalate (t :: ts) =
              text ++ ',' :: ' ' :: ", ".toList.intercalate (t :: ts) := by simp
          change ((text ++ [',', ' '] ++ ", ".toList.intercalate (t :: ts)).splitOn ',').mapM
            parsePart = ((text.splitOn ',').mapM parsePart).map fun claimed ↦ claimed ++ a :: as
          rw [htext, List.splitOn_append_cons_self, List.mapM_append, happended]
          cases (text.splitOn ',').mapM parsePart <;> simp

/-- Behind trusted proxies a request counts under the address that the first
of them saw, unless the client sent a part that is no address; and whoever
connects from elsewhere counts under the socket address. -/
theorem client_ip_eq_iff (hcrates : crates.Lawful) (networks : List ν) (remote first : IpAddr)
    (rest : List IpAddr) (client : Option (List UInt8)) (texts : List (List Char)) (headers : μ)
    (hheader : crates.get headers xForwardedFor = some (forwardedFor client texts))
    (htexts : texts.mapM parseIpAddr = some (first :: rest))
    (hremote : (TrustedProxies.networks networks).contains crates remote = true)
    (hfirst : (TrustedProxies.networks networks).contains crates first = false)
    (hrest : ∀ a ∈ rest, (TrustedProxies.networks networks).contains crates a = true) :
    (requestIp crates (.networks networks) (some remote) headers = first ↔
      ∀ sent ∈ client, Legible crates sent) ∧
    ∀ outside headers', (TrustedProxies.networks networks).contains crates outside = false →
      requestIp crates (.networks networks) (some outside) headers' = outside := by
  have hne : remote ≠ first := by
    rintro rfl
    rw [hremote] at hfirst
    cases hfirst
  have hresolved : requestIp crates (.networks networks) (some remote) headers =
      match forwardedAddresses crates headers with
      | none => remote
      | some forwarded =>
          (TrustedProxies.networks networks).walk crates remote forwarded.reverse := by
    change (if !(TrustedProxies.networks networks).contains crates remote then remote else _) = _
    rw [hremote]
    rfl
  have hstop (claimed : List IpAddr) : (TrustedProxies.networks networks).walk crates remote
      (claimed ++ first :: rest).reverse = first := by
    have hreverse : (claimed ++ first :: rest).reverse =
        rest.reverse ++ first :: claimed.reverse := by simp
    rw [hreverse]
    exact walk_append _ hremote (fun a ha ↦ hrest a (List.mem_reverse.mp ha)) hfirst _
  refine ⟨?_, fun outside headers' houtside ↦ ?_⟩
  · rw [hresolved, forwardedAddresses_eq hcrates hheader htexts]
    rw [← isSome_claimedBy_iff]
    cases claimedBy crates client with
    | none => simpa using hne
    | some claimed => exact iff_of_true (hstop claimed) rfl
  · change (if !(TrustedProxies.networks networks).contains crates outside then outside
      else _) = _
    rw [houtside]
    rfl

end Chains

section Sample

/-- Names in lower case and values, as they arrived. -/
abbrev HeaderMap := List (List Char × List UInt8)

inductive IpNet
  | v4 (network : BitVec 32) (prefixLen : ℕ)
  | v6 (network : BitVec 128) (prefixLen : ℕ)

def isVisibleAscii (b : UInt8) : Bool := (decide (32 ≤ b) && decide (b < 127)) || b = 9

def sharesPrefix {w : ℕ} (prefixLen : ℕ) (a b : BitVec w) : Bool :=
  a >>> (w - prefixLen) = b >>> (w - prefixLen)

def sampleCrates : Crates HeaderMap IpNet where
  get headers name := (headers.find? fun h ↦ h.1 = name).map Prod.snd
  toStr value :=
    if value.all isVisibleAscii then some (value.map fun b ↦ Char.ofNat b.toNat) else none
  contains network address :=
    match network, address with
    | .v4 network prefixLen, .v4 address => sharesPrefix prefixLen network address
    | .v6 network prefixLen, .v6 address => sharesPrefix prefixLen network address
    | _, _ => false

theorem visible_of_le {c : Char} (h : ' ' ≤ c ∧ c ≤ '~') :
    isVisibleAscii (UInt8.ofNat c.toNat) = true ∧ Char.ofNat (UInt8.ofNat c.toNat).toNat = c := by
  have hsmall : c.toNat < 127 := Nat.lt_succ_of_le h.2
  have hall : ∀ n < 127, ' ' ≤ Char.ofNat n →
      isVisibleAscii (UInt8.ofNat (Char.ofNat n).toNat) = true ∧
        Char.ofNat (UInt8.ofNat (Char.ofNat n).toNat).toNat = Char.ofNat n := by
    decide +kernel
  have hc := hall c.toNat hsmall
  rw [Char.ofNat_toNat] at hc
  exact hc h.1

theorem lawful_sampleCrates : sampleCrates.Lawful where
  toStr_append left right := by
    simp only [sampleCrates, List.all_append, List.map_append]
    cases left.all isVisibleAscii <;> cases right.all isVisibleAscii <;> rfl
  toStr_visible text h := by
    have hvisible : (asciiBytes text).all isVisibleAscii = true := by
      unfold asciiBytes
      rw [List.all_map, List.all_eq_true]
      exact fun c hc ↦ (visible_of_le (h c hc)).1
    simp only [sampleCrates]
    rw [if_pos hvisible]
    unfold asciiBytes
    rw [List.map_map]
    exact congrArg some
      ((List.map_congr_left fun c hc ↦ (visible_of_le (h c hc)).2).trans (List.map_id' text))

/-- One proxy inside 10.0.0.0/8, which connects and has appended the address it
saw. -/
def oneProxy : List IpNet := [.v4 0x0A000000 8]

def seenBehindProxy (client : Option (List UInt8)) : HeaderMap :=
  [(xForwardedFor, forwardedFor client ["203.0.113.4".toList])]

theorem client_ip_eq_iff_oneProxy :
    requestIp sampleCrates (.networks oneProxy) (some (.v4 0x0A000002))
      (seenBehindProxy (some "198.51.100.7".toUTF8.toList)) = .v4 0xCB007104 := by
  have hiff := (client_ip_eq_iff lawful_sampleCrates oneProxy (.v4 0x0A000002) (.v4 0xCB007104) []
    (some "198.51.100.7".toUTF8.toList) ["203.0.113.4".toList]
    (seenBehindProxy (some "198.51.100.7".toUTF8.toList)) rfl (by decide +kernel)
    (by decide +kernel) (by decide +kernel) nofun).1
  refine hiff.mpr fun sent hsent ↦ ?_
  obtain rfl := Option.some.inj hsent
  decide +kernel

/-- A client that sends `unknown` is counted under the address of the proxy. -/
theorem unknown_counts_as_proxy :
    requestIp sampleCrates (.networks oneProxy) (some (.v4 0x0A000002))
        (seenBehindProxy (some "unknown".toUTF8.toList)) = .v4 0x0A000002 ∧
      requestIp sampleCrates (.networks oneProxy) (some (.v4 0x0A000002))
        (seenBehindProxy none) = .v4 0xCB007104 := by
  refine ⟨?_, ?_⟩ <;> decide +kernel

end Sample

end Histae.Http
