import Mathlib

/-!
# JSON documents written from left to right

A JSON value and its compact text, and a document that is still being
written: the container whose members are being listed and, around it, the
containers that wait for it. Such a document has a text too. Adding a value,
opening a container and closing one extend that text at its end, and a closed
document is one value.
-/

namespace Histae.Text

section Values

def digitsAndRest (cs : List Char) : List Char × List Char := cs.span Char.isDigit

def isWhole (cs : List Char) : Bool := cs = ['0'] || (cs ≠ [] && cs.head? ≠ some '0')

def isExponent : List Char → Bool
  | [] => true
  | mark :: cs =>
      let unsigned := if cs.head? = some '-' ∨ cs.head? = some '+' then cs.tail else cs
      (mark = 'e' || mark = 'E') && unsigned ≠ [] && unsigned.all Char.isDigit

def isFractionAndExponent : List Char → Bool
  | '.' :: cs => (digitsAndRest cs).1 ≠ [] && isExponent (digitsAndRest cs).2
  | cs => isExponent cs

/-- The grammar of numbers. -/
def isNumber (cs : List Char) : Bool :=
  let unsigned := if cs.head? = some '-' then cs.tail else cs
  isWhole (digitsAndRest unsigned).1 && isFractionAndExponent (digitsAndRest unsigned).2

/-- A number is kept as it is written. -/
structure JsonNumber where
  digits : List Char
  wellFormed : isNumber digits = true

theorem head?_toDigits_ne_zero {n : ℕ} (h : 0 < n) : (Nat.toDigits 10 n).head? ≠ some '0' := by
  induction n using Nat.strongRecOn with
  | ind n ih =>
      rcases Nat.lt_or_ge n 10 with hlt | hge
      · rw [Nat.toDigits_of_lt_base hlt, List.head?_cons]
        interval_cases n <;> decide
      · rw [Nat.toDigits_of_base_le (by decide) hge,
          List.head?_append_of_ne_nil _ Nat.toDigits_ne_nil]
        exact ih (n / 10) (by omega) (by omega)

theorem isNumber_toDigits (n : ℕ) : isNumber (Nat.toDigits 10 n) = true := by
  have hdigits : ∀ c ∈ Nat.toDigits 10 n, c.isDigit = true :=
    fun c hc ↦ Nat.isDigit_of_mem_toDigits (by decide) (le_refl 10) hc
  have hsign : (Nat.toDigits 10 n).head? ≠ some '-' := by
    intro h
    have hdigit := hdigits '-' (List.mem_of_head? h)
    exact absurd hdigit (by decide)
  have hspan : digitsAndRest (Nat.toDigits 10 n) = (Nat.toDigits 10 n, []) := by
    rw [digitsAndRest, List.span_eq_takeWhile_dropWhile, List.takeWhile_eq_self_iff.mpr hdigits,
      List.dropWhile_eq_nil_iff.mpr hdigits]
  have hwhole : isWhole (Nat.toDigits 10 n) = true := by
    rcases Nat.eq_zero_or_pos n with rfl | hpos
    · decide
    · simp [isWhole, head?_toDigits_ne_zero hpos]
  rw [isNumber, if_neg hsign, hspan, hwhole]
  rfl

def JsonNumber.ofNat (n : ℕ) : JsonNumber := ⟨Nat.toDigits 10 n, isNumber_toDigits n⟩

inductive Json where
  | null
  | bool (b : Bool)
  | number (n : JsonNumber)
  | string (s : String)
  | array (items : List Json)
  | object (members : List (String × Json))

def hexDigit (n : ℕ) : UInt8 := (if n < 10 then 48 + n else 87 + n).toUInt8

def escaped (b : UInt8) : List UInt8 :=
  if b = 34 then [92, 34]
  else if b = 92 then [92, 92]
  else if b = 8 then [92, 98]
  else if b = 9 then [92, 116]
  else if b = 10 then [92, 110]
  else if b = 12 then [92, 102]
  else if b = 13 then [92, 114]
  else if b < 32 then [92, 117, 48, 48, hexDigit (b.toNat / 16), hexDigit (b.toNat % 16)]
  else [b]

def utf8 (cs : List Char) : List UInt8 := cs.flatMap String.utf8EncodeChar

/-- A string between quotes, its quotes, backslashes and controls escaped. -/
def quoted (s : String) : List UInt8 := 34 :: (utf8 s.toList).flatMap escaped ++ [34]

def separator (first : Bool) : List UInt8 := if first then [] else [44]

mutual

def Json.text : Json → List UInt8
  | .null => [110, 117, 108, 108]
  | .bool b => if b then [116, 114, 117, 101] else [102, 97, 108, 115, 101]
  | .number n => n.digits.map fun c ↦ c.toNat.toUInt8
  | .string s => quoted s
  | .array items => 91 :: itemsText true items ++ [93]
  | .object members => 123 :: membersText true members ++ [125]

def itemsText (first : Bool) : List Json → List UInt8
  | [] => []
  | v :: rest => separator first ++ v.text ++ itemsText false rest

def membersText (first : Bool) : List (String × Json) → List UInt8
  | [] => []
  | (name, v) :: rest => separator first ++ quoted name ++ 58 :: v.text ++ membersText false rest

end

theorem JsonNumber.digits_ne_nil (n : JsonNumber) : n.digits ≠ [] := by
  intro h
  have hformed := n.wellFormed
  rw [h] at hformed
  simp [isNumber, isWhole, digitsAndRest, List.span, List.span.loop] at hformed

theorem Json.text_ne_nil (v : Json) : v.text ≠ [] := by
  cases v with
  | null => rw [Json.text]; decide
  | bool b => cases b <;> (rw [Json.text]; decide)
  | number n =>
      rw [Json.text]
      exact fun h ↦ n.digits_ne_nil (List.map_eq_nil_iff.mp h)
  | string s => rw [Json.text]; exact List.cons_ne_nil _ _
  | array items => rw [Json.text]; exact List.cons_ne_nil _ _
  | object members => rw [Json.text]; exact List.cons_ne_nil _ _

theorem itemsText_append (first : Bool) (items more : List Json) :
    itemsText first (items ++ more) =
      itemsText first items ++ itemsText (first && items.isEmpty) more := by
  induction items generalizing first with
  | nil => simp [itemsText]
  | cons v items ih => simp [itemsText, ih]

theorem membersText_append (first : Bool) (members more : List (String × Json)) :
    membersText first (members ++ more) =
      membersText first members ++ membersText (first && members.isEmpty) more := by
  induction members generalizing first with
  | nil => simp [membersText]
  | cons m members ih => simp [membersText, ih]

/-- Every item takes at least one byte. -/
theorem length_le_itemsText (first : Bool) (items : List Json) :
    items.length ≤ (itemsText first items).length := by
  induction items generalizing first with
  | nil => exact Nat.zero_le _
  | cons v items ih =>
      have hpos := List.length_pos_of_ne_nil v.text_ne_nil
      have hrest := ih false
      rw [itemsText, List.length_append, List.length_append, List.length_cons]
      omega

theorem length_text_le_membersText (first : Bool) {members : List (String × Json)}
    {member : String × Json} (h : member ∈ members) :
    member.2.text.length ≤ (membersText first members).length := by
  induction members generalizing first with
  | nil => exact absurd h List.not_mem_nil
  | cons m members ih =>
      rw [membersText]
      simp only [List.length_append, List.length_cons]
      rcases List.mem_cons.mp h with rfl | h
      · omega
      · have hrest := ih false h
        omega

end Values

/-- The two kinds of containers. -/
inductive Container where
  | array
  | object
  deriving DecidableEq

/-- A container with what has been listed in it so far. -/
inductive Frame where
  | array (items : List Json)
  | object (members : List (String × Json))

/-- Where a container stands: at the top of the document, or after the
members listed so far of the container around it. -/
inductive Hole where
  | top
  | item (before : List Json) (outer : Hole)
  | member (before : List (String × Json)) (name : String) (outer : Hole)

/-- A document as far as it has been written. -/
inductive Document where
  | empty
  | within (frame : Frame) (hole : Hole)
  | complete (value : Json)

namespace Frame

def start : Container → Frame
  | .array => .array []
  | .object => .object []

def container : Frame → Container
  | .array _ => .array
  | .object _ => .object

def isEmpty : Frame → Bool
  | .array items => items.isEmpty
  | .object members => members.isEmpty

def json : Frame → Json
  | .array items => .array items
  | .object members => .object members

def text : Frame → List UInt8
  | .array items => 91 :: itemsText true items
  | .object members => 123 :: membersText true members

end Frame

def Container.closing : Container → List UInt8
  | .array => [93]
  | .object => [125]

def Container.opening : Container → List UInt8
  | .array => [91]
  | .object => [123]

def label : Option String → List UInt8
  | none => []
  | some name => quoted name ++ [58]

def Hole.text : Hole → List UInt8
  | .top => []
  | .item before outer => outer.text ++ (Frame.array before).text ++ separator before.isEmpty
  | .member before name outer =>
      outer.text ++ (Frame.object before).text ++ separator before.isEmpty ++ label (some name)

def Hole.fill : Hole → Json → Document
  | .top, v => .complete v
  | .item before outer, v => .within (.array (before ++ [v])) outer
  | .member before name outer, v => .within (.object (before ++ [(name, v)])) outer

namespace Document

def text : Document → List UInt8
  | .empty => []
  | .within frame hole => hole.text ++ frame.text
  | .complete v => v.text

/-- Whether a value with this name, if any, may come next, and where. -/
def place : Document → Option String → Option Hole
  | .empty, none => some .top
  | .within (.array items) outer, none => some (.item items outer)
  | .within (.object members) outer, some name => some (.member members name outer)
  | _, _ => none

def add (d : Document) (name : Option String) (v : Json) : Option Document :=
  (d.place name).map (·.fill v)

def start (d : Document) (name : Option String) (c : Container) : Option Document :=
  (d.place name).map (.within (Frame.start c))

def finish (d : Document) (c : Container) : Option Document :=
  match d with
  | .within frame hole => if frame.container = c then some (hole.fill frame.json) else none
  | _ => none

end Document

@[simp] theorem Frame.text_start (c : Container) : (Frame.start c).text = c.opening := by
  cases c <;> rfl

@[simp] theorem Frame.container_start (c : Container) : (Frame.start c).container = c := by
  cases c <;> rfl

@[simp] theorem Frame.isEmpty_start (c : Container) : (Frame.start c).isEmpty = true := by
  cases c <;> rfl

theorem Frame.text_json (frame : Frame) :
    frame.json.text = frame.text ++ frame.container.closing := by
  cases frame with
  | array items => rw [Frame.json, Json.text]; rfl
  | object members => rw [Frame.json, Json.text]; rfl

/-- A value put where it belongs comes right after what was written. -/
theorem Hole.text_fill (hole : Hole) (v : Json) : (hole.fill v).text = hole.text ++ v.text := by
  cases hole with
  | top => rfl
  | item before outer => simp [Hole.fill, Document.text, Hole.text, Frame.text, itemsText_append, itemsText]
  | member before name outer =>
      simp [Hole.fill, Document.text, Hole.text, Frame.text, membersText_append, membersText, label]

namespace Document

variable {d d' : Document} {name : Option String} {hole : Hole} {c : Container} {v : Json}

/-- What is written before a value: a comma unless it is the first, and its name. -/
def isFirst : Document → Bool
  | .within frame _ => frame.isEmpty
  | _ => true

theorem text_place (h : d.place name = some hole) :
    hole.text = d.text ++ separator d.isFirst ++ label name := by
  cases d with
  | empty =>
      cases name with
      | none => cases h; rfl
      | some name => cases h
  | complete v => cases name <;> cases h
  | within frame outer =>
      cases frame with
      | array items =>
          cases name with
          | none => cases h; simp [Hole.text, Document.text, isFirst, Frame.isEmpty, label]
          | some name => cases h
      | object members =>
          cases name with
          | none => cases h
          | some name => cases h; simp [Hole.text, Document.text, isFirst, Frame.isEmpty, label]

theorem text_start (h : d.start name c = some d') :
    d'.text = d.text ++ separator d.isFirst ++ label name ++ c.opening := by
  obtain ⟨hole, hplace, rfl⟩ := Option.map_eq_some_iff.mp h
  rw [Document.text, Frame.text_start, text_place hplace]

theorem text_finish (h : d.finish c = some d') : d'.text = d.text ++ c.closing := by
  cases d with
  | empty => cases h
  | complete v => cases h
  | within frame hole =>
      simp only [finish, Option.ite_none_right_eq_some, Option.some.injEq] at h
      obtain ⟨rfl, rfl⟩ := h
      rw [hole.text_fill, frame.text_json, Document.text, List.append_assoc]

end Document

end Histae.Text
