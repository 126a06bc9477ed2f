import Histae.Privacy.AsyncFile
import Histae.Text.Json

/-!
# The export writer

An export is written into a private file while the database is read, one
piece of JSON at a time. The writer remembers the open containers and the
bytes it has handed over, and refuses a piece that would make the file longer
than it may be.
-/

namespace Histae.Privacy

open AsyncFile Histae.Text

inductive ExportBuildError where
  | tooLarge
  | io
  | database
  deriving DecidableEq

abbrev JsonContextKind := Container

structure JsonContext where
  kind : JsonContextKind
  first : Bool
  deriving DecidableEq

structure JsonExportWriter (φ : Type) where
  file : φ
  maxBytes : UInt64
  writtenBytes : ℕ
  contexts : List JsonContext

abbrev WriterM (φ : Type) := ExceptT ExportBuildError (StateM (JsonExportWriter φ))

variable {φ : Type}

def WriterM.outcome {α : Type} (m : WriterM φ α) (w : JsonExportWriter φ) :
    Except ExportBuildError α × JsonExportWriter φ := StateT.run (ExceptT.run m) w

def refuse (c : Prop) [Decidable c] (error : ExportBuildError) : WriterM φ Unit :=
  if c then throw error else pure ()

namespace JsonExportWriter

def new (file : φ) (maxBytes : UInt64) : JsonExportWriter φ := ⟨file, maxBytes, 0, []⟩

section Calls

variable [AsyncFile φ]

def writeAll (value : List UInt8) : WriterM φ Unit := fun w ↦
  let written := AsyncFile.writeAll w.file value
  (if written.1 then .ok () else .error .io, { w with file := written.2 })

def write (value : List UInt8) : WriterM φ Unit := do
  refuse (2 ^ 64 ≤ value.length) .tooLarge
  let w ← get
  refuse (w.maxBytes.toNat < min (w.writtenBytes + value.length) (2 ^ 64 - 1)) .tooLarge
  writeAll value
  modify fun w ↦ { w with writtenBytes := (w.writtenBytes + value.length) % 2 ^ 64 }

/-- The text of a serialised value, unless its serialisation fails. -/
def toVec (value : Option Json) : WriterM φ (List UInt8) :=
  match value with
  | none => throw .database
  | some v => pure v.text

def notFirst : List JsonContext → List JsonContext
  | [] => []
  | context :: outer => { context with first := false } :: outer

def writeName : Option String → WriterM φ Unit
  | none => pure ()
  | some name => do
      write (quoted name)
      write [58]

def writeComma (context : JsonContext) : WriterM φ Unit :=
  if context.first then pure () else write [44]

def beforeValue (name : Option String) : WriterM φ Unit := do
  let w ← get
  match w.contexts with
  | [] => refuse (w.writtenBytes ≠ 0 ∨ name.isSome) .database
  | context :: _ => do
      refuse ((context.kind = .object ∧ name.isNone) ∨ (context.kind = .array ∧ name.isSome)) .database
      writeComma context
      modify fun w ↦ { w with contexts := notFirst w.contexts }
      writeName name

def push (kind : JsonContextKind) : WriterM φ Unit :=
  modify fun w ↦ { w with contexts := ⟨kind, true⟩ :: w.contexts }

def closeContext (expected : JsonContextKind) : WriterM φ Unit := do
  let w ← get
  set { w with contexts := w.contexts.tail }
  refuse (w.contexts.head?.all fun context ↦ context.kind ≠ expected) .database

def startObject (name : Option String) : WriterM φ Unit := do
  beforeValue name
  write Container.object.opening
  push .object

def endObject : WriterM φ Unit := do
  closeContext .object
  write Container.object.closing

def startArray (name : String) : WriterM φ Unit := do
  beforeValue (some name)
  write Container.array.opening
  push .array

def endArray : WriterM φ Unit := do
  closeContext .array
  write Container.array.closing

def property (name : String) (value : Option Json) : WriterM φ Unit := do
  beforeValue (some name)
  let encoded ← toVec value
  write encoded

def item (value : Option Json) : WriterM φ Unit := do
  beforeValue none
  let encoded ← toVec value
  write encoded

/-- The flushed and rewound file, and its length. -/
def finish (w : JsonExportWriter φ) : Except ExportBuildError (φ × ℕ) :=
  if w.contexts ≠ [] then .error .database
  else
    let flushed := flush w.file
    let rewound := rewind flushed.2
    if flushed.1 && rewound.1 then .ok (rewound.2, w.writtenBytes) else .error .io

end Calls

end JsonExportWriter

/-- A call of the writer. -/
inductive WriterCall where
  | startObject (name : Option String)
  | endObject
  | startArray (name : String)
  | endArray
  | property (name : String) (value : Option Json)
  | item (value : Option Json)

namespace WriterCall

def run [AsyncFile φ] : WriterCall → WriterM φ Unit
  | .startObject name => JsonExportWriter.startObject name
  | .endObject => JsonExportWriter.endObject
  | .startArray name => JsonExportWriter.startArray name
  | .endArray => JsonExportWriter.endArray
  | .property name value => JsonExportWriter.property name value
  | .item value => JsonExportWriter.item value

/-- What a call adds to the document. -/
def extend : WriterCall → Document → Option Document
  | .startObject name, d => d.start name .object
  | .endObject, d => d.finish .object
  | .startArray name, d => d.start (some name) .array
  | .endArray, d => d.finish .array
  | .property name value, d => value.bind (d.add (some name))
  | .item value, d => value.bind (d.add none)

end WriterCall

/-- The answers of a sequence of calls, each made whatever the ones before
have answered. -/
def perform [AsyncFile φ] : List WriterCall → JsonExportWriter φ →
    List (Except ExportBuildError Unit) × JsonExportWriter φ
  | [], w => ([], w)
  | call :: calls, w =>
      let first := call.run.outcome w
      let rest := perform calls first.2
      (first.1 :: rest.1, rest.2)

def document : List WriterCall → Document → Option Document
  | [], d => some d
  | call :: calls, d => (call.extend d).bind (document calls)

section Succeeds

/-- A call that returns `a` and leaves the writer as `w'`. -/
def Succeeds {α : Type} (m : WriterM φ α) (w : JsonExportWriter φ) (a : α) (w' : JsonExportWriter φ) : Prop :=
  m.outcome w = (.ok a, w')

variable {α β : Type} {m : WriterM φ α} {f : α → WriterM φ β} {w w' : JsonExportWriter φ} {a : α} {b : β}

theorem outcome_bind (m : WriterM φ α) (f : α → WriterM φ β) :
    (m >>= f).outcome w = match m.outcome w with
      | (.ok a, w₁) => (f a).outcome w₁
      | (.error e, w₁) => (.error e, w₁) := by
  simp only [WriterM.outcome, ExceptT.run_bind, StateT.run_bind]
  rcases h : StateT.run (ExceptT.run m) w with ⟨_ | _, _⟩ <;> rfl

theorem outcome_refuse (c : Prop) [Decidable c] (error : ExportBuildError) :
    (refuse c error).outcome w = (if c then .error error else .ok (), w) := by
  by_cases hc : c
  · rw [refuse, if_pos hc, if_pos hc]
    rfl
  · rw [refuse, if_neg hc, if_neg hc]
    rfl

theorem succeeds_bind :
    Succeeds (m >>= f) w b w' ↔ ∃ a w₁, Succeeds m w a w₁ ∧ Succeeds (f a) w₁ b w' := by
  rw [Succeeds, outcome_bind]
  rcases h : m.outcome w with ⟨error | first, w₁⟩
  · simp [Succeeds, h]
  · simp [Succeeds, h]

theorem succeeds_iff : Succeeds m w a w' ↔ m.outcome w = (.ok a, w') := Iff.rfl

@[simp] theorem succeeds_pure {a' : α} : Succeeds (pure a) w a' w' ↔ a = a' ∧ w = w' := by
  have hpure : (pure a : WriterM φ α).outcome w = (.ok a, w) := rfl
  rw [Succeeds, hpure]
  simp

@[simp] theorem succeeds_get {w₁ : JsonExportWriter φ} :
    Succeeds (get : WriterM φ (JsonExportWriter φ)) w w₁ w' ↔ w = w₁ ∧ w = w' := by
  have hget : (get : WriterM φ (JsonExportWriter φ)).outcome w = (.ok w, w) := rfl
  rw [Succeeds, hget]
  simp

@[simp] theorem succeeds_modify {g : JsonExportWriter φ → JsonExportWriter φ} {u : Unit} :
    Succeeds (modify g : WriterM φ Unit) w u w' ↔ g w = w' := by
  have hmodify : (modify g : WriterM φ Unit).outcome w = (.ok (), g w) := rfl
  rw [Succeeds, hmodify]
  simp

@[simp] theorem succeeds_set {w₁ : JsonExportWriter φ} {u : PUnit} :
    Succeeds (set w₁ : WriterM φ PUnit) w u w' ↔ w₁ = w' := by
  have hset : (set w₁ : WriterM φ PUnit).outcome w = (.ok ⟨⟩, w₁) := rfl
  rw [Succeeds, hset]
  simp

@[simp] theorem succeeds_refuse {c : Prop} [Decidable c] {error : ExportBuildError} {u : Unit} :
    Succeeds (refuse c error) w u w' ↔ ¬ c ∧ w = w' := by
  rw [Succeeds, outcome_refuse]
  by_cases hc : c <;> simp [hc]

@[simp] theorem succeeds_toVec {value : Option Json} {text : List UInt8} :
    Succeeds (JsonExportWriter.toVec value) w text w' ↔
      (∃ v, value = some v ∧ v.text = text) ∧ w = w' := by
  cases value with
  | none =>
      have hthrow : (JsonExportWriter.toVec none).outcome w = (.error .database, w) := rfl
      rw [Succeeds, hthrow]
      simp
  | some v =>
      have hpure : (JsonExportWriter.toVec (some v)).outcome w = (.ok v.text, w) := rfl
      rw [Succeeds, hpure]
      simp

end Succeeds

end Histae.Privacy
