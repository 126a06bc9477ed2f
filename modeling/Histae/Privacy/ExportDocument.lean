import Histae.Privacy.ExportWriter

/-!
# What the export writer writes

As long as every call succeeds and no failure of the file is still to be
reported, the file is the text of a document, the writer knows its length and
its open containers, and each call adds what it says to the document. Whatever
the calls answer, the file stays within its limit, unless a piece that the file
cuts into parts has failed between two of them: the writer does not count the
parts that were written.
-/

namespace Histae.Privacy

open AsyncFile Histae.Text

variable {φ : Type} [AsyncFile φ]

section Writes

variable {w w' : JsonExportWriter φ} {value : List UInt8} {u : Unit}

/-- The test of a piece. -/
def JsonExportWriter.Takes (w : JsonExportWriter φ) (value : List UInt8) : Prop :=
  value.length < 2 ^ 64 ∧ min (w.writtenBytes + value.length) (2 ^ 64 - 1) ≤ w.maxBytes.toNat

instance instDecidableTakes (w : JsonExportWriter φ) (value : List UInt8) :
    Decidable (w.Takes value) := inferInstanceAs (Decidable (_ ∧ _))

theorem outcome_write (w : JsonExportWriter φ) (value : List UInt8) :
    (JsonExportWriter.write value).outcome w =
      if w.Takes value then
        if (writeAll w.file value).1 then
          (.ok (), { w with
            file := (writeAll w.file value).2
            writtenBytes := (w.writtenBytes + value.length) % 2 ^ 64 })
        else (.error .io, { w with file := (writeAll w.file value).2 })
      else (.error .tooLarge, w) := by
  have hget : (get : WriterM φ (JsonExportWriter φ)).outcome w = (.ok w, w) := rfl
  have hmodify : ∀ (w₁ : JsonExportWriter φ) (g : JsonExportWriter φ → JsonExportWriter φ),
      (modify g : WriterM φ Unit).outcome w₁ = (.ok (), g w₁) := fun _ _ ↦ rfl
  have hall : (JsonExportWriter.writeAll value).outcome w =
      (if (writeAll w.file value).1 then .ok () else .error .io,
        { w with file := (writeAll w.file value).2 }) := rfl
  rw [JsonExportWriter.write, outcome_bind, outcome_refuse]
  by_cases hlong : 2 ^ 64 ≤ value.length
  · rw [if_pos hlong, if_neg fun h ↦ absurd h.1 (Nat.not_lt.mpr hlong)]
  · rw [if_neg hlong]
    simp only [outcome_bind, hget, outcome_refuse]
    by_cases hlarge : w.maxBytes.toNat < min (w.writtenBytes + value.length) (2 ^ 64 - 1)
    · rw [if_pos hlarge, if_neg fun h ↦ absurd h.2 (Nat.not_le.mpr hlarge)]
    · rw [if_neg hlarge, if_pos ⟨Nat.lt_of_not_le hlong, Nat.le_of_not_lt hlarge⟩]
      simp only [hall]
      cases (writeAll w.file value).1 <;> rfl

/-- What becomes of a piece. -/
inductive Written (w : JsonExportWriter φ) (value : List UInt8) :
    Except ExportBuildError Unit × JsonExportWriter φ → Prop
  | refused : Written w value (.error .tooLarge, w)
  | failed (htakes : w.Takes value) (herror : (writeAll w.file value).1 = false) :
      Written w value (.error .io, { w with file := (writeAll w.file value).2 })
  | accepted (htakes : w.Takes value) (hok : (writeAll w.file value).1 = true) :
      Written w value (.ok (), { w with
        file := (writeAll w.file value).2
        writtenBytes := (w.writtenBytes + value.length) % 2 ^ 64 })

theorem written_write (w : JsonExportWriter φ) (value : List UInt8) :
    Written w value ((JsonExportWriter.write value).outcome w) := by
  rw [outcome_write]
  split_ifs with htakes hok
  · exact .accepted htakes hok
  · exact .failed htakes (Bool.eq_false_iff.mpr hok)
  · exact .refused

end Writes

section Bound

/-- The file keeps its limit, and no byte of it is uncounted. -/
structure Counted (w : JsonExportWriter φ) : Prop where
  bounded : (bytes w.file).length ≤ w.maxBytes.toNat
  counted : w.maxBytes.toNat < 2 ^ 64 - 1 → (bytes w.file).length ≤ w.writtenBytes

variable {α β : Type} {m : WriterM φ α} {f : α → WriterM φ β} {w : JsonExportWriter φ}
  {small : Prop}

theorem Counted.contexts (h : Counted w) (contexts : List JsonContext) :
    Counted { w with contexts := contexts } := ⟨h.bounded, h.counted⟩

/-- Whatever it answers, the call only adds to the file and keeps it within
its limit, and unless it fails while the file is cut into parts, all is counted. -/
structure Bounded (small : Prop) (m : WriterM φ α) (w : JsonExportWriter φ) : Prop where
  maxBytes : (m.outcome w).2.maxBytes = w.maxBytes
  grows : bytes w.file <+: bytes (m.outcome w).2.file
  bounded : (bytes (m.outcome w).2.file).length ≤ w.maxBytes.toNat
  counted : (small ∨ (m.outcome w).1 ≠ .error .io) → Counted (m.outcome w).2

theorem Bounded.of_outcome (result : Except ExportBuildError α) (contexts : List JsonContext)
    (h : Counted w) (houtcome : m.outcome w = (result, { w with contexts := contexts })) :
    Bounded small m w := by
  refine ⟨?_, ?_, ?_, ?_⟩
  · rw [houtcome]
  · rw [houtcome]
  · rw [houtcome]
    exact h.bounded
  · intro _
    rw [houtcome]
    exact h.contexts contexts

theorem Bounded.bind (hfirst : Bounded small m w)
    (hrest : ∀ a w₁, Counted w₁ → m.outcome w = (.ok a, w₁) → Bounded small (f a) w₁) :
    Bounded small (m >>= f) w := by
  have hbind := outcome_bind (w := w) m f
  rcases houtcome : m.outcome w with ⟨error | a, w₁⟩
  · rw [houtcome] at hbind
    have hmax := hfirst.maxBytes
    have hgrows := hfirst.grows
    have hbounded := hfirst.bounded
    have hcounted := hfirst.counted
    rw [houtcome] at hmax hgrows hbounded hcounted
    refine ⟨?_, ?_, ?_, ?_⟩
    · rw [hbind]
      exact hmax
    · rw [hbind]
      exact hgrows
    · rw [hbind]
      exact hbounded
    · rw [hbind]
      intro hnot
      exact hcounted (hnot.imp_right fun h herror ↦ h (by rw [Except.error.inj herror]))
  · rw [houtcome] at hbind
    have hmax : w₁.maxBytes = w.maxBytes := by simpa [houtcome] using hfirst.maxBytes
    have hgrows : bytes w.file <+: bytes w₁.file := by simpa [houtcome] using hfirst.grows
    have hcounted : Counted w₁ := by simpa [houtcome] using hfirst.counted
    have hnext := hrest a w₁ hcounted houtcome
    refine ⟨?_, ?_, ?_, ?_⟩
    · rw [hbind]
      exact hnext.maxBytes.trans hmax
    · rw [hbind]
      exact hgrows.trans hnext.grows
    · rw [hbind]
      exact hmax ▸ hnext.bounded
    · rw [hbind]
      exact hnext.counted

theorem bounded_refuse (h : Counted w) (c : Prop) [Decidable c] (error : ExportBuildError) :
    Bounded small (refuse c error) w :=
  Bounded.of_outcome (if c then .error error else .ok ()) w.contexts h (outcome_refuse c error)

theorem bounded_pure (h : Counted w) (a : α) : Bounded small (pure a) w :=
  Bounded.of_outcome (.ok a) w.contexts h rfl

theorem bounded_get (h : Counted w) :
    Bounded small (get : WriterM φ (JsonExportWriter φ)) w :=
  Bounded.of_outcome (.ok w) w.contexts h rfl

theorem bounded_toVec (h : Counted w) (value : Option Json) :
    Bounded small (JsonExportWriter.toVec value) w := by
  cases value with
  | none => exact Bounded.of_outcome (.error .database) w.contexts h rfl
  | some v => exact bounded_pure h v.text

theorem bounded_contexts (h : Counted w) (g : List JsonContext → List JsonContext) :
    Bounded small
      (modify fun w : JsonExportWriter φ ↦ { w with contexts := g w.contexts } : WriterM φ Unit) w :=
  Bounded.of_outcome (.ok ()) (g w.contexts) h rfl

theorem bounded_closeContext (h : Counted w) (kind : JsonContextKind) :
    Bounded small (JsonExportWriter.closeContext kind) w := by
  refine (bounded_get h).bind fun w₁ w₂ h₂ houtcome ↦ ?_
  have hsame : w₁ = w ∧ w₂ = w := by
    have hget : (get : WriterM φ (JsonExportWriter φ)).outcome w = (.ok w, w) := rfl
    rw [hget] at houtcome
    simp only [Prod.mk.injEq, Except.ok.injEq] at houtcome
    exact ⟨houtcome.1.symm, houtcome.2.symm⟩
  obtain ⟨hread, hkept⟩ := hsame
  rw [hread, hkept]
  have hset : Bounded small (set { w with contexts := w.contexts.tail } : WriterM φ PUnit) w :=
    Bounded.of_outcome (.ok ⟨⟩) w.contexts.tail h rfl
  exact hset.bind fun _ _ h₃ _ ↦ bounded_refuse h₃ _ _

theorem counted_new {file : φ} {maxBytes : UInt64} (h : bytes file = []) :
    Counted (JsonExportWriter.new file maxBytes) := by
  refine ⟨?_, ?_⟩
  · simp [JsonExportWriter.new, h]
  · simp [JsonExportWriter.new, h]

variable [LawfulFile φ]

/-- What the disk takes of a piece that passed the test stays within the limit. -/
theorem Counted.length_le (h : Counted w) {value : List UInt8} (htakes : w.Takes value) (file : φ)
    (hfile : (bytes file).length ≤ (bytes w.file).length + value.length) :
    (bytes file).length ≤ w.maxBytes.toNat := by
  have hlimit := LawfulFile.length_le file
  have hfits : fileLimit < 2 ^ 64 - 1 := by decide
  have hpiece := htakes.2
  by_cases hmax : w.maxBytes.toNat < 2 ^ 64 - 1
  · have hcounted := h.counted hmax
    omega
  · omega

theorem length_writeAll_le (file : φ) (value : List UInt8) :
    (bytes (writeAll file value).2).length ≤ (bytes file).length + value.length := by
  obtain ⟨taken, htaken⟩ := LawfulFile.writeAll_take file value
  rw [htaken, List.length_append, List.length_take]
  omega

theorem bounded_write (h : Counted w) (value : List UInt8)
    (hsmall : small → value.length ≤ maxBufSize) :
    Bounded small (JsonExportWriter.write value) w := by
  have hwritten := written_write w value
  have hmax := w.maxBytes.toNat_lt
  rcases houtcome : (JsonExportWriter.write value).outcome w with ⟨result, w'⟩
  rw [houtcome] at hwritten
  obtain ⟨taken, htaken⟩ := LawfulFile.writeAll_take w.file value
  cases hwritten with
  | refused => exact Bounded.of_outcome (.error .tooLarge) w.contexts h houtcome
  | failed htakes herror =>
      have hroom := h.length_le htakes _ (length_writeAll_le w.file value)
      refine ⟨?_, ?_, ?_, ?_⟩
      · rw [houtcome]
      · rw [houtcome]
        exact ⟨_, htaken.symm⟩
      · rw [houtcome]
        exact hroom
      · rw [houtcome]
        intro hnot
        have hvalue := hsmall (hnot.resolve_right fun hne ↦ hne rfl)
        have hsame := LawfulFile.writeAll_error w.file value hvalue herror
        exact ⟨hroom, fun hlarge ↦ hsame ▸ h.counted hlarge⟩
  | accepted htakes hok =>
      have hadded := length_writeAll_le w.file value
      have hroom := h.length_le htakes _ hadded
      refine ⟨?_, ?_, ?_, ?_⟩
      · rw [houtcome]
      · rw [houtcome]
        exact ⟨_, htaken.symm⟩
      · rw [houtcome]
        exact hroom
      · rw [houtcome]
        intro _
        refine ⟨hroom, fun hlarge ↦ ?_⟩
        have hcounted := h.counted hlarge
        have hpiece := htakes.2
        have hmod : (w.writtenBytes + value.length) % 2 ^ 64 = w.writtenBytes + value.length := by
          apply Nat.mod_eq_of_lt
          simp only [] at hlarge
          omega
        simp only [hmod]
        omega

/-- A name of this length is written at once. -/
def NameFits : Option String → Prop
  | none => True
  | some name => (quoted name).length ≤ maxBufSize

theorem bounded_writeName (h : Counted w) (name : Option String) (hsmall : small → NameFits name) :
    Bounded small (JsonExportWriter.writeName name) w := by
  cases name with
  | none => exact bounded_pure h ()
  | some name =>
      exact (bounded_write h _ hsmall).bind fun _ _ h₁ _ ↦
        bounded_write h₁ _ fun _ ↦ (by decide : [58].length ≤ maxBufSize)

theorem bounded_beforeValue (h : Counted w) (name : Option String)
    (hsmall : small → NameFits name) : Bounded small (JsonExportWriter.beforeValue name) w := by
  refine (bounded_get h).bind fun w₁ w₂ h₂ _ ↦ ?_
  cases w₁.contexts with
  | nil => exact bounded_refuse h₂ _ _
  | cons context outer =>
      refine (bounded_refuse h₂ _ _).bind fun _ w₃ h₃ _ ↦ ?_
      have hcomma : Bounded small (JsonExportWriter.writeComma context) w₃ := by
        rw [JsonExportWriter.writeComma]
        split_ifs
        · exact bounded_pure h₃ ()
        · exact bounded_write h₃ _ fun _ ↦ (by decide : [44].length ≤ maxBufSize)
      exact hcomma.bind fun _ _ h₄ _ ↦
        (bounded_contexts h₄ JsonExportWriter.notFirst).bind fun _ _ h₅ _ ↦
          bounded_writeName h₅ name hsmall

/-- No piece of the call is cut into parts. -/
def WriterCall.Fits : WriterCall → Prop
  | .startObject name => NameFits name
  | .startArray name => NameFits (some name)
  | .property name value => NameFits (some name) ∧ ∀ v ∈ value, v.text.length ≤ maxBufSize
  | .item value => ∀ v ∈ value, v.text.length ≤ maxBufSize
  | _ => True

/-- The pieces of a call. -/
theorem WriterCall.bounded_run (h : Counted w) (call : WriterCall) :
    Bounded call.Fits call.run w := by
  have hpush : ∀ {small : Prop} {w₁ : JsonExportWriter φ}, Counted w₁ → ∀ kind,
      Bounded small (JsonExportWriter.push kind) w₁ :=
    fun h₁ kind ↦ bounded_contexts h₁ (⟨kind, true⟩ :: ·)
  have hopening : ∀ kind : Container, kind.opening.length ≤ maxBufSize := by
    rintro ⟨⟩ <;> decide
  have hclosing : ∀ kind : Container, kind.closing.length ≤ maxBufSize := by
    rintro ⟨⟩ <;> decide
  have hvalue : ∀ {small : Prop} {w₁ : JsonExportWriter φ}, Counted w₁ → ∀ value : Option Json,
      (small → ∀ v ∈ value, v.text.length ≤ maxBufSize) →
      Bounded small (JsonExportWriter.toVec value >>= JsonExportWriter.write) w₁ := by
    intro small w₁ h₁ value hfits
    refine (bounded_toVec h₁ value).bind fun text w₂ h₂ houtcome ↦ bounded_write h₂ text ?_
    obtain ⟨⟨v, hv, rfl⟩, _⟩ := succeeds_toVec.mp houtcome
    exact fun hsmall ↦ hfits hsmall v hv
  cases call with
  | startObject name =>
      exact (bounded_beforeValue h name id).bind fun _ _ h₁ _ ↦
        (bounded_write h₁ _ fun _ ↦ hopening _).bind fun _ _ h₂ _ ↦ hpush h₂ _
  | endObject =>
      exact (bounded_closeContext h _).bind fun _ _ h₁ _ ↦ bounded_write h₁ _ fun _ ↦ hclosing _
  | startArray name =>
      exact (bounded_beforeValue h (some name) id).bind fun _ _ h₁ _ ↦
        (bounded_write h₁ _ fun _ ↦ hopening _).bind fun _ _ h₂ _ ↦ hpush h₂ _
  | endArray =>
      exact (bounded_closeContext h _).bind fun _ _ h₁ _ ↦ bounded_write h₁ _ fun _ ↦ hclosing _
  | property name value =>
      exact (bounded_beforeValue h (some name) And.left).bind fun _ _ h₁ _ ↦
        hvalue h₁ value And.right
  | item value =>
      exact (bounded_beforeValue h none fun _ ↦ trivial).bind fun _ _ h₁ _ ↦ hvalue h₁ value id

/-- No call of the list has failed between two parts of a piece. -/
def Uncut (calls : List WriterCall) (results : List (Except ExportBuildError Unit)) : Prop :=
  List.Forall₂ (fun call result ↦ call.Fits ∨ result ≠ .error .io) calls results

omit [LawfulFile φ] in
theorem uncut_of_ok {calls : List WriterCall} (h : ∀ result ∈ (perform calls w).1, result = .ok ()) :
    Uncut calls (perform calls w).1 := by
  induction calls generalizing w with
  | nil => exact .nil
  | cons call calls ih =>
      refine .cons (Or.inr ?_) (ih fun result hresult ↦ h result (List.mem_cons_of_mem _ hresult))
      rw [h _ List.mem_cons_self]
      exact fun herror ↦ nomatch herror

/-- The writer counts what it writes until a piece fails between two parts. -/
theorem counted_perform {calls : List WriterCall} (h : Counted w)
    (huncut : Uncut calls (perform calls w).1) :
    Counted (perform calls w).2 ∧ (perform calls w).2.maxBytes = w.maxBytes := by
  induction calls generalizing w with
  | nil => exact ⟨h, rfl⟩
  | cons call calls ih =>
      obtain ⟨hcall, hcalls⟩ := List.forall₂_cons.mp huncut
      have hbounded := call.bounded_run h
      have hrest := ih (hbounded.counted hcall) hcalls
      exact ⟨hrest.1, hrest.2.trans hbounded.maxBytes⟩

/-- No call makes the file longer than it may be, as long as no piece before it
has failed between two parts. -/
theorem bounded_perform {calls : List WriterCall} {file : φ} {maxBytes : UInt64}
    (hfile : bytes file = [])
    (huncut : Uncut calls (perform calls (JsonExportWriter.new file maxBytes)).1)
    (call : WriterCall) :
    bytes (perform calls (JsonExportWriter.new file maxBytes)).2.file <+:
        bytes (call.run.outcome (perform calls (JsonExportWriter.new file maxBytes)).2).2.file ∧
      (bytes (call.run.outcome (perform calls (JsonExportWriter.new file maxBytes)).2).2.file).length ≤
        maxBytes.toNat := by
  obtain ⟨hcounted, hmax⟩ := counted_perform (counted_new hfile) huncut
  have hcall := call.bounded_run hcounted
  have hlimit : (perform calls (JsonExportWriter.new file maxBytes)).2.maxBytes = maxBytes := hmax
  have hbounded := hcall.bounded
  rw [hlimit] at hbounded
  exact ⟨hcall.grows, hbounded⟩

end Bound

section HidesNothing

variable {α β : Type} {m : WriterM φ α} {f : α → WriterM φ β} {w w' : JsonExportWriter φ}

/-- A success that leaves nothing to report found nothing to report. -/
def HidesNothing (m : WriterM φ α) : Prop :=
  ∀ w a w', Succeeds m w a w' → Intact w'.file → Intact w.file

theorem HidesNothing.of_file (h : ∀ w a w', Succeeds m w a w' → w'.file = w.file) :
    HidesNothing m := fun w a w' hsucceeds hintact ↦ h w a w' hsucceeds ▸ hintact

theorem HidesNothing.bind (hfirst : HidesNothing m) (hrest : ∀ a, HidesNothing (f a)) :
    HidesNothing (m >>= f) := by
  intro w b w' hsucceeds hintact
  obtain ⟨a, w₁, hm, hf⟩ := succeeds_bind.mp hsucceeds
  exact hfirst w a w₁ hm (hrest a w₁ b w' hf hintact)

theorem hidesNothing_pure (a : α) : HidesNothing (pure a : WriterM φ α) :=
  .of_file fun _ _ _ h ↦ by rw [(succeeds_pure.mp h).2]

theorem hidesNothing_get : HidesNothing (get : WriterM φ (JsonExportWriter φ)) :=
  .of_file fun _ _ _ h ↦ by rw [(succeeds_get.mp h).2]

theorem hidesNothing_refuse (c : Prop) [Decidable c] (error : ExportBuildError) :
    HidesNothing (refuse c error : WriterM φ Unit) :=
  .of_file fun _ _ _ h ↦ by rw [(succeeds_refuse.mp h).2]

theorem hidesNothing_toVec (value : Option Json) :
    HidesNothing (JsonExportWriter.toVec value : WriterM φ (List UInt8)) :=
  .of_file fun _ _ _ h ↦ by rw [(succeeds_toVec.mp h).2]

theorem hidesNothing_contexts (g : List JsonContext → List JsonContext) :
    HidesNothing (modify fun w : JsonExportWriter φ ↦ { w with contexts := g w.contexts } :
      WriterM φ Unit) :=
  .of_file fun _ _ _ h ↦ by rw [← succeeds_modify.mp h]

theorem hidesNothing_closeContext (kind : JsonContextKind) :
    HidesNothing (JsonExportWriter.closeContext kind : WriterM φ Unit) := by
  refine .of_file fun w a w' h ↦ ?_
  obtain ⟨_, _, hget, hrest⟩ := succeeds_bind.mp h
  obtain ⟨rfl, rfl⟩ := succeeds_get.mp hget
  obtain ⟨_, _, hset, hrefuse⟩ := succeeds_bind.mp hrest
  rw [← (succeeds_refuse.mp hrefuse).2, ← succeeds_set.mp hset]

variable [LawfulFile φ]

theorem hidesNothing_write (value : List UInt8) :
    HidesNothing (JsonExportWriter.write value : WriterM φ Unit) := by
  intro w u w' hwrite hintact
  have hwritten := written_write w value
  rw [succeeds_iff.mp hwrite] at hwritten
  cases hwritten with
  | accepted htakes hok => exact (LawfulFile.writeAll_ok w.file value hok hintact).1

theorem hidesNothing_writeName (name : Option String) :
    HidesNothing (JsonExportWriter.writeName name : WriterM φ Unit) := by
  cases name with
  | none => exact hidesNothing_pure ()
  | some name => exact (hidesNothing_write _).bind fun _ ↦ hidesNothing_write _

theorem hidesNothing_writeComma (context : JsonContext) :
    HidesNothing (JsonExportWriter.writeComma context : WriterM φ Unit) := by
  rw [JsonExportWriter.writeComma]
  split_ifs
  · exact hidesNothing_pure ()
  · exact hidesNothing_write _

theorem hidesNothing_beforeValue (name : Option String) :
    HidesNothing (JsonExportWriter.beforeValue name : WriterM φ Unit) := by
  refine hidesNothing_get.bind fun w ↦ ?_
  cases w.contexts with
  | nil => exact hidesNothing_refuse _ _
  | cons context outer =>
      exact (hidesNothing_refuse _ _).bind fun _ ↦ (hidesNothing_writeComma context).bind fun _ ↦
        (hidesNothing_contexts JsonExportWriter.notFirst).bind fun _ ↦ hidesNothing_writeName name

theorem WriterCall.hidesNothing_run (call : WriterCall) :
    HidesNothing (call.run : WriterM φ Unit) := by
  have hopen : ∀ name (kind : JsonContextKind), HidesNothing (do
      JsonExportWriter.beforeValue name
      JsonExportWriter.write kind.opening
      JsonExportWriter.push kind : WriterM φ Unit) := fun name kind ↦
    (hidesNothing_beforeValue name).bind fun _ ↦ (hidesNothing_write _).bind fun _ ↦
      hidesNothing_contexts (⟨kind, true⟩ :: ·)
  have hvalue : ∀ name value, HidesNothing (do
      JsonExportWriter.beforeValue name
      let encoded ← JsonExportWriter.toVec value
      JsonExportWriter.write encoded : WriterM φ Unit) := fun name value ↦
    (hidesNothing_beforeValue name).bind fun _ ↦ (hidesNothing_toVec value).bind hidesNothing_write
  cases call with
  | startObject name => exact hopen name .object
  | endObject => exact (hidesNothing_closeContext _).bind fun _ ↦ hidesNothing_write _
  | startArray name => exact hopen (some name) .array
  | endArray => exact (hidesNothing_closeContext _).bind fun _ ↦ hidesNothing_write _
  | property name value => exact hvalue (some name) value
  | item value => exact hvalue none value

/-- All the calls succeed and leave the writer as `w'`. -/
def Performs (calls : List WriterCall) (w w' : JsonExportWriter φ) : Prop :=
  (∀ result ∈ (perform calls w).1, result = .ok ()) ∧ (perform calls w).2 = w'

omit [LawfulFile φ] in
theorem performs_cons {call : WriterCall} {calls : List WriterCall} :
    Performs (call :: calls) w w' ↔
      ∃ w₁, Succeeds call.run w () w₁ ∧ Performs calls w₁ w' := by
  constructor
  · rintro ⟨hok, hw'⟩
    exact ⟨(call.run.outcome w).2, Prod.ext (hok _ List.mem_cons_self) rfl,
      fun result hresult ↦ hok result (List.mem_cons_of_mem _ hresult), hw'⟩
  · rintro ⟨w₁, hcall, hok, hw'⟩
    have hfirst : call.run.outcome w = (.ok (), w₁) := hcall
    have hperform : perform (call :: calls) w = (.ok () :: (perform calls w₁).1, (perform calls w₁).2) := by
      rw [perform, hfirst]
    rw [Performs, hperform]
    refine ⟨?_, hw'⟩
    intro result hresult
    rcases List.mem_cons.mp hresult with rfl | hresult
    · rfl
    · exact hok result hresult

theorem Performs.intact {calls : List WriterCall} (h : Performs calls w w')
    (hintact : Intact w'.file) : Intact w.file := by
  induction calls generalizing w with
  | nil =>
      obtain rfl := h.2
      exact hintact
  | cons call calls ih =>
      obtain ⟨w₁, hcall, hrest⟩ := performs_cons.mp h
      exact call.hidesNothing_run w () w₁ hcall (ih hrest)

end HidesNothing

section Document

/-- The open containers around a place; something follows in each of them. -/
def outerContexts : Hole → List JsonContext
  | .top => []
  | .item _ outer => ⟨.array, false⟩ :: outerContexts outer
  | .member _ _ outer => ⟨.object, false⟩ :: outerContexts outer

def documentContexts : Document → List JsonContext
  | .empty => []
  | .within frame hole => ⟨frame.container, frame.isEmpty⟩ :: outerContexts hole
  | .complete _ => []

/-- The writer knows the length of its file. -/
structure Honest (w : JsonExportWriter φ) : Prop where
  written : w.writtenBytes = (bytes w.file).length
  bounded : (bytes w.file).length ≤ w.maxBytes.toNat

/-- The writer has written exactly this document. -/
structure Represents (w : JsonExportWriter φ) (d : Document) : Prop where
  honest : Honest w
  text : bytes w.file = d.text
  contexts : w.contexts = documentContexts d

variable {w w' : JsonExportWriter φ} {d : Document} {u : Unit}

theorem honest_new {file : φ} {maxBytes : UInt64} (h : bytes file = []) :
    Honest (JsonExportWriter.new file maxBytes) := by
  refine ⟨?_, ?_⟩ <;> simp [JsonExportWriter.new, h]

theorem Honest.contexts (h : Honest w) (contexts : List JsonContext) :
    Honest { w with contexts := contexts } := ⟨h.written, h.bounded⟩

theorem represents_new {file : φ} {maxBytes : UInt64} (h : bytes file = []) :
    Represents (JsonExportWriter.new file maxBytes) .empty := ⟨honest_new h, h, rfl⟩

theorem documentContexts_fill (hole : Hole) (v : Json) :
    documentContexts (hole.fill v) = outerContexts hole := by
  cases hole with
  | top => rfl
  | item before outer => simp [Hole.fill, documentContexts, outerContexts, Frame.container, Frame.isEmpty]
  | member before name outer =>
      simp [Hole.fill, documentContexts, outerContexts, Frame.container, Frame.isEmpty]

variable [LawfulFile φ]

/-- A piece that was written is at the end of the file. -/
theorem Honest.write {value : List UInt8} (h : Honest w)
    (hwrite : Succeeds (JsonExportWriter.write value) w u w') (hintact : Intact w'.file) :
    Honest w' ∧ bytes w'.file = bytes w.file ++ value ∧ w'.contexts = w.contexts := by
  have hwritten := written_write w value
  rw [succeeds_iff.mp hwrite] at hwritten
  cases hwritten with
  | accepted htakes hok =>
      obtain ⟨_, hbytes⟩ := LawfulFile.writeAll_ok w.file value hok hintact
      have hlength := congrArg List.length hbytes
      have hlimit := LawfulFile.length_le (writeAll w.file value).2
      have hfits : fileLimit < 2 ^ 64 - 1 := by decide
      have hpiece := htakes.2
      have hold := h.written
      rw [List.length_append] at hlength
      refine ⟨⟨?_, ?_⟩, hbytes, rfl⟩
      · change (w.writtenBytes + value.length) % 2 ^ 64 = (bytes (writeAll w.file value).2).length
        rw [Nat.mod_eq_of_lt (by omega)]
        omega
      · change (bytes (writeAll w.file value).2).length ≤ w.maxBytes.toNat
        omega

theorem honest_writeName {name : Option String} (h : Honest w)
    (hname : Succeeds (JsonExportWriter.writeName name) w u w') (hintact : Intact w'.file) :
    Honest w' ∧ bytes w'.file = bytes w.file ++ label name ∧ w'.contexts = w.contexts := by
  cases name with
  | none =>
      obtain ⟨_, rfl⟩ := succeeds_pure.mp hname
      exact ⟨h, (List.append_nil _).symm, rfl⟩
  | some name =>
      obtain ⟨_, w₁, hquoted, hcolon⟩ := succeeds_bind.mp hname
      have hintact₁ := hidesNothing_write _ _ _ _ hcolon hintact
      obtain ⟨h₁, hbytes₁, hcontexts₁⟩ := h.write hquoted hintact₁
      obtain ⟨h₂, hbytes₂, hcontexts₂⟩ := h₁.write hcolon hintact
      refine ⟨h₂, ?_, hcontexts₂.trans hcontexts₁⟩
      rw [hbytes₂, hbytes₁, label, List.append_assoc]

theorem honest_writeComma {context : JsonContext} (h : Honest w)
    (hcomma : Succeeds (JsonExportWriter.writeComma context) w u w') (hintact : Intact w'.file) :
    Honest w' ∧ bytes w'.file = bytes w.file ++ separator context.first ∧
      w'.contexts = w.contexts := by
  rw [JsonExportWriter.writeComma] at hcomma
  rw [separator]
  split_ifs at hcomma ⊢ with hfirst
  · obtain ⟨_, rfl⟩ := succeeds_pure.mp hcomma
    exact ⟨h, (List.append_nil _).symm, rfl⟩
  · exact h.write hcomma hintact

/-- Before a value, the writer checks that the document has a place for it and
writes what comes between. -/
theorem Represents.beforeValue {name : Option String} (h : Represents w d)
    (hbefore : Succeeds (JsonExportWriter.beforeValue name) w u w') (hintact : Intact w'.file) :
    ∃ hole, d.place name = some hole ∧ Honest w' ∧ bytes w'.file = hole.text ∧
      w'.contexts = outerContexts hole := by
  obtain ⟨_, _, hget, hrest⟩ := succeeds_bind.mp hbefore
  obtain ⟨rfl, rfl⟩ := succeeds_get.mp hget
  have hcontexts := h.contexts
  cases d with
  | empty =>
      rw [documentContexts] at hcontexts
      rw [hcontexts] at hrest
      obtain ⟨hallowed, rfl⟩ := succeeds_refuse.mp hrest
      cases name with
      | none => exact ⟨.top, rfl, h.honest, h.text, hcontexts⟩
      | some name => exact absurd (Or.inr rfl) hallowed
  | complete v =>
      rw [documentContexts] at hcontexts
      rw [hcontexts] at hrest
      obtain ⟨hallowed, _⟩ := succeeds_refuse.mp hrest
      have hlength := h.honest.written
      have hpos := List.length_pos_of_ne_nil v.text_ne_nil
      rw [h.text, Document.text] at hlength
      exact absurd (Or.inl (by omega)) hallowed
  | within frame outer =>
      rw [documentContexts] at hcontexts
      rw [hcontexts] at hrest
      obtain ⟨_, w₁, hrefuse, hrest⟩ := succeeds_bind.mp hrest
      obtain ⟨hallowed, rfl⟩ := succeeds_refuse.mp hrefuse
      obtain ⟨_, w₂, hcomma, hrest⟩ := succeeds_bind.mp hrest
      obtain ⟨_, w₃, hmodify, hname⟩ := succeeds_bind.mp hrest
      have hw₃ := succeeds_modify.mp hmodify
      have hintact₃ := hidesNothing_writeName name _ _ _ hname hintact
      have hintact₂ : Intact w₂.file := by
        rw [← hw₃] at hintact₃
        exact hintact₃
      obtain ⟨h₂, hbytes₂, hcontexts₂⟩ := honest_writeComma h.honest hcomma hintact₂
      have h₃ : Honest w₃ := hw₃ ▸ h₂.contexts _
      have hbytes₃ : bytes w₃.file = bytes w₂.file := by rw [← hw₃]
      have hcontexts₃ : w₃.contexts = ⟨frame.container, false⟩ :: outerContexts outer := by
        rw [← hw₃, hcontexts₂, hcontexts]
        rfl
      obtain ⟨h₄, hbytes₄, hcontexts₄⟩ := honest_writeName h₃ hname hintact
      have hplace : ∃ hole, (Document.within frame outer).place name = some hole ∧
          outerContexts hole = ⟨frame.container, false⟩ :: outerContexts outer := by
        cases frame with
        | array items =>
            cases name with
            | none => exact ⟨_, rfl, rfl⟩
            | some name => exact absurd (Or.inr ⟨rfl, rfl⟩) hallowed
        | object members =>
            cases name with
            | none => exact absurd (Or.inl ⟨rfl, rfl⟩) hallowed
            | some name => exact ⟨_, rfl, rfl⟩
      obtain ⟨hole, hhole, houter⟩ := hplace
      refine ⟨hole, hhole, h₄, ?_, ?_⟩
      · rw [Document.text_place hhole, hbytes₄, hbytes₃, hbytes₂, h.text]
        rfl
      · rw [hcontexts₄, hcontexts₃, houter]

theorem Represents.value {name : Option String} {value : Option Json} (h : Represents w d)
    (hvalue : Succeeds (do
      JsonExportWriter.beforeValue name
      let encoded ← JsonExportWriter.toVec value
      JsonExportWriter.write encoded) w u w') (hintact : Intact w'.file) :
    ∃ d', (value.bind (d.add name)) = some d' ∧ Represents w' d' := by
  obtain ⟨_, w₁, hbefore, hrest⟩ := succeeds_bind.mp hvalue
  obtain ⟨text, w₂, hencoded, hwrite⟩ := succeeds_bind.mp hrest
  obtain ⟨⟨v, rfl, rfl⟩, rfl⟩ := succeeds_toVec.mp hencoded
  have hintact₁ := hidesNothing_write _ _ _ _ hwrite hintact
  obtain ⟨hole, hplace, h₁, hbytes, hcontexts⟩ := h.beforeValue hbefore hintact₁
  obtain ⟨h₂, hbytes₂, hcontexts₂⟩ := h₁.write hwrite hintact
  refine ⟨hole.fill v, ?_, h₂, ?_, ?_⟩
  · rw [Option.bind_some, Document.add, hplace, Option.map_some]
  · rw [hbytes₂, hbytes, hole.text_fill]
  · rw [hcontexts₂, hcontexts, documentContexts_fill]

theorem Represents.start {name : Option String} {kind : JsonContextKind} (h : Represents w d)
    (hstart : Succeeds (do
      JsonExportWriter.beforeValue name
      JsonExportWriter.write kind.opening
      JsonExportWriter.push kind) w u w') (hintact : Intact w'.file) :
    ∃ d', d.start name kind = some d' ∧ Represents w' d' := by
  obtain ⟨_, w₁, hbefore, hrest⟩ := succeeds_bind.mp hstart
  obtain ⟨_, w₂, hwrite, hpush⟩ := succeeds_bind.mp hrest
  have hw' := succeeds_modify.mp hpush
  have hintact₂ : Intact w₂.file := by
    rw [← hw'] at hintact
    exact hintact
  have hintact₁ := hidesNothing_write _ _ _ _ hwrite hintact₂
  obtain ⟨hole, hplace, h₁, hbytes, hcontexts⟩ := h.beforeValue hbefore hintact₁
  obtain ⟨h₂, hbytes₂, hcontexts₂⟩ := h₁.write hwrite hintact₂
  refine ⟨.within (Frame.start kind) hole, ?_, hw' ▸ h₂.contexts _, ?_, ?_⟩
  · rw [Document.start, hplace, Option.map_some]
  · rw [← hw', Document.text, Frame.text_start, hbytes₂, hbytes]
  · rw [← hw', documentContexts, Frame.container_start, Frame.isEmpty_start, hcontexts₂, hcontexts]

theorem Represents.finish {kind : JsonContextKind} (h : Represents w d)
    (hfinish : Succeeds (do
      JsonExportWriter.closeContext kind
      JsonExportWriter.write kind.closing) w u w') (hintact : Intact w'.file) :
    ∃ d', d.finish kind = some d' ∧ Represents w' d' := by
  obtain ⟨_, w₁, hclose, hwrite⟩ := succeeds_bind.mp hfinish
  obtain ⟨_, _, hget, hrest⟩ := succeeds_bind.mp hclose
  obtain ⟨rfl, rfl⟩ := succeeds_get.mp hget
  obtain ⟨_, w₂, hset, hrefuse⟩ := succeeds_bind.mp hrest
  have hw₂ := succeeds_set.mp hset
  obtain ⟨hallowed, rfl⟩ := succeeds_refuse.mp hrefuse
  have h₁ : Honest w₂ := hw₂ ▸ h.honest.contexts _
  obtain ⟨h₂, hbytes, hcontexts⟩ := h₁.write hwrite hintact
  have hold := h.contexts
  cases d with
  | empty =>
      rw [documentContexts] at hold
      rw [hold] at hallowed
      exact absurd rfl hallowed
  | complete v =>
      rw [documentContexts] at hold
      rw [hold] at hallowed
      exact absurd rfl hallowed
  | within frame hole =>
      rw [documentContexts] at hold
      have hkind : frame.container = kind := by
        rw [hold] at hallowed
        simpa using hallowed
      have hclosed : (Document.within frame hole).finish kind = some (hole.fill frame.json) := by
        rw [Document.finish, if_pos hkind]
      refine ⟨_, hclosed, h₂, ?_, ?_⟩
      · rw [hbytes, ← hw₂, Document.text_finish hclosed, ← h.text]
      · rw [hcontexts, ← hw₂, hold, documentContexts_fill]
        rfl

/-- A call that succeeds adds to the document what it says. -/
theorem Represents.call {call : WriterCall} (h : Represents w d) (hcall : Succeeds call.run w u w')
    (hintact : Intact w'.file) : ∃ d', call.extend d = some d' ∧ Represents w' d' := by
  cases call with
  | startObject name => exact h.start hcall hintact
  | endObject => exact h.finish hcall hintact
  | startArray name => exact h.start hcall hintact
  | endArray => exact h.finish hcall hintact
  | property name value => exact h.value hcall hintact
  | item value => exact h.value hcall hintact

theorem Represents.performs {calls : List WriterCall} (h : Represents w d)
    (hperforms : Performs calls w w') (hintact : Intact w'.file) :
    ∃ d', document calls d = some d' ∧ Represents w' d' := by
  induction calls generalizing w d with
  | nil =>
      obtain rfl := hperforms.2
      exact ⟨d, rfl, h⟩
  | cons call calls ih =>
      obtain ⟨w₁, hcall, hrest⟩ := performs_cons.mp hperforms
      obtain ⟨d₁, hextend, h₁⟩ := h.call hcall (hrest.intact hintact)
      obtain ⟨d', hdocument, h'⟩ := ih h₁ hrest
      exact ⟨d', by rw [document, hextend, Option.bind_some, hdocument], h'⟩

theorem Document.fill_ne_empty (hole : Hole) (v : Json) : hole.fill v ≠ .empty := by
  cases hole with
  | top => exact fun h ↦ nomatch h
  | item before outer => exact fun h ↦ nomatch h
  | member before name outer => exact fun h ↦ nomatch h

theorem Document.add_ne_empty {d d' : Document} {name : Option String} {v : Json}
    (h : d.add name v = some d') : d' ≠ .empty := by
  obtain ⟨hole, _, rfl⟩ := Option.map_eq_some_iff.mp h
  exact Document.fill_ne_empty hole v

theorem Document.start_ne_empty {d d' : Document} {name : Option String} {c : Container}
    (h : d.start name c = some d') : d' ≠ .empty := by
  obtain ⟨hole, _, rfl⟩ := Option.map_eq_some_iff.mp h
  exact fun hempty ↦ nomatch hempty

theorem Document.finish_ne_empty {d d' : Document} {c : Container} (h : d.finish c = some d') :
    d' ≠ .empty := by
  cases d with
  | empty => cases h
  | complete v => cases h
  | within frame hole =>
      rw [Document.finish] at h
      split_ifs at h
      rw [← Option.some.inj h]
      exact Document.fill_ne_empty hole frame.json

theorem WriterCall.extend_ne_empty {call : WriterCall} {d d' : Document}
    (h : call.extend d = some d') : d' ≠ .empty := by
  cases call with
  | startObject name => exact Document.start_ne_empty h
  | endObject => exact Document.finish_ne_empty h
  | startArray name => exact Document.start_ne_empty h
  | endArray => exact Document.finish_ne_empty h
  | property name value =>
      obtain ⟨v, _, hadd⟩ := Option.bind_eq_some_iff.mp h
      exact Document.add_ne_empty hadd
  | item value =>
      obtain ⟨v, _, hadd⟩ := Option.bind_eq_some_iff.mp h
      exact Document.add_ne_empty hadd

theorem document_ne_empty {calls : List WriterCall} {d d' : Document}
    (h : document calls d = some d') (hd : calls ≠ [] ∨ d ≠ .empty) : d' ≠ .empty := by
  induction calls generalizing d with
  | nil =>
      obtain rfl := Option.some.inj h
      exact hd.resolve_left fun hne ↦ hne rfl
  | cons call calls ih =>
      obtain ⟨d₁, hextend, hrest⟩ := Option.bind_eq_some_iff.mp h
      exact ih hrest (Or.inr (WriterCall.extend_ne_empty hextend))

/-- What is finished had nothing to report. -/
theorem JsonExportWriter.finish_ok {file : φ} {length : ℕ} (h : w.finish = .ok (file, length)) :
    w.contexts = [] ∧ Intact w.file ∧ bytes file = bytes w.file ∧ length = w.writtenBytes := by
  rw [JsonExportWriter.finish] at h
  dsimp only at h
  split_ifs at h with hopen hdone
  obtain ⟨rfl, rfl⟩ := Prod.mk.inj (Except.ok.inj h)
  have hflushed : (flush w.file).1 = true := (Bool.and_eq_true_iff.mp hdone).1
  refine ⟨not_not.mp hopen, LawfulFile.flush_ok w.file hflushed, ?_, rfl⟩
  rw [LawfulFile.rewind_bytes, LawfulFile.flush_bytes]

/-- Calls that all succeed, up to the last, have written one JSON value. -/
theorem finish_of_performs {calls : List WriterCall} {file written : φ} {maxBytes : UInt64}
    {length : ℕ} (hcalls : calls ≠ []) (hfile : bytes file = [])
    (hperforms : Performs calls (JsonExportWriter.new file maxBytes) w)
    (hfinish : w.finish = .ok (written, length)) :
    ∃ v, document calls .empty = some (.complete v) ∧ bytes written = v.text ∧
      length = (bytes written).length ∧ (bytes written).length ≤ maxBytes.toNat := by
  obtain ⟨hopen, hintact, hbytes, rfl⟩ := JsonExportWriter.finish_ok hfinish
  obtain ⟨d, hdocument, hrepresents⟩ := (represents_new hfile).performs hperforms hintact
  have hmax := (counted_perform (counted_new hfile) (uncut_of_ok hperforms.1)).2
  rw [hperforms.2] at hmax
  have hcontexts := hrepresents.contexts
  rw [hopen] at hcontexts
  cases d with
  | empty => exact absurd rfl (document_ne_empty hdocument (Or.inl hcalls))
  | within frame hole => cases hcontexts
  | complete v =>
      rw [hbytes]
      have hbounded := hrepresents.honest.bounded
      rw [hmax] at hbounded
      exact ⟨v, hdocument, hrepresents.text, hrepresents.honest.written, hbounded⟩

end Document

end Histae.Privacy
