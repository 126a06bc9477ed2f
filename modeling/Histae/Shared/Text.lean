import Mathlib
import Histae.Text.Trim

/-!
# Texts that the services accept

The normalisers of operator reasons, moderation reasons, answers and prompts,
and the `CHECK` constraints of the columns they are written to. The services
count `validator.js` characters, which may be pairs of scalars, the columns
count scalars. The two differ by the variation selectors that follow another
scalar. Unicode normalisation is a parameter.
-/

namespace Histae.Shared

open Text

/-- NFKC, as the services call it. -/
structure Nfkc where
  nfkc : List Char → List Char

section Source

def isJavascriptWhitespace (c : Char) : Bool :=
  ('\x09' ≤ c && c ≤ '\x0D') || c = ' ' || c = '\u00A0' || c = '\u1680' ||
    ('\u2000' ≤ c && c ≤ '\u200A') || c = '\u2028' || c = '\u2029' || c = '\u202F' ||
    c = '\u205F' || c = '\u3000' || c = '\uFEFF'

def javascriptTrim (value : List Char) : List Char := trimMatches isJavascriptWhitespace value

def utf8Len (value : List Char) : ℕ := (value.map Char.utf8Size).sum

def isVariationSelector (c : Char) : Bool := c = '\uFE0E' || c = '\uFE0F'

def validatorJsLength : List Char → ℕ
  | [] => 0
  | [_] => 1
  | c :: next :: rest =>
      if !isVariationSelector c && isVariationSelector next then validatorJsLength rest + 1
      else validatorJsLength (next :: rest) + 1

/-- The variation selectors behind another scalar; `base` says whether one
stands before the text. -/
def selectorsAfter (base : Bool) : List Char → ℕ
  | [] => 0
  | c :: rest =>
      (if base && isVariationSelector c then 1 else 0) + selectorsAfter (!isVariationSelector c) rest

def attachedSelectors (text : List Char) : ℕ := selectorsAfter false text

/-- What Unicode says of the normal form. Normalised texts stay as they are,
and so does any part of one; a variation selector and the scalar zero neither
come from other scalars nor combine with them; white space, and nothing else,
becomes white space only. -/
structure Nfkc.Lawful (u : Nfkc) : Prop where
  idem : ∀ text, u.nfkc (u.nfkc text) = u.nfkc text
  part : ∀ text part, u.nfkc text = text → part <:+: text → u.nfkc part = part
  splits : ∀ before c after, (isVariationSelector c || c = '\x00') = true →
    u.nfkc (before ++ c :: after) = u.nfkc before ++ c :: u.nfkc after
  keeps : ∀ text c, (isVariationSelector c || c = '\x00') = true → c ∈ u.nfkc text → c ∈ text
  empty : ∀ text, u.nfkc text = [] ↔ text = []
  blank : ∀ text, (u.nfkc text).all isJavascriptWhitespace = text.all isJavascriptWhitespace

inductive OutboxAdminError
  | invalidRequest
  deriving DecidableEq

inductive ModerationError
  | invalidRequest
  deriving DecidableEq

inductive CatalogError
  | invalidQuestionPayload
  | invalidAnswers
  deriving DecidableEq

variable (u : Nfkc)

/-- The text, if it passes. -/
def accepted {ε : Type} (passes : List Char → Bool) (error : ε) (text : List Char) :
    Except ε (List Char) := if passes text then .ok text else .error error

def normalizeReason (value : List Char) : Except OutboxAdminError (List Char) :=
  accepted (fun text ↦ decide (3 ≤ validatorJsLength text) && decide (validatorJsLength text ≤ 500) &&
      !text.any fun c ↦ decide (c ≤ '\x1F') || c = '\x7F')
    .invalidRequest (javascriptTrim (u.nfkc (javascriptTrim value)))

def normalizeModerationReason (value : List Char) : Except ModerationError (List Char) :=
  accepted (fun text ↦ decide (3 ≤ validatorJsLength text) && decide (validatorJsLength text ≤ 500) &&
      decide (utf8Len text ≤ 1000))
    .invalidRequest (javascriptTrim (u.nfkc value))

def hasControlCharacter (value : List Char) : Bool :=
  value.any fun c ↦ decide (c ≤ '\x1F') || ('\x7F' ≤ c && c ≤ '\u009F')

/-- Scalars and bytes are counted as the columns count them. -/
def fits (least most bytes : ℕ) (text : List Char) : Bool :=
  decide (least ≤ text.length) && decide (text.length ≤ most) && decide (utf8Len text ≤ bytes) &&
    !hasControlCharacter text

def normalizeQuestionPrompt (value : List Char) : Except CatalogError (List Char) :=
  accepted (fits 3 200 500) .invalidQuestionPayload (javascriptTrim (u.nfkc value))

def normalizeAnswer (value : List Char) : Except CatalogError (List Char) :=
  accepted (fits 10 300 1000) .invalidAnswers (javascriptTrim (u.nfkc value))

end Source

section Columns

/-- A text column with its `CHECK`: bounds in scalars, perhaps a bound in bytes
and equality with `btrim`. -/
structure TextColumn where
  least : ℕ
  most : ℕ
  octets : Option ℕ
  trimmed : Bool

/-- No text column stores the scalar zero. -/
def TextColumn.stores (column : TextColumn) (text : List Char) : Bool :=
  !text.any (· = '\x00') && decide (column.least ≤ text.length) &&
    decide (text.length ≤ column.most) && (column.octets.all fun most ↦ decide (utf8Len text ≤ most)) &&
    (!column.trimmed || trimMatches (· = ' ') text = text)

/-- `outbox_operator_action.reason` and `outbox_event.resolution_reason`. -/
def operatorReason : TextColumn := ⟨3, 500, none, false⟩

/-- `content_moderation_case.review_reason`. -/
def reviewReason : TextColumn := ⟨3, 500, some 1000, true⟩

/-- `user_profile_answer.answer`. -/
def profileAnswer : TextColumn := ⟨10, 300, some 1000, true⟩

/-- `profile_question.prompt`. -/
def questionPrompt : TextColumn := ⟨3, 200, some 500, true⟩

end Columns

section Lengths

variable {text out value : List Char} {u : Nfkc}

theorem validatorJsLength_le (text : List Char) : validatorJsLength text ≤ text.length := by
  induction text using validatorJsLength.induct with
  | case1 => exact le_refl 0
  | case2 c => exact le_refl 1
  | case3 c next rest hpair ih =>
      rw [validatorJsLength, if_pos hpair, List.length_cons, List.length_cons]
      omega
  | case4 c next rest hpair ih =>
      rw [validatorJsLength, if_neg hpair, List.length_cons]
      omega

/-- What `validator.js` leaves out. -/
theorem length_eq_add_attachedSelectors (text : List Char) :
    text.length = validatorJsLength text + attachedSelectors text := by
  unfold attachedSelectors
  induction text using validatorJsLength.induct with
  | case1 => rfl
  | case2 c => simp [validatorJsLength, selectorsAfter]
  | case3 c next rest hpair ih =>
      rw [validatorJsLength, if_pos hpair, List.length_cons, List.length_cons, ih]
      simp only [Bool.and_eq_true, Bool.not_eq_true'] at hpair
      simp only [selectorsAfter, hpair.1, hpair.2, Bool.false_and, Bool.true_and, Bool.not_false,
        Bool.not_true, Bool.false_eq_true, if_false, if_true]
      omega
  | case4 c next rest hpair ih =>
      rw [validatorJsLength, if_neg hpair, List.length_cons, ih]
      have hnext : (!isVariationSelector c && isVariationSelector next) = false :=
        Bool.eq_false_of_not_eq_true hpair
      simp only [selectorsAfter, hnext, Bool.false_and, Bool.false_eq_true, if_false]
      omega

theorem selectorsAfter_of_forall {text : List Char}
    (h : ∀ c ∈ text, isVariationSelector c = false) (base : Bool) : selectorsAfter base text = 0 := by
  induction text generalizing base with
  | nil => rfl
  | cons c rest ih =>
      have hc := h c List.mem_cons_self
      rw [selectorsAfter, ih fun d hd ↦ h d (List.mem_cons_of_mem c hd)]
      simp [hc]

/-- The first selector of a text is attached when something stands before
it. -/
theorem selectorsAfter_first {before after : List Char} {c : Char}
    (hbefore : ∀ d ∈ before, isVariationSelector d = false) (hc : isVariationSelector c = true)
    (base : Bool) : selectorsAfter base (before ++ c :: after) =
      (if base = true ∨ before ≠ [] then 1 else 0) + attachedSelectors after := by
  induction before generalizing base with
  | nil => simp [selectorsAfter, attachedSelectors, hc]
  | cons d rest ih =>
      have hd := hbefore d List.mem_cons_self
      have hrest := ih (fun e he ↦ hbefore e (List.mem_cons_of_mem d he)) (!isVariationSelector d)
      rw [List.cons_append, selectorsAfter, hrest, hd]
      simp

/-- A text up to its first selector, which it may lack. -/
theorem exists_first_selector (text : List Char) :
    (∀ c ∈ text, isVariationSelector c = false) ∨ ∃ before c after, text = before ++ c :: after ∧
      (∀ d ∈ before, isVariationSelector d = false) ∧ isVariationSelector c = true := by
  cases hfind : text.find? isVariationSelector with
  | none => exact Or.inl fun c hc ↦ by simpa using List.find?_eq_none.mp hfind c hc
  | some c =>
      obtain ⟨hc, before, after, rfl, hbefore⟩ := List.find?_eq_some_iff_append.mp hfind
      exact Or.inr ⟨before, c, after, rfl, fun d hd ↦ by simpa using hbefore d hd, hc⟩

theorem isVariationSelector_of_isJavascriptWhitespace {c : Char}
    (h : isJavascriptWhitespace c = true) : isVariationSelector c = false := by
  by_contra hc
  simp only [isVariationSelector, Bool.not_eq_false, Bool.or_eq_true, decide_eq_true_eq] at hc
  rcases hc with rfl | rfl <;> exact absurd h (by decide)

theorem selectorsAfter_append_blank {text after : List Char}
    (h : ∀ c ∈ after, isVariationSelector c = false) (base : Bool) :
    selectorsAfter base (text ++ after) = selectorsAfter base text := by
  induction text generalizing base with
  | nil => exact selectorsAfter_of_forall h base
  | cons c rest ih => rw [List.cons_append, selectorsAfter, selectorsAfter, ih]

/-- White space at the end of a text has no selectors. -/
theorem attachedSelectors_javascriptTrim (text : List Char) :
    attachedSelectors (javascriptTrim text) =
      attachedSelectors (text.dropWhile isJavascriptWhitespace) := by
  have hsplit := List.rdropWhile_append_rtakeWhile (p := isJavascriptWhitespace)
    (l := text.dropWhile isJavascriptWhitespace)
  have hblank : ∀ c ∈ (text.dropWhile isJavascriptWhitespace).rtakeWhile isJavascriptWhitespace,
      isVariationSelector c = false := fun c hc ↦
    isVariationSelector_of_isJavascriptWhitespace (List.mem_rtakeWhile_imp hc)
  rw [← hsplit]
  unfold attachedSelectors
  rw [selectorsAfter_append_blank hblank]
  rfl

/-- Trimming takes away what the first selector is attached to, or leaves
it. -/
theorem attachedSelectors_trim_first {before after : List Char} {c : Char}
    (hbefore : ∀ d ∈ before, isVariationSelector d = false) (hc : isVariationSelector c = true) :
    attachedSelectors (javascriptTrim (before ++ c :: after)) =
      (if before.all isJavascriptWhitespace then 0 else 1) + attachedSelectors after := by
  have hvisible : isJavascriptWhitespace c = false := by
    by_contra hspace
    rw [isVariationSelector_of_isJavascriptWhitespace (by simpa using hspace)] at hc
    cases hc
  rw [attachedSelectors_javascriptTrim, List.dropWhile_append]
  cases hall : before.all isJavascriptWhitespace with
  | true =>
      have hnil : before.dropWhile isJavascriptWhitespace = [] :=
        List.dropWhile_eq_nil_iff.mpr (List.all_eq_true.mp hall)
      have hempty : ∀ d ∈ ([] : List Char), isVariationSelector d = false := by simp
      rw [hnil, if_pos rfl, List.dropWhile_cons_of_neg (by simp [hvisible])]
      exact selectorsAfter_first hempty hc false
  | false =>
      have hne : before.dropWhile isJavascriptWhitespace ≠ [] := by
        intro hnil
        rw [List.all_eq_true.mpr (List.dropWhile_eq_nil_iff.mp hnil)] at hall
        cases hall
      rw [if_neg (by simpa using hne)]
      have hdropped : ∀ d ∈ before.dropWhile isJavascriptWhitespace,
          isVariationSelector d = false := fun d hd ↦
        hbefore d ((List.dropWhile_sublist _).subset hd)
      refine (selectorsAfter_first hdropped hc false).trans ?_
      simp [hne]

theorem accepted_eq_ok {ε : Type} {passes : List Char → Bool} {error : ε}
    (h : accepted passes error text = .ok out) : out = text ∧ passes text = true := by
  unfold accepted at h
  split at h
  · rename_i hpasses
    exact ⟨(Except.ok.inj h).symm, hpasses⟩
  · cases h

theorem btrim_javascriptTrim (text : List Char) :
    trimMatches (· = ' ') (javascriptTrim text) = javascriptTrim text :=
  trimMatches_trimMatches fun c hc ↦ by
    obtain rfl := of_decide_eq_true hc
    decide

theorem javascriptTrim_idem (text : List Char) :
    javascriptTrim (javascriptTrim text) = javascriptTrim text :=
  trimMatches_trimMatches fun _ hc ↦ hc

/-- A trimmed normalised text is normalised. -/
theorem nfkc_trim (hu : u.Lawful) (text : List Char) :
    u.nfkc (javascriptTrim (u.nfkc text)) = javascriptTrim (u.nfkc text) :=
  hu.part (u.nfkc text) _ (hu.idem text) ( trimMatches_infix _ _)

theorem nfkc_selector_free (hu : u.Lawful) (h : ∀ c ∈ text, isVariationSelector c = false) :
    ∀ c ∈ u.nfkc text, isVariationSelector c = false := by
  intro c hmem
  by_contra hc
  have hsel : isVariationSelector c = true := by simpa using hc
  rw [h c (hu.keeps text c (by simp [hsel]) hmem)] at hsel
  cases hsel

theorem attachedSelectors_nfkc (hu : u.Lawful) (text : List Char) :
    attachedSelectors (u.nfkc text) = attachedSelectors text := by
  induction hn : text.length using Nat.strong_induction_on generalizing text with
  | _ n ih =>
      rcases exists_first_selector text with hnone | ⟨before, c, after, rfl, hbefore, hc⟩
      · exact (selectorsAfter_of_forall (nfkc_selector_free hu hnone) false).trans
          (selectorsAfter_of_forall hnone false).symm
      · have hlt : after.length < n := by
          rw [← hn, List.length_append, List.length_cons]
          omega
        have hafter := ih after.length hlt after rfl
        rw [hu.splits before c after (by simp [hc])]
        unfold attachedSelectors
        rw [selectorsAfter_first (nfkc_selector_free hu hbefore) hc,
          selectorsAfter_first hbefore hc, hafter]
        simp only [ne_eq, hu.empty]

/-- Normalising a text leaves what its selectors are attached to, also when it
is trimmed. -/
theorem attachedSelectors_trim_nfkc (hu : u.Lawful) (text : List Char) :
    attachedSelectors (javascriptTrim (u.nfkc text)) = attachedSelectors (javascriptTrim text) := by
  have hfree : ∀ {text : List Char}, (∀ c ∈ text, isVariationSelector c = false) →
      attachedSelectors (javascriptTrim text) = 0 := fun h ↦
    selectorsAfter_of_forall (fun c hc ↦ h c (( trimMatches_infix _ _).subset hc)) false
  rcases exists_first_selector text with hnone | ⟨before, c, after, rfl, hbefore, hc⟩
  · rw [hfree hnone, hfree (nfkc_selector_free hu hnone)]
  · rw [hu.splits before c after (by simp [hc]),
      attachedSelectors_trim_first (nfkc_selector_free hu hbefore) hc,
      attachedSelectors_trim_first hbefore hc, hu.blank, attachedSelectors_nfkc hu]

theorem zero_mem_nfkc_iff (hu : u.Lawful) (text : List Char) :
    '\x00' ∈ u.nfkc text ↔ '\x00' ∈ text := by
  refine ⟨hu.keeps text '\x00' (by simp), fun h ↦ ?_⟩
  obtain ⟨before, after, rfl⟩ := List.append_of_mem h
  rw [hu.splits before '\x00' after (by simp)]
  exact List.mem_append_right _ List.mem_cons_self

theorem zero_mem_javascriptTrim_iff (text : List Char) :
    '\x00' ∈ javascriptTrim text ↔ '\x00' ∈ text := by
  refine ⟨fun h ↦ ( trimMatches_infix _ _).subset h, fun h ↦ ?_⟩
  exact (mem_trimMatches_or h).resolve_right (by decide)

theorem not_mem_zero_of_not_control (h : hasControlCharacter text = false) :
    text.any (· = '\x00') = false := by
  rw [List.any_eq_false]
  rintro c hc hzero
  obtain rfl := of_decide_eq_true hzero
  have hcontrol := List.any_eq_false.mp h _ hc
  exact hcontrol (by decide)

end Lengths

section Accepted

variable {u : Nfkc} {value out : List Char}

/-- An accepted text has at most 500 scalars when its selectors fit into what
`validator.js` leaves of the bound. -/
theorem length_le_iff (h : validatorJsLength out ≤ 500) :
    out.length ≤ 500 ↔ attachedSelectors out ≤ 500 - validatorJsLength out := by
  rw [length_eq_add_attachedSelectors out]
  omega

theorem normalizeReason_stores (hu : u.Lawful) (h : normalizeReason u value = .ok out) :
    operatorReason.stores out = true ↔ attachedSelectors (javascriptTrim value) ≤
      500 - validatorJsLength (javascriptTrim (u.nfkc (javascriptTrim value))) := by
  obtain ⟨rfl, hpasses⟩ := accepted_eq_ok h
  have hselectors := attachedSelectors_trim_nfkc hu (javascriptTrim value)
  rw [javascriptTrim_idem] at hselectors
  rw [← hselectors]
  generalize javascriptTrim (u.nfkc (javascriptTrim value)) = text at hpasses
  simp only [Bool.and_eq_true, decide_eq_true_eq, Bool.not_eq_true'] at hpasses
  obtain ⟨⟨hleast, hmost⟩, hcontrol⟩ := hpasses
  have hlength : 3 ≤ text.length := hleast.trans (validatorJsLength_le text)
  have hzero : text.any (· = '\x00') = false := by
    rw [List.any_eq_false] at hcontrol ⊢
    rintro c hc hzero
    obtain rfl := of_decide_eq_true hzero
    exact hcontrol _ hc (by decide)
  simp only [TextColumn.stores, operatorReason, hzero, hlength, Option.all_none, Bool.not_false,
    Bool.true_or, Bool.and_true, decide_true, Bool.true_and]
  exact decide_eq_true_iff.trans (length_le_iff hmost)

theorem normalizeModerationReason_stores (hu : u.Lawful)
    (h : normalizeModerationReason u value = .ok out) :
    reviewReason.stores out = true ↔ attachedSelectors (javascriptTrim value) ≤
      500 - validatorJsLength (javascriptTrim (u.nfkc value)) ∧ '\x00' ∉ value := by
  obtain ⟨rfl, hpasses⟩ := accepted_eq_ok h
  have htrim := btrim_javascriptTrim (u.nfkc value)
  rw [← attachedSelectors_trim_nfkc hu, ← zero_mem_nfkc_iff hu, ← zero_mem_javascriptTrim_iff]
  generalize javascriptTrim (u.nfkc value) = text at hpasses htrim
  simp only [Bool.and_eq_true, decide_eq_true_eq] at hpasses
  obtain ⟨⟨hleast, hmost⟩, hbytes⟩ := hpasses
  have hlength : 3 ≤ text.length := hleast.trans (validatorJsLength_le text)
  have hzero : text.any (· = '\x00') = false ↔ '\x00' ∉ text := by
    rw [List.any_eq_false]
    refine ⟨fun h hmem ↦ h _ hmem (by decide), fun h c hc heq ↦ ?_⟩
    obtain rfl := of_decide_eq_true heq
    exact h hc
  simp only [TextColumn.stores, reviewReason, htrim, hlength, hbytes, Option.all_some, decide_true,
    Bool.or_true, Bool.and_true, Bool.and_eq_true, Bool.not_eq_true', hzero]
  exact and_comm.trans (and_congr_left' (decide_eq_true_iff.trans (length_le_iff hmost)))

/-- Texts that fit are stored by a column with the same bounds. -/
theorem stores_of_fits {least most bytes : ℕ} {text : List Char} (h : fits least most bytes text = true)
    (htrim : trimMatches (· = ' ') text = text) :
    (TextColumn.mk least most (some bytes) true).stores text = true := by
  simp only [fits, Bool.and_eq_true, decide_eq_true_eq, Bool.not_eq_true'] at h
  obtain ⟨⟨⟨hleast, hmost⟩, hbytes⟩, hcontrol⟩ := h
  have hzero := not_mem_zero_of_not_control hcontrol
  simp [TextColumn.stores, htrim, hzero, hleast, hmost, hbytes]

theorem normalizeAnswer_stores (h : normalizeAnswer u value = .ok out) :
    profileAnswer.stores out = true := by
  obtain ⟨rfl, hpasses⟩ := accepted_eq_ok h
  exact stores_of_fits hpasses (btrim_javascriptTrim _)

theorem normalizeQuestionPrompt_stores (h : normalizeQuestionPrompt u value = .ok out) :
    questionPrompt.stores out = true := by
  obtain ⟨rfl, hpasses⟩ := accepted_eq_ok h
  exact stores_of_fits hpasses (btrim_javascriptTrim _)

/-- What a normaliser has accepted it accepts again, unchanged. -/
theorem accepted_again {ε : Type} {passes : List Char → Bool} {error : ε} (hu : u.Lawful)
    (h : accepted passes error (javascriptTrim (u.nfkc value)) = .ok out) :
    accepted passes error (javascriptTrim (u.nfkc out)) = .ok out ∧
      accepted passes error (javascriptTrim (u.nfkc (javascriptTrim out))) = .ok out := by
  obtain ⟨rfl, hpasses⟩ := accepted_eq_ok h
  have hagain : accepted passes error (javascriptTrim (u.nfkc value)) =
      .ok (javascriptTrim (u.nfkc value)) := if_pos hpasses
  refine ⟨?_, ?_⟩
  · rw [nfkc_trim hu, javascriptTrim_idem, hagain]
  · rw [javascriptTrim_idem, nfkc_trim hu, javascriptTrim_idem, hagain]

/-- Texts whose scalars have no decomposition. -/
def plainNfkc : Nfkc := ⟨id⟩

/-- A heart in emoji presentation is one character and two scalars. -/
def heart : List Char := ['❤', '\uFE0F']

end Accepted

end Histae.Shared
