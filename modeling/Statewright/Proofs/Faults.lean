import Statewright.Proofs.Messages

/-!
# Faults of one line

What is wrong with the form of a JSON text is said without citing the text. Decoders cite what they
met: texts are quoted with their line breaks escaped, and numbers have none. Only the reason of a
refusal stands in a fault as it is.
-/

open Statewright.Text Statewright.Fallible

namespace Statewright

/-! ## Numbers as they are shown -/

namespace Decimal

theorem lineBreak_not_mem_digits (d : Decimal) : '\n' ∉ d.digits :=
  lineBreak_not_mem_toDigits (by decide) (by decide) d.significand

theorem lineBreak_not_mem_zeros (n : Nat) : '\n' ∉ zeros n :=
  fun hmem => absurd (List.eq_of_mem_replicate hmem) (by decide)

theorem lineBreak_not_mem_positional (d : Decimal) :
    '\n' ∉ d.positional.1 ∧ '\n' ∉ d.positional.2 := by
  have hdigits := d.lineBreak_not_mem_digits
  unfold positional
  dsimp only
  split
  · rw [List.mem_append, not_or]
    exact ⟨⟨hdigits, lineBreak_not_mem_zeros _⟩, List.not_mem_nil⟩
  · split
    · exact ⟨fun hmem => hdigits (List.mem_of_mem_take hmem),
        fun hmem => hdigits (List.mem_of_mem_drop hmem)⟩
    · rw [List.mem_append, not_or]
      exact ⟨(by decide : '\n' ∉ ['0']), lineBreak_not_mem_zeros _, hdigits⟩

@[simp]
theorem isLine_sign (negative : Bool) : IsLine (sign negative) := by
  cases negative
  all_goals decide

theorem isLine_scientificText (x : Float) : IsLine (scientificText x) := by
  unfold scientificText
  split
  · decide
  · exact isLine_append.mpr ⟨isLine_sign _, by decide⟩
  · exact isLine_append.mpr ⟨isLine_sign _, by decide⟩
  · next d _ =>
    obtain ⟨hwhole, hfraction⟩ := d.lineBreak_not_mem_positional
    have hdigits := d.lineBreak_not_mem_digits
    dsimp only
    split
    · refine isLine_append.mpr ⟨?_, ?_⟩
      · simp +decide [isLine_ofList, hwhole]
      · split
        · decide
        · exact isLine_ofList.mpr hfraction
    · have hpower := lineBreak_not_mem_toDigits (by decide : 0 < 10) (by decide)
        (d.exponent + (d.digits.length - 1)).natAbs
      refine isLine_append.mpr ⟨isLine_append.mpr ⟨isLine_append.mpr ⟨isLine_append.mpr
        ⟨isLine_sign _, ?_⟩, by decide⟩, ?_⟩, isLine_ofList.mpr hpower⟩
      · rw [isLine_ofList]
        split
        · exact List.not_mem_nil
        · next hds => exact hds ▸ hdigits
        · next c rest hds =>
          rw [hds, List.mem_cons, not_or] at hdigits
          rw [List.mem_cons, List.mem_cons, not_or, not_or]
          exact ⟨hdigits.1, by decide, hdigits.2⟩
      · split
        all_goals decide

end Decimal

namespace Json

/-! ## The form of a text -/

def Fault.cause : Fault → Cause
  | placed cause _ => cause
  | unplaced cause _ => cause

/-- Whether a cause says what is wrong with the form of a text, and cites nothing. -/
def Cause.isLexical : Cause → Bool
  | wrongType _ _ | wrongValue _ _ | wrongLength _ _ | missingField _ | duplicateField _
  | unknownVariant _ _ | refused _ => false
  | _ => true

/-- Whether a reader fails only where the form of the text is wrong. -/
def Lexical {α : Type} (x : Except Fault α) : Prop :=
  FailsWith (fun f => f.cause.isLexical = true) x

theorem lexical_ok {α : Type} {a : α} : Lexical (.ok a) :=
  failsWith_ok

theorem lexical_error {α : Type} {f : Fault} (h : f.cause.isLexical = true) :
    Lexical (.error f : Except Fault α) :=
  failsWith_error h

theorem Lexical.bind {α β : Type} {x : Except Fault α} {f : α → Except Fault β} (h : Lexical x)
    (hf : ∀ a, Lexical (f a)) : Lexical (x >>= f) :=
  FailsWith.bind h hf

theorem lexical_word (letters cs : List Char) : Lexical (word letters cs) := by
  fun_induction word letters cs with
  | case1 => exact lexical_ok
  | case2 => exact lexical_error rfl
  | case3 _ _ _ ih => exact ih
  | case4 => exact lexical_error rfl

/-! ### Texts -/

theorem lexical_hexEscape (cs : List Char) : Lexical (hexEscape cs) := by
  unfold hexEscape
  dsimp only
  split
  · exact lexical_ok
  · split
    · exact lexical_error rfl
    · exact lexical_error rfl

theorem lexical_pairPart (expected : Char) (cs : List Char) : Lexical (pairPart expected cs) := by
  unfold pairPart
  split
  · exact lexical_error rfl
  · split
    · exact lexical_ok
    · exact lexical_error rfl

theorem lexical_codePoint (cs : List Char) : Lexical (codePoint cs) := by
  unfold codePoint
  refine (lexical_hexEscape cs).bind (fun (n, cs) => ?_)
  dsimp only
  split
  · exact lexical_error rfl
  · split
    · refine (lexical_pairPart '\\' cs).bind (fun ((), cs) => ?_)
      refine (lexical_pairPart 'u' cs).bind (fun ((), cs) => ?_)
      refine (lexical_hexEscape cs).bind (fun (m, cs) => ?_)
      dsimp only
      split
      · exact lexical_ok
      · exact lexical_error rfl
    · exact lexical_ok

theorem lexical_escape (cs : List Char) : Lexical (escape cs) := by
  unfold escape
  split
  · exact lexical_error rfl
  · exact lexical_codePoint _
  · split
    · exact lexical_ok
    · exact lexical_error rfl

theorem lexical_textBody (fuel : Nat) (cs : List Char) : Lexical (textBody fuel cs) := by
  induction fuel generalizing cs with
  | zero => exact lexical_error rfl
  | succ fuel ih =>
    cases cs with
    | nil => exact lexical_error rfl
    | cons c cs =>
      rw [textBody]
      split
      · exact lexical_ok
      · split
        · exact (lexical_escape cs).bind (fun _ => (ih _).bind (fun _ => lexical_ok))
        · split
          · exact lexical_error rfl
          · exact (ih cs).bind (fun _ => lexical_ok)

theorem lexical_text (cs : List Char) : Lexical (text cs) :=
  (lexical_textBody _ cs).bind (fun _ => lexical_ok)

/-! ### Numbers -/

theorem lexical_floatOf (negative : Bool) (significand : Nat) (exponent : Int)
    (rest : List Char) : Lexical (floatOf negative significand exponent rest) := by
  unfold floatOf
  split
  · exact lexical_ok
  · exact lexical_error rfl

theorem lexical_power (negative : Bool) (significand : Nat) (start : Int) (cs : List Char) :
    Lexical (power negative significand start cs) := by
  unfold power
  dsimp only
  split
  · exact lexical_error rfl
  · exact lexical_error rfl
  · split
    · -- Whatever its sign is, the power is too large.
      split
      all_goals
        split
        · exact lexical_error rfl
        · exact lexical_ok
    · exact lexical_floatOf _ _ _ _

theorem lexical_fraction (negative : Bool) (significand : Nat) (start : Int) (cs : List Char) :
    Lexical (fraction negative significand start cs) := by
  unfold fraction
  dsimp only
  split
  · split
    · exact lexical_error rfl
    · exact lexical_error rfl
  · split
    · exact lexical_power _ _ _ _
    · exact lexical_power _ _ _ _
    · exact lexical_floatOf _ _ _ _

theorem lexical_afterWhole (negative : Bool) (significand dropped : Nat) (cs : List Char) :
    Lexical (afterWhole negative significand dropped cs) := by
  unfold afterWhole
  split
  · exact lexical_fraction _ _ _ _
  · exact lexical_power _ _ _ _
  · exact lexical_power _ _ _ _
  · split
    · exact lexical_floatOf _ _ _ _
    · split
      · exact lexical_ok
      · split
        · exact lexical_ok
        · exact lexical_ok

theorem lexical_number (negative : Bool) (cs : List Char) : Lexical (number negative cs) := by
  unfold number
  split
  · exact lexical_error rfl
  · split
    · split
      · exact lexical_error rfl
      · exact lexical_afterWhole _ _ _ _
    · exact lexical_afterWhole _ _ _ _
  · split
    · exact lexical_afterWhole _ _ _ _
    · exact lexical_error rfl

/-! ### Values that are passed over -/

theorem lexical_skipEscape (cs : List Char) : Lexical (skipEscape cs) := by
  unfold skipEscape
  split
  · exact lexical_error rfl
  · exact FailsWith.map (lexical_hexEscape _) _
  · split
    · exact lexical_ok
    · exact lexical_error rfl

theorem lexical_skipTextBody (fuel : Nat) (cs : List Char) : Lexical (skipTextBody fuel cs) := by
  induction fuel generalizing cs with
  | zero => exact lexical_error rfl
  | succ fuel ih =>
    cases cs with
    | nil => exact lexical_error rfl
    | cons c cs =>
      rw [skipTextBody]
      split
      · exact lexical_ok
      · split
        · exact (lexical_skipEscape cs).bind (fun _ => ih _)
        · split
          · exact lexical_error rfl
          · exact ih cs

theorem lexical_skipPower (cs : List Char) : Lexical (skipPower cs) := by
  unfold skipPower
  dsimp only
  split
  · exact lexical_error rfl
  · exact lexical_ok

theorem lexical_skipAfterWhole (cs : List Char) : Lexical (skipAfterWhole cs) := by
  unfold skipAfterWhole
  split
  · split
    · exact lexical_error rfl
    · exact lexical_skipPower _
    · exact lexical_skipPower _
    · exact lexical_ok
  · exact lexical_skipPower _
  · exact lexical_skipPower _
  · exact lexical_ok

theorem lexical_skipNumber (cs : List Char) : Lexical (skipNumber cs) := by
  unfold skipNumber
  split
  · split
    · exact lexical_error rfl
    · exact lexical_skipAfterWhole _
  · split
    · exact lexical_error rfl
    · exact lexical_skipAfterWhole _

theorem lexical_skipKey (cs : List Char) : Lexical (skipKey cs) := by
  unfold skipKey
  split
  · exact lexical_error rfl
  · refine (lexical_skipTextBody _ _).bind (fun ((), cs) => ?_)
    dsimp only
    split
    · exact lexical_error rfl
    · exact lexical_ok
    · exact lexical_error rfl
  · exact lexical_error rfl

theorem lexical_skipScalar (cs : List Char) : Lexical (skipScalar cs) := by
  unfold skipScalar
  split
  · exact lexical_word _ _
  · exact lexical_word _ _
  · exact lexical_word _ _
  · exact lexical_skipNumber _
  · exact lexical_skipTextBody _ _
  · split
    · exact lexical_skipNumber _
    · exact lexical_error rfl
  · exact lexical_error rfl

theorem lexical_skipFrom (fuel : Nat) (due : Due) (frames : List Frame) (cs : List Char) :
    Lexical (skipFrom fuel due frames cs) := by
  fun_induction skipFrom fuel due frames cs
  -- The fuel runs out, or the text ends or does not go on as the innermost frame asks.
  case case1 | case8 | case9 | case14 | case15 => exact lexical_error rfl
  case case5 => exact lexical_ok
  case case4 ih => exact (lexical_skipScalar _).bind (fun ((), cs) => ih cs)
  case case7 ih => exact (lexical_skipKey _).bind (fun ((), cs) => ih cs)
  case case2 ih | case3 ih | case6 ih | case10 ih | case11 ih | case12 ih | case13 ih => exact ih

theorem lexical_skipValue (cs : List Char) : Lexical (skipValue cs) :=
  lexical_skipFrom _ _ _ cs

/-! ## What decoders cite -/

/-- Whether a cause is told in one line, or is a refusal for a reason of the given kind. -/
def Cause.Told (R : String → Prop) (c : Cause) : Prop :=
  IsLine c.message ∨ ∃ reason, R reason ∧ c = .refused reason

theorem Cause.isLine_of_isLexical {c : Cause} (h : c.isLexical = true) : IsLine c.message := by
  cases c with
  | wrongType | wrongValue | wrongLength | missingField | duplicateField | unknownVariant
  | refused => cases h
  | _ => decide

@[simp]
theorem Cause.isLine_wrongType {found : Found} {expected : String} :
    IsLine (wrongType found expected).message ↔ IsLine found.message ∧ IsLine expected := by
  unfold message
  simp +decide

@[simp]
theorem Cause.isLine_wrongValue {found : Found} {expected : String} :
    IsLine (wrongValue found expected).message ↔ IsLine found.message ∧ IsLine expected := by
  unfold message
  simp +decide

@[simp]
theorem Cause.isLine_wrongLength {found : Nat} {expected : String} :
    IsLine (wrongLength found expected).message ↔ IsLine expected := by
  unfold message
  simp +decide

@[simp]
theorem Cause.isLine_missingField {name : String} :
    IsLine (missingField name).message ↔ IsLine name := by
  unfold message
  simp +decide

@[simp]
theorem Cause.isLine_duplicateField {name : String} :
    IsLine (duplicateField name).message ↔ IsLine name := by
  unfold message
  simp +decide

-- A text is quoted, so that its line breaks are escaped.
theorem Found.isLine_text (s : String) : IsLine (text s).message := by
  unfold message
  simp +decide

theorem Found.isLine_integer (n : Int) : IsLine (integer n).message := by
  unfold message
  simp +decide

theorem Number.isLine_found (n : Number) : IsLine n.found.message := by
  cases n with
  | natural n | negative n => exact Found.isLine_integer _
  | float x =>
    unfold found Found.message
    simp +decide [Decimal.isLine_scientificText]

section

variable {α β δ : Type} {R : String → Prop}

/-- Whether every fault of a reader is told in one line, or is a refusal for a reason of the given
kind. -/
def Told (R : String → Prop) (x : Except Fault α) : Prop :=
  FailsWith (fun f => f.cause.Told R) x

theorem told_ok {a : α} : Told R (.ok a) :=
  failsWith_ok

theorem told_error {f : Fault} (h : f.cause.Told R) : Told R (.error f : Except Fault α) :=
  failsWith_error h

theorem told_error_of_isLine {f : Fault} (h : IsLine f.cause.message) :
    Told R (.error f : Except Fault α) :=
  failsWith_error (.inl h)

theorem Lexical.told {x : Except Fault α} (h : Lexical x) : Told R x :=
  h.mono (fun _ hf => .inl (Cause.isLine_of_isLexical hf))

theorem Told.bind {x : Except Fault α} {f : α → Except Fault β} (h : Told R x)
    (hf : ∀ a, Told R (f a)) : Told R (x >>= f) :=
  FailsWith.bind h hf

theorem Told.map {x : Except Fault α} (h : Told R x) (f : α → β) : Told R (x.map f) :=
  FailsWith.map h f

/-! ### Scalars -/

theorem isLine_cite {expected : String} (hexpected : IsLine expected)
    {x : Except Fault (α × List Char)} (hx : Lexical x) (shown : α → Found)
    (hshown : ∀ a, IsLine (shown a).message) :
    IsLine (Fault.cause (match x.map (fun (a, rest) => (shown a, rest)) with
      | .ok (found, rest) => .here (.wrongType found expected) rest
      | .error fault => fault)).message := by
  cases x with
  | error fault => exact Cause.isLine_of_isLexical (hx fault rfl)
  | ok r => exact Cause.isLine_wrongType.mpr ⟨hshown r.1, hexpected⟩

theorem isLine_wrongShape {expected : String} (hexpected : IsLine expected) (cs : List Char) :
    IsLine (wrongShape expected cs).cause.message := by
  unfold wrongShape citedNumber
  dsimp only
  split
  · exact isLine_cite hexpected (lexical_word _ _) (fun _ => .null) (fun _ => by decide)
  · exact isLine_cite hexpected (lexical_word _ _) (fun _ => .boolean true) (fun _ => by decide)
  · exact isLine_cite hexpected (lexical_word _ _) (fun _ => .boolean false) (fun _ => by decide)
  · exact isLine_cite hexpected (lexical_number _ _) Number.found Number.isLine_found
  · exact isLine_cite hexpected (lexical_text _) Found.text Found.isLine_text
  · exact Cause.isLine_wrongType.mpr ⟨by decide, hexpected⟩
  · exact Cause.isLine_wrongType.mpr ⟨by decide, hexpected⟩
  · split
    · exact isLine_cite hexpected (lexical_number _ _) Number.found Number.isLine_found
    · exact (by decide : IsLine Cause.expectedValue.message)
  · exact (by decide : IsLine Cause.expectedValue.message)

namespace Decoder

theorem told_textAs {expected : String} {read : String → Except Cause α}
    (hexpected : IsLine expected) (hread : ∀ s, FailsWith (Cause.Told R) (read s))
    (cs : List Char) : Told R (textAs expected read cs) := by
  unfold textAs
  split
  · exact (lexical_error rfl).told
  · refine (lexical_text _).told.bind (fun (s, rest) => ?_)
    dsimp only
    split
    · exact told_ok
    · next cause hcause => exact told_error (hread s cause hcause)
  · exact told_error_of_isLine (isLine_wrongShape hexpected _)

theorem told_string (cs : List Char) : Told R (string cs) :=
  told_textAs (by decide) (fun _ => failsWith_ok) cs

theorem told_char (cs : List Char) : Told R (char cs) := by
  refine told_textAs (by decide) (fun s => ?_) cs
  split
  · exact failsWith_ok
  · exact failsWith_error (.inl (Cause.isLine_wrongValue.mpr ⟨Found.isLine_text s, by decide⟩))

theorem told_natural32 (cs : List Char) : Told R (natural32 cs) := by
  unfold natural32
  dsimp only
  split
  · exact (lexical_error rfl).told
  rotate_left
  refine iteInduction (fun _ => ?_)
    (fun _ => told_error_of_isLine (isLine_wrongShape (by decide) _))
  -- A number is taken in the same way with a sign and without.
  all_goals
    refine (lexical_number _ _).told.bind (fun x => ?_)
    obtain ⟨n, rest⟩ := x
    cases n with
    | natural n =>
      dsimp only
      split
      · exact told_ok
      · exact told_error_of_isLine
          (Cause.isLine_wrongValue.mpr ⟨Found.isLine_integer _, by decide⟩)
    | negative n =>
      exact told_error_of_isLine
        (Cause.isLine_wrongValue.mpr ⟨Found.isLine_integer _, by decide⟩)
    | float x =>
      exact told_error_of_isLine (Cause.isLine_wrongType.mpr ⟨Number.isLine_found _, by decide⟩)

theorem told_nullable {d : Decoder α} (hd : ∀ cs, Told R (d cs)) (cs : List Char) :
    Told R (nullable d cs) := by
  unfold nullable
  split
  · exact (lexical_word _ _).told.map _
  · exact (hd _).map _

theorem told_refine {d : Decoder α} {read : α → Except String β} (hd : ∀ cs, Told R (d cs))
    (hread : ∀ a, FailsWith (fun reason => IsLine reason ∨ R reason) (read a)) (cs : List Char) :
    Told R (refine d read cs) := by
  unfold refine
  refine (hd cs).bind (fun (a, rest) => ?_)
  dsimp only
  split
  · exact told_ok
  · next reason hreason =>
    rcases hread a reason hreason with hline | hR
    · exact told_error_of_isLine hline
    · exact told_error (.inr ⟨reason, hR, rfl⟩)

/-! ### Lists and records -/

theorem lexical_endList {cs rest : List Char} {f : Fault} (h : endList cs = (rest, some f)) :
    f.cause.isLexical = true := by
  unfold endList at h
  split at h
  · cases h
    rfl
  · cases h
  · split at h
    · cases h
      rfl
    · cases h
      rfl
  · cases h
    rfl

theorem lexical_endObject {cs rest : List Char} {f : Fault} (h : endObject cs = (rest, some f)) :
    f.cause.isLexical = true := by
  unfold endObject at h
  split at h
  · cases h
    rfl
  · cases h
  · cases h
    rfl
  · cases h
    rfl

theorem told_closeWith {search : List Char → List Char × Option Fault}
    (hsearch : ∀ {cs rest f}, search cs = (rest, some f) → f.cause.isLexical = true)
    {entries : Except Fault (α × List Char)} (h : Told R entries) :
    Told R (closeWith search entries) := by
  unfold closeWith
  split
  · split
    · exact told_ok
    · next hfault => exact (lexical_error (hsearch hfault)).told
  · next cause rest => exact told_error (h (.unplaced cause rest) rfl)
  · next fault _ => exact told_error (h fault rfl)

theorem lexical_nextElement? (isFirst : Bool) (cs : List Char) :
    Lexical (nextElement? isFirst cs) := by
  unfold nextElement?
  split
  · exact lexical_error rfl
  · exact lexical_ok
  · split
    · exact lexical_ok
    · split
      · split
        · exact lexical_error rfl
        · exact lexical_error rfl
        · exact lexical_ok
      · exact lexical_error rfl

theorem told_elements {d : Decoder α} (hd : ∀ cs, Told R (d cs)) (fuel : Nat) (isFirst : Bool)
    (cs : List Char) : Told R (elements d fuel isFirst cs) := by
  induction fuel generalizing isFirst cs with
  | zero => exact (lexical_error rfl).told
  | succ fuel ih =>
    unfold elements
    refine (lexical_nextElement? isFirst cs).told.bind (fun front? => ?_)
    split
    · exact told_ok
    · exact (hd _).bind (fun (a, rest) => (ih false rest).bind (fun _ => told_ok))

theorem told_list {d : Decoder α} (hd : ∀ cs, Told R (d cs)) (cs : List Char) :
    Told R (list d cs) := by
  unfold list
  split
  · exact (lexical_error rfl).told
  · exact told_closeWith lexical_endList (told_elements hd _ _ _)
  · exact told_error_of_isLine (isLine_wrongShape (by decide) _)

theorem told_of {name : String} {get : δ → Option α} {set : δ → α → δ} {d : Decoder α}
    (hd : ∀ cs, Told R (d cs)) (draft : δ) (cs : List Char) :
    Told R ((Field.of name get set d).read draft cs) :=
  (hd cs).map _

theorem failsWith_need {name : String} (h : IsLine name) (o : Option α) :
    FailsWith (Cause.Told R) (need name o) := by
  cases o with
  | none => exact failsWith_error (.inl (Cause.isLine_missingField.mpr h))
  | some a => exact failsWith_ok

/-- Whether a record is named in one line, and so are its fields, and what its fields refuse it
refuses for reasons of the given kind. -/
structure Shape.Told (R : String → Prop) (shape : Shape δ α) : Prop where
  label : IsLine shape.label
  names : ∀ f ∈ shape.fields, IsLine f.name
  fields : ∀ f ∈ shape.fields, ∀ draft cs, Json.Told R (f.read draft cs)
  finish : ∀ draft, FailsWith (Cause.Told R) (shape.finish draft)

variable {shape : Shape δ α}

theorem Shape.Told.isLine_sized (h : shape.Told R) : IsLine shape.sized := by
  unfold sized
  simp +decide [h.label]

theorem told_fieldsInOrder (h : shape.Told R) {fields : List (Field δ)}
    (hfields : ∀ f ∈ fields, f ∈ shape.fields) (index : Nat) (draft : δ) (cs : List Char) :
    Told R (fieldsInOrder shape fields index draft cs) := by
  induction fields generalizing index draft cs with
  | nil => exact told_ok
  | cons f fs ih =>
    obtain ⟨hf, hfs⟩ := List.forall_mem_cons.mp hfields
    unfold fieldsInOrder
    refine (lexical_nextElement? _ cs).told.bind (fun front? => ?_)
    split
    · split
      · exact told_ok
      · exact told_error_of_isLine (Cause.isLine_wrongLength.mpr h.isLine_sized)
    · exact (h.fields f hf draft _).bind (fun (draft, rest) => ih hfs _ draft rest)

theorem lexical_nextKey? (isFirst : Bool) (cs : List Char) : Lexical (nextKey? isFirst cs) := by
  unfold nextKey?
  split
  · exact lexical_error rfl
  · exact lexical_ok
  · split
    · split
      · exact lexical_ok
      · exact lexical_error rfl
    · split
      · split
        · exact lexical_error rfl
        · exact lexical_ok
        · exact lexical_error rfl
        · exact lexical_error rfl
      · exact lexical_error rfl

theorem lexical_colon (cs : List Char) : Lexical (colon cs) := by
  unfold colon
  split
  · exact lexical_error rfl
  · exact lexical_ok
  · exact lexical_error rfl

theorem told_fieldsByName (h : shape.Told R) (fuel : Nat) (isFirst : Bool) (draft : δ)
    (cs : List Char) : Told R (fieldsByName shape fuel isFirst draft cs) := by
  induction fuel generalizing isFirst draft cs with
  | zero => exact (lexical_error rfl).told
  | succ fuel ih =>
    unfold fieldsByName
    refine (lexical_nextKey? isFirst cs).told.bind (fun front? => ?_)
    split
    · exact told_ok
    · refine (lexical_text _).told.bind (fun (name, rest) => ?_)
      dsimp only
      split
      · next f hfind =>
        have hf := List.mem_of_find?_eq_some hfind
        have hname : f.name = name := by simpa using List.find?_some hfind
        split
        · -- The name was found among those of the fields.
          exact told_error_of_isLine (Cause.isLine_duplicateField.mpr (hname ▸ h.names f hf))
        · refine (lexical_colon rest).told.bind (fun ((), rest) => ?_)
          exact (h.fields f hf draft rest).bind (fun (draft, rest) => ih false draft rest)
      · refine (lexical_colon rest).told.bind (fun ((), rest) => ?_)
        exact (lexical_skipValue rest).told.bind (fun ((), rest) => ih false draft rest)

theorem told_assemble (h : shape.Told R) {draft : Except Fault (δ × List Char)}
    (hdraft : Json.Told R draft) : Json.Told R (assemble shape draft) := by
  unfold assemble
  refine hdraft.bind (fun (draft, rest) => ?_)
  dsimp only
  split
  · exact told_ok
  · next cause hcause => exact told_error (h.finish draft cause hcause)

theorem told_record (h : shape.Told R) (cs : List Char) : Json.Told R (record shape cs) := by
  unfold record
  split
  · exact (lexical_error rfl).told
  · exact told_closeWith lexical_endList
      (told_assemble h (told_fieldsInOrder h (fun _ hf => hf) 0 _ _))
  · exact told_closeWith lexical_endObject (told_assemble h (told_fieldsByName h _ _ _ _))
  · exact told_error_of_isLine (isLine_wrongShape h.label _)

/-! ### Whole texts -/

theorem told_decode {d : Decoder α} (hd : ∀ cs, Told R (d cs)) (source : String) :
    FailsWith (fun e => e.cause.Told R) (decode d source) := by
  have hcause : ∀ f, (Error.ofFault source.toList f).cause = f.cause := by
    intro f
    cases f
    all_goals rfl
  unfold decode
  dsimp only
  split
  · next fault hfault =>
    refine failsWith_error ?_
    rw [hcause]
    exact hd _ fault hfault
  · split
    · exact failsWith_ok
    · exact failsWith_error (.inl (by decide : IsLine Cause.trailingCharacters.message))

end Decoder

end

end Json

end Statewright
