import Statewright.Json.Skip

/-!
# Decoding JSON

A decoder reads one value of a known shape straight off the text. Texts, numbers, lists, records and
variants are the shapes; a record is an object of named fields or the list of their values in order.
The first fault in reading order is reported. After a list or record was refused, its end is still
looked for, and a fault without a place is put where that search stopped.
-/

namespace Statewright.Json

abbrev Decoder (α : Type) := Scan α

def citedNumber (negative : Bool) (cs : List Char) : Except Fault (Found × List Char) :=
  (number negative cs).map (fun (n, rest) => (n.found, rest))

/-- The fault of a value with another shape than expected. A scalar is read first, so that a fault
inside it comes before, and the place is past it. -/
def wrongShape (expected : String) (cs : List Char) : Fault :=
  let cite (scan : Except Fault (Found × List Char)) : Fault :=
    match scan with
    | .ok (found, rest) => .here (.wrongType found expected) rest
    | .error fault => fault
  match cs with
  | 'n' :: rest => cite ((word "ull".toList rest).map (fun (_, r) => (.null, r)))
  | 't' :: rest => cite ((word "rue".toList rest).map (fun (_, r) => (.boolean true, r)))
  | 'f' :: rest => cite ((word "alse".toList rest).map (fun (_, r) => (.boolean false, r)))
  | '-' :: rest => cite (citedNumber true rest)
  | '"' :: rest => cite ((text rest).map (fun (s, r) => (.text s, r)))
  | '[' :: _ => .here (.wrongType .sequence expected) cs
  | '\x7b' :: _ => .here (.wrongType .map expected) cs
  | c :: _ => if c.isDigit then cite (citedNumber false cs) else .ahead .expectedValue cs
  | [] => .ahead .expectedValue []

namespace Decoder

/-! ## Scalars -/

/-- A text that `read` takes. A refused text is a fault past the text. -/
def textAs {α : Type} (expected : String) (read : String → Except Cause α) : Decoder α := fun cs =>
  match skipSpace cs with
  | [] => .error (.here .endInValue [])
  | '"' :: rest => do
    let (s, rest) ← text rest
    match read s with
    | .ok a => return (a, rest)
    | .error cause => throw (.here cause rest)
  | cs => .error (wrongShape expected cs)

def string : Decoder String :=
  textAs "a string" .ok

def char : Decoder Char :=
  textAs "a character" (fun s =>
    match s.toList with
    | [c] => .ok c
    | _ => .error (.wrongValue (.text s) "a character"))

def natural32 : Decoder UInt32 := fun cs =>
  let take (scan : Except Fault (Number × List Char)) : Except Fault (UInt32 × List Char) := do
    let (n, rest) ← scan
    match n with
    | .natural n =>
      if n < UInt32.size then return (UInt32.ofNat n, rest)
      else throw (.here (.wrongValue (.integer n) "u32") rest)
    | .negative n => throw (.here (.wrongValue (.integer (-n)) "u32") rest)
    | .float x => throw (.here (.wrongType (Number.float x).found "u32") rest)
  match skipSpace cs with
  | [] => .error (.here .endInValue [])
  | '-' :: rest => take (number true rest)
  | c :: cs =>
    if c.isDigit then take (number false (c :: cs))
    else .error (wrongShape "u32" (c :: cs))

def boolean : Decoder Bool := fun cs =>
  match skipSpace cs with
  | [] => .error (.here .endInValue [])
  | 't' :: rest => (word "rue".toList rest).map (fun (_, rest) => (true, rest))
  | 'f' :: rest => (word "alse".toList rest).map (fun (_, rest) => (false, rest))
  | cs => .error (wrongShape "a boolean" cs)

def unit : Decoder Unit := fun cs =>
  match skipSpace cs with
  | [] => .error (.here .endInValue [])
  | 'n' :: rest => word "ull".toList rest
  | cs => .error (wrongShape "unit" cs)

def nullable {α : Type} (d : Decoder α) : Decoder (Option α) := fun cs =>
  match skipSpace cs with
  | 'n' :: rest => (word "ull".toList rest).map (fun (_, rest) => (none, rest))
  | cs => (d cs).map (fun (a, rest) => (some a, rest))

/-- A value that is read as another one. A refusal has no place of its own. -/
def refine {α β : Type} (d : Decoder α) (read : α → Except String β) : Decoder β := fun cs => do
  let (a, rest) ← d cs
  match read a with
  | .ok b => return (b, rest)
  | .error reason => throw (.unplaced (.refused reason) rest)

/-! ## Lists -/

/-- Looks for the end of a list: what is left where the search stops, and the fault there, if the
list does not end. -/
def endList (cs : List Char) : List Char × Option Fault :=
  match skipSpace cs with
  | [] => ([], some (.here .endInList []))
  | ']' :: rest => (rest, none)
  | ',' :: rest =>
    match skipSpace rest with
    | ']' :: rest => (']' :: rest, some (.ahead .trailingComma (']' :: rest)))
    | rest => (rest, some (.ahead .trailingCharacters rest))
  | cs => (cs, some (.ahead .trailingCharacters cs))

def endObject (cs : List Char) : List Char × Option Fault :=
  match skipSpace cs with
  | [] => ([], some (.here .endInObject []))
  | '\x7d' :: rest => (rest, none)
  | ',' :: rest => (',' :: rest, some (.ahead .trailingComma (',' :: rest)))
  | cs => (cs, some (.ahead .trailingCharacters cs))

/-- Closes a list or an object after its entries were read or refused. A refusal comes before a
missing end. -/
def closeWith {α : Type} (search : List Char → List Char × Option Fault)
    (entries : Except Fault (α × List Char)) : Except Fault (α × List Char) :=
  match entries with
  | .ok (a, rest) =>
    match search rest with
    | (rest, none) => .ok (a, rest)
    | (_, some fault) => .error fault
  -- The search only gives the refusal its place; a fault that it meets is not reported.
  | .error (.unplaced cause rest) => .error (.here cause (search rest).1)
  | .error fault => .error fault

/-- Goes to the next element of a list: what is left in front of it, or `none` at the end of the
list, which is not consumed. -/
def nextElement? (isFirst : Bool) (cs : List Char) : Except Fault (Option (List Char)) :=
  match skipSpace cs with
  | [] => .error (.here .endInList [])
  | ']' :: _ => .ok none
  | c :: cs =>
    if isFirst then .ok (some (c :: cs))
    else if c = ',' then
      match skipSpace cs with
      | [] => .error (.here .endInValue [])
      | ']' :: cs => .error (.ahead .trailingComma (']' :: cs))
      | cs => .ok (some cs)
    else .error (.ahead .expectedCommaOrListEnd (c :: cs))

/-- Reads elements up to the end of a list. Every element consumes a character, so the length of the
text is enough fuel. -/
def elements {α : Type} (d : Decoder α) : (fuel : Nat) → (isFirst : Bool) → Decoder (List α)
  | 0, _, cs => .error (.here .endInList cs)
  | n + 1, isFirst, cs => do
    match ← nextElement? isFirst cs with
    | none => return ([], cs)
    | some front =>
      let (a, rest) ← d front
      let (as, rest) ← elements d n false rest
      return (a :: as, rest)

def list {α : Type} (d : Decoder α) : Decoder (List α) := fun cs =>
  match skipSpace cs with
  | [] => .error (.here .endInValue [])
  | '[' :: rest => closeWith endList (elements d (rest.length + 1) true rest)
  | cs => .error (wrongShape "a sequence" cs)

/-! ## Records -/

/-- A named field of a record that is read piece by piece into a draft `δ`. -/
structure Field (δ : Type) where
  name : String
  isSet : δ → Bool
  read : δ → Decoder δ

/-- A record that is assembled from a draft. -/
structure Shape (δ α : Type) where
  label : String
  fields : List (Field δ)
  start : δ
  /-- Whether fields may be missing at the end of a list. -/
  mayEndEarly : Bool
  /-- Assembles the record, or names the first field that is missing. -/
  finish : δ → Except Cause α

/-- A field whose value is kept in the draft once it is read. -/
def Field.of {δ α : Type} (name : String) (get : δ → Option α) (set : δ → α → δ) (d : Decoder α) :
    Field δ :=
  { name := name
    isSet := fun draft => (get draft).isSome
    read := fun draft cs => (d cs).map (fun (a, rest) => (set draft a, rest)) }

def need {α : Type} (name : String) : Option α → Except Cause α
  | some a => .ok a
  | none => .error (.missingField name)

/-- What a fault says of the number of elements of a record in list form. -/
def Shape.sized {δ α : Type} (shape : Shape δ α) : String :=
  s!"{shape.label} with {shape.fields.length} elements"

/-- Reads the values of fields as elements of a list, from the one at `index` on. -/
def fieldsInOrder {δ α : Type} (shape : Shape δ α) : List (Field δ) → (index : Nat) → δ → Decoder δ
  | [], _, draft, cs => .ok (draft, cs)
  | f :: fs, index, draft, cs => do
    match ← nextElement? (index == 0) cs with
    | none =>
      if shape.mayEndEarly then return (draft, cs)
      else throw (.unplaced (.wrongLength index shape.sized) cs)
    | some front =>
      let (draft, rest) ← f.read draft front
      fieldsInOrder shape fs (index + 1) draft rest

/-- Goes to the next key of an object: what is left after its opening quote, or `none` at the end of
the object, which is not consumed. -/
def nextKey? (isFirst : Bool) (cs : List Char) : Except Fault (Option (List Char)) :=
  match skipSpace cs with
  | [] => .error (.here .endInObject [])
  | '\x7d' :: _ => .ok none
  | c :: cs =>
    if isFirst then
      if c = '"' then .ok (some cs) else .error (.ahead .keyNotText (c :: cs))
    else if c = ',' then
      match skipSpace cs with
      | [] => .error (.here .endInValue [])
      | '"' :: cs => .ok (some cs)
      | '\x7d' :: cs => .error (.ahead .trailingComma ('\x7d' :: cs))
      | cs => .error (.ahead .keyNotText cs)
    else .error (.ahead .expectedCommaOrObjectEnd (c :: cs))

def colon (cs : List Char) : Except Fault (Unit × List Char) :=
  match skipSpace cs with
  | [] => .error (.here .endInObject [])
  | ':' :: rest => .ok ((), rest)
  | cs => .error (.ahead .expectedColon cs)

/-- Reads entries with any keys up to the end of an object. Every entry consumes a character, so the
length of the text is enough fuel. -/
def entries {α : Type} (d : Decoder α) : (fuel : Nat) → (isFirst : Bool) →
    Decoder (List (String × α))
  | 0, _, cs => .error (.here .endInObject cs)
  | n + 1, isFirst, cs => do
    match ← nextKey? isFirst cs with
    | none => return ([], cs)
    | some front =>
      let (name, rest) ← text front
      let ((), rest) ← colon rest
      let (a, rest) ← d rest
      let (as, rest) ← entries d n false rest
      return ((name, a) :: as, rest)

/-- An object with any keys. A key may come more than once. -/
def object {α : Type} (d : Decoder α) : Decoder (List (String × α)) := fun cs =>
  match skipSpace cs with
  | [] => .error (.here .endInValue [])
  | '\x7b' :: rest => closeWith endObject (entries d (rest.length + 1) true rest)
  | cs => .error (wrongShape "a map" cs)

/-- Reads the entries of an object into a draft. Fields that the record does not have are passed
over. Every entry consumes a character, so the length of the text is enough fuel. -/
def fieldsByName {δ α : Type} (shape : Shape δ α) : (fuel : Nat) → (isFirst : Bool) → δ → Decoder δ
  | 0, _, _, cs => .error (.here .endInObject cs)
  | n + 1, isFirst, draft, cs => do
    match ← nextKey? isFirst cs with
    | none => return (draft, cs)
    | some front =>
      let (name, rest) ← text front
      match shape.fields.find? (fun f => f.name = name) with
      | some f =>
        -- The name alone makes a duplicate: its colon and its value are not read.
        if f.isSet draft then
          throw (.unplaced (.duplicateField name) rest)
        let ((), rest) ← colon rest
        let (draft, rest) ← f.read draft rest
        fieldsByName shape n false draft rest
      | none =>
        let ((), rest) ← colon rest
        let ((), rest) ← skipValue rest
        fieldsByName shape n false draft rest

def assemble {δ α : Type} (shape : Shape δ α) (draft : Except Fault (δ × List Char)) :
    Except Fault (α × List Char) := do
  let (draft, rest) ← draft
  match shape.finish draft with
  | .ok a => return (a, rest)
  | .error cause => throw (.unplaced cause rest)

/-- A record: an object of its fields in any order, or the list of their values in order. -/
def record {δ α : Type} (shape : Shape δ α) : Decoder α := fun cs =>
  match skipSpace cs with
  | [] => .error (.here .endInValue [])
  | '[' :: rest =>
    closeWith endList (assemble shape (fieldsInOrder shape shape.fields 0 shape.start rest))
  | '\x7b' :: rest =>
    closeWith endObject
      (assemble shape (fieldsByName shape (rest.length + 1) true shape.start rest))
  | cs => .error (wrongShape shape.label cs)

/-! ## Variants -/

inductive Content (α : Type) where
  | nothing (a : α)
  /-- A value; `form` is what a fault calls it. -/
  | payload (form : String) (d : Decoder α)

structure Variant (α : Type) where
  name : String
  content : Content α

def variantName {α : Type} (variants : List (Variant α)) : Decoder (Variant α) :=
  textAs "variant identifier" (fun name =>
    match variants.find? (fun v => v.name = name) with
    | some v => .ok v
    | none => .error (.unknownVariant name (variants.map Variant.name)))

/-- One of some variants: its name alone, or an object of its name and content. -/
def variant {α : Type} (variants : List (Variant α)) : Decoder α := fun cs =>
  match skipSpace cs with
  | [] => .error (.here .endInValue [])
  | '\x7b' :: rest => do
    let (v, rest) ← variantName variants rest
    let ((), rest) ← colon rest
    let (a, rest) ← match v.content with
      | .nothing a => (unit rest).map (fun (_, rest) => (a, rest))
      | .payload _ d => d rest
    match skipSpace rest with
    | [] => throw (.here .endInObject [])
    | '\x7d' :: rest => return (a, rest)
    | rest => throw (.here .expectedValue rest)
  | '"' :: rest => do
    let (v, rest) ← variantName variants ('"' :: rest)
    match v.content with
    | .nothing a => return (a, rest)
    | .payload form _ => throw (.unplaced (.wrongType .unitVariant form) rest)
  | cs => .error (.ahead .expectedValue cs)

/-! ## Whole texts -/

/-- Reads a text that holds one value and nothing else but space. -/
def decode {α : Type} (d : Decoder α) (source : String) : Except Error α :=
  let cs := source.toList
  match d cs with
  | .error fault => .error (Error.ofFault cs fault)
  | .ok (a, rest) =>
    match skipSpace rest with
    | [] => .ok a
    | rest => .error (Error.ofFault cs (.ahead .trailingCharacters rest))

end Decoder

end Statewright.Json
