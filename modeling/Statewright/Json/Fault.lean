import Statewright.Text.Quoted
import Statewright.Text.Utf8

/-!
# Faults in JSON texts

A fault is a cause and a place. Places are counted in bytes from the end of the text while
reading, and turned into line and column at the end. A value can be well formed and yet refused by
its reader; such a fault has no place of its own until the list or record around it gives it one.
-/

namespace Statewright.Json

inductive Found where
  | null
  | boolean (b : Bool)
  | integer (n : Int)
  /-- A number with a fraction or a power, as it is shown. -/
  | float (shown : String)
  | text (s : String)
  | sequence
  | map
  /-- The name of a variant without the content that it needs. -/
  | unitVariant
  deriving DecidableEq, Repr

def Found.message : Found → String
  | null => "null"
  | boolean b => s!"boolean `{b}`"
  | integer n => s!"integer `{n}`"
  | float shown => s!"floating point `{shown}`"
  | text s => "string " ++ Text.quoted s
  | sequence => "sequence"
  | map => "map"
  | unitVariant => "unit variant"

inductive Cause where
  | endInList
  | endInObject
  | endInText
  | endInValue
  | expectedColon
  | expectedCommaOrListEnd
  | expectedCommaOrObjectEnd
  | expectedWord
  | expectedValue
  | invalidEscape
  | invalidNumber
  | numberOutOfRange
  | controlCharacter
  | keyNotText
  | loneSurrogate
  | trailingComma
  | trailingCharacters
  | endInHexEscape
  | wrongType (found : Found) (expected : String)
  | wrongValue (found : Found) (expected : String)
  | wrongLength (found : Nat) (expected : String)
  | missingField (name : String)
  | duplicateField (name : String)
  | unknownVariant (name : String) (expected : List String)
  | refused (reason : String)
  deriving DecidableEq, Repr

def choice (names : List String) : String :=
  let cited := names.map (fun n => s!"`{n}`")
  match cited with
  | [] => "there are no variants"
  | [a] => "expected " ++ a
  | [a, b] => s!"expected {a} or {b}"
  | _ => "expected one of " ++ ", ".intercalate cited

def Cause.message : Cause → String
  | endInList => "EOF while parsing a list"
  | endInObject => "EOF while parsing an object"
  | endInText => "EOF while parsing a string"
  | endInValue => "EOF while parsing a value"
  | expectedColon => "expected `:`"
  | expectedCommaOrListEnd => "expected `,` or `]`"
  | expectedCommaOrObjectEnd => "expected `,` or `\x7d`"
  | expectedWord => "expected ident"
  | expectedValue => "expected value"
  | invalidEscape => "invalid escape"
  | invalidNumber => "invalid number"
  | numberOutOfRange => "number out of range"
  | controlCharacter => "control character (\\u0000-\\u001F) found while parsing a string"
  | keyNotText => "key must be a string"
  | loneSurrogate => "lone leading surrogate in hex escape"
  | trailingComma => "trailing comma"
  | trailingCharacters => "trailing characters"
  | endInHexEscape => "unexpected end of hex escape"
  | wrongType found expected => s!"invalid type: {found.message}, expected {expected}"
  | wrongValue found expected => s!"invalid value: {found.message}, expected {expected}"
  | wrongLength found expected => s!"invalid length {found}, expected {expected}"
  | missingField name => s!"missing field `{name}`"
  | duplicateField name => s!"duplicate field `{name}`"
  | unknownVariant name expected => s!"unknown variant `{name}`, {choice expected}"
  | refused reason => reason

inductive Fault where
  /-- At the place with so many bytes left. -/
  | placed (cause : Cause) (left : Nat)
  /-- Without a place; reading stopped before `rest`. -/
  | unplaced (cause : Cause) (rest : List Char)
  deriving DecidableEq, Repr

namespace Fault

/-- A fault in front of what is left. -/
def here (cause : Cause) (rest : List Char) : Fault :=
  placed cause (Text.Utf8.size rest)

/-- A fault one byte into what is left, or at the end of the text. -/
def ahead (cause : Cause) (rest : List Char) : Fault :=
  placed cause (Text.Utf8.size rest - 1)

end Fault

/-- The line and the column that so many more bytes of a text lead to from given ones. -/
def positionFrom (line column : Nat) : List Char → (bytes : Nat) → Nat × Nat
  | [], _ => (line, column)
  | c :: cs, bytes =>
    if bytes = 0 then (line, column)
    else if c = '\n' then positionFrom (line + 1) 0 cs (bytes - 1)
    else positionFrom line (column + min bytes c.utf8Size) cs (bytes - c.utf8Size)

/-- The line and the column that so many bytes of a text lead to. Lines count from one; a column is
the number of bytes since the last line break. -/
def position (text : List Char) (bytes : Nat) : Nat × Nat :=
  positionFrom 1 0 text bytes

/-- Why a text is not what its reader takes, with line and column where there is a place. -/
structure Error where
  cause : Cause
  place : Option (Nat × Nat)
  deriving DecidableEq, Repr

namespace Error

def ofFault (text : List Char) : Fault → Error
  | .placed cause left => ⟨cause, some (position text (Text.Utf8.size text - left))⟩
  | .unplaced cause _ => ⟨cause, none⟩

def message (e : Error) : String :=
  match e.place with
  | some (line, column) => s!"{e.cause.message} at line {line} column {column}"
  | none => e.cause.message

end Error

end Statewright.Json
