import Statewright.Text.Ascii
import Statewright.Text.Hex
import Statewright.Text.Utf8

/-!
# Universally unique identifiers

Sixteen bytes, written as five hyphenated groups of lower-case hexadecimal digits. Reading also
takes upper case, the digits without hyphens, and the hyphenated form in braces or after
`urn:uuid:` in any case.
-/

namespace Statewright

structure Uuid where
  bytes : List UInt8
  size : bytes.length = 16
  deriving DecidableEq

inductive UuidError where
  /-- A character that is neither a digit nor a hyphen, and where it stands. -/
  | character (c : Char) (index : Nat)
  /-- Digits without hyphens, but not as many as needed, or a text longer than any form. -/
  | length (found : Nat)
  | groupCount (found : Nat)
  | groupLength (group found : Nat)
  | byteCount (found : Nat)
  deriving DecidableEq, Repr

namespace Uuid

def groupLengths : List Nat := [8, 4, 4, 4, 12]

end Uuid

def UuidError.message : UuidError → String
  | .character c index => s!"UUID parsing failed: invalid character: found `{c}` at {index}"
  | .length found => s!"UUID parsing failed: invalid length: found {found}"
  | .groupCount found => s!"UUID parsing failed: invalid group count: expected 5, found {found}"
  | .groupLength group found =>
    let expected := Uuid.groupLengths.getD group 0
    s!"UUID parsing failed: invalid group length in group {group}: " ++
      s!"expected {expected}, found {found}"
  | .byteCount found =>
    s!"UUID parsing failed: invalid length: expected 16 bytes, found {found}"

namespace Uuid

def zero : Uuid := ⟨List.replicate 16 0, by simp⟩

def ofBytes (bytes : List UInt8) : Except UuidError Uuid :=
  if h : bytes.length = 16 then .ok ⟨bytes, h⟩ else .error (.byteCount bytes.length)

/-- The identifier made of sixteen random bytes. Six of the bits say that it is random. -/
def ofRandom (bytes : List UInt8) : Except UuidError Uuid :=
  ofBytes ((bytes.modify 6 (fun b => b &&& 0x0F ||| 0x40)).modify 8 (fun b => b &&& 0x3F ||| 0x80))

def text (id : Uuid) : String :=
  let part (start count : Nat) := Text.Hex.encode ((id.bytes.drop start).take count)
  String.ofList
    (part 0 4 ++ '-' :: part 4 2 ++ '-' :: part 6 2 ++ '-' :: part 8 2 ++ '-' :: part 10 6)

instance : ToString Uuid := ⟨text⟩

def maxSize : Nat := 45

def simpleSize : Nat := 32

def hyphenatedSize : Nat := 36

/-- A text that is read as digits, with or without hyphens. -/
structure Body where
  text : List Char
  /-- What is added to places in it. -/
  offset : Nat
  isPlain : Bool

/-- A text without its braces or its `urn:uuid:`. -/
def Body.unwrap (cs : List Char) : Body :=
  let scheme := "urn:uuid:"
  match cs with
  | '\x7b' :: rest =>
    if rest.getLast? = some '\x7d' then ⟨rest.dropLast, 1, false⟩ else ⟨cs, 0, true⟩
  | _ =>
    if Text.sameWord (String.ofList (cs.take scheme.length)) scheme then
      ⟨cs.drop scheme.length, scheme.length, false⟩
    else
      ⟨cs, 0, true⟩

/-- What is read as digits of a text. -/
def Body.ofText (cs : List Char) : Body :=
  let size := Text.Utf8.size cs
  -- The length alone tells the plain forms, so braces in such a text are stray characters.
  if size = simpleSize || size = hyphenatedSize then ⟨cs, 0, true⟩
  else
    let body := unwrap cs
    -- Braces and scheme that fit the form with hyphens are done with: places count without them.
    if Text.Utf8.size body.text = hyphenatedSize then { body with offset := 0 } else body

def ofDigits? (digits : List Char) : Option Uuid := do
  let bytes ← Text.Hex.decode? digits
  if h : bytes.length = 16 then some ⟨bytes, h⟩ else none

/-- The first character that is neither a digit nor a hyphen, and how many bytes precede it. -/
def strayCharacter? (index : Nat) : List Char → Option (Char × Nat)
  | [] => none
  | c :: cs =>
    if c = '-' || (Text.Hex.digit? c).isSome then strayCharacter? (index + c.utf8Size) cs
    else some (c, index)

/-- What is wrong with a text that is no identifier. Its length comes first, then stray characters,
the number of groups, and their lengths; the last group is taken to reach to the end of the whole
text. -/
def diagnose (whole : List Char) : UuidError :=
  let size := Text.Utf8.size whole
  let body := Body.ofText whole
  if maxSize < size then .length size
  else
    match strayCharacter? body.offset body.text with
    | some (c, index) => .character c index
    | none =>
      let found := (body.text.splitOnP (· = '-')).map List.length
      if found.length = 1 && body.isPlain then .length size
      else if found.length ≠ groupLengths.length then .groupCount found.length
      else
        match (found.zip groupLengths).take 4 |>.findIdx? (fun (n, expected) => n ≠ expected) with
        | some i => .groupLength i (found.getD i 0)
        -- The first four groups and their hyphens take twenty-four characters.
        | none => .groupLength 4 (size - 24)

def parse (raw : String) : Except UuidError Uuid :=
  let whole := raw.toList
  let body := Body.ofText whole
  let groups := body.text.splitOnP (· = '-')
  let wellFormed :=
    groups.map List.length = groupLengths || (body.isPlain && groups.length = 1)
  match if wellFormed then ofDigits? groups.flatten else none with
  | some id => .ok id
  | none => .error (diagnose whole)

end Uuid

end Statewright
