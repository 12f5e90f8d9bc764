import Statewright.Settings.Value
import Statewright.Text.Blank
import Statewright.Text.Reading

/-!
# Settings in JSON5

JSON with comments, bare keys, texts in single quotes, commas after the last entry, and more ways to
write numbers. Lists and objects inside the outermost object are read for their form only.
-/

namespace Statewright.Json5

open Text (Read)
open Text.Read

/-! ## Blanks -/

def isLineEnd (c : Char) : Bool :=
  c = '\n' || c = '\r' || c = '\u2028' || c = '\u2029'

def isSpace (c : Char) : Bool :=
  c = '\uFEFF' || (Text.isBlank c && c ≠ '\x85')

def skipStars : (fuel : Nat) → Read Unit
  | 0 => refuse
  | n + 1 => do
    if ← take? "*/" then return
    let _ ← next
    skipStars n

/-- Skips blanks and comments. Every comment takes a character, so the length of the document is
enough fuel. -/
def skipFiller : (fuel : Nat) → Read Unit
  | 0 => return
  | n + 1 => do
    skipRun isSpace
    if ← take? "//" then
      skipRun (fun c => !isLineEnd c)
      skipFiller n
    else if ← take? "/*" then
      skipStars ((← remaining).length + 1)
      skipFiller n

def skip : Read Unit := do
  skipFiller ((← remaining).length + 1)

/-! ## Texts and keys -/

/-- The character of an escape after its `u`: a surrogate needs its other half in a second one. -/
def codePoint : Read Char := do
  let n ← hexNumber 4
  if n < 0xD800 ∨ 0xDFFF < n then return Char.ofNat n
  take "\\u"
  let m ← hexNumber 4
  if n < 0xDC00 ∧ 0xDC00 ≤ m ∧ m ≤ 0xDFFF then
    return Char.ofNat (0x10000 + (n - 0xD800) * 0x400 + (m - 0xDC00))
  else
    refuse

/-- What an escape after its backslash stands for. A line end stands for nothing. -/
def escape : Read (List Char) := do
  if ← take? "\r\n" then return []
  let c ← next
  match c with
  | 'b' => return ['\x08']
  | 'f' => return ['\x0c']
  | 'n' => return ['\n']
  | 'r' => return ['\r']
  | 't' => return ['\t']
  | 'v' => return ['\x0b']
  | '0' => return ['\x00']
  | 'x' => return [Char.ofNat (← hexNumber 2)]
  | 'u' => return [← codePoint]
  | _ =>
    if isLineEnd c then return []
    if c.isDigit then refuse
    return [c]

/-- A text up to its closing quote. Every step takes a character, so the length of the document is
enough fuel. -/
def body (quote : Char) : (fuel : Nat) → Read (List Char)
  | 0 => refuse
  | n + 1 => do
    let c ← next
    if c = quote then return []
    if c = '\\' then return (← escape) ++ (← body quote n)
    if isLineEnd c then refuse
    return c :: (← body quote n)

def quoted? : Read (Option String) := do
  for (mark, quote) in [("\"", '"'), ("\x27", '\x27')] do
    if ← take? mark then
      return some (String.ofList (← body quote ((← remaining).length + 1)))
  return none

def isKeyStart (c : Char) : Bool :=
  c.isAlpha || c = '$' || c = '_' || (0x80 ≤ c.toNat && !isSpace c)

def isKeyPart (c : Char) : Bool :=
  isKeyStart c || c.isDigit

def key : Read String := do
  match ← quoted? with
  | some s => return s
  | none =>
    match ← takeRun isKeyPart with
    | [] => refuse
    | c :: cs => if isKeyStart c then return String.ofList (c :: cs) else refuse

/-! ## Numbers -/

/-- The number that a word spells: a whole one of 64 bits, or a floating-point one. -/
def number? (cs : List Char) : Option SettingValue :=
  let (negative, body) := SettingValue.splitSign cs
  match body with
  | '0' :: 'x' :: digits | '0' :: 'X' :: digits => do
    let n ← Text.Hex.number? digits
    if cs = body && digits ≠ [] && n < UInt32.size then some (.integer n) else none
  | '0' :: d :: _ => if d.isDigit then none else plain negative body
  | _ => plain negative body
where
  /-- A number in decimal digits, or the name of one that is not finite. -/
  plain (negative : Bool) (body : List Char) : Option SettingValue :=
    let signed := if negative then '-' :: body else body
    if body = "Infinity".toList ∨ body = "NaN".toList then
      (SettingValue.readFloat? signed).map .float
    else if body.all Char.isDigit then
      (SettingValue.readInteger? signed).map .integer
    else if body.any (fun c => c.isAlpha && c ≠ 'e' && c ≠ 'E') then none
    else (SettingValue.readFloat? signed).map .float

/-! ## Values -/

inductive Part where
  | value
  | items
  | entries

def scalar : Read SettingValue := do
  match ← quoted? with
  | some s => return .text s
  | none =>
    let word ← takeRun (fun c => c.isAlphanum || c = '+' || c = '-' || c = '.')
    if word = "null".toList then return .compound
    if word = "true".toList then return .boolean true
    if word = "false".toList then return .boolean false
    let some v := number? word | refuse
    return v

/-- A value, or the rest of a list or object; the entries of an object, and of any other value
none. At most every second step takes no character, so twice the length of the document is enough
fuel. -/
def part : (fuel : Nat) → Part → Read (SettingValue × List (String × SettingValue))
  | 0, _ => refuse
  | n + 1, .value => do
    skip
    if ← take? "[" then return ← part n .items
    if ← take? "\x7b" then return ← part n .entries
    return (← scalar, [])
  | n + 1, .items => do
    skip
    if ← take? "]" then return (.compound, [])
    let _ ← part n .value
    skip
    if ← take? "," then return ← part n .items
    take "]"
    return (.compound, [])
  | n + 1, .entries => do
    skip
    if ← take? "\x7d" then return (.compound, [])
    let k ← key
    skip
    take ":"
    let (v, _) ← part n .value
    skip
    if ← take? "," then
      let (_, rest) ← part n .entries
      return (.compound, (k, v) :: rest)
    take "\x7d"
    return (.compound, [(k, v)])

/-- The settings in a document, by key: the document is an object. -/
def settings? (document : List Char) : Option (List (String × SettingValue)) :=
  let read : Read (List (String × SettingValue)) := do
    skip
    take "\x7b"
    let (_, entries) ← part (2 * document.length) .entries
    skip
    return entries
  Text.Read.whole? read document

end Statewright.Json5
