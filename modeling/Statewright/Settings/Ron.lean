import Statewright.Settings.Value
import Statewright.Text.Reading

/-!
# Settings in RON

A record in parentheses with bare keys, or a map in braces with texts as keys. Records, maps, lists
and tuples inside it are read for their form only. A value in `Some` counts as itself.
-/

namespace Statewright.Ron

open Text (Read)
open Text.Read

/-! ## Blanks -/

/-- Skips the rest of a comment in stars, of which so many are open. -/
def skipStars : (fuel : Nat) → (isOpen : Nat) → Read Unit
  | _, 0 => return
  | 0, _ => refuse
  | n + 1, k + 1 => do
    if ← take? "*/" then return ← skipStars n k
    if ← take? "/*" then return ← skipStars n (k + 2)
    let _ ← next
    skipStars n (k + 1)

/-- Skips blanks and comments. Every comment takes a character, so the length of the document is
enough fuel. -/
def skipFiller : (fuel : Nat) → Read Unit
  | 0 => return
  | n + 1 => do
    skipRun (fun c => c = ' ' || c = '\n' || c = '\t' || c = '\r')
    if ← take? "//" then
      skipRun (· ≠ '\n')
      skipFiller n
    else if ← take? "/*" then
      skipStars (← remaining).length 1
      skipFiller n

def skip : Read Unit := do
  skipFiller ((← remaining).length + 1)

/-! ## Scalars -/

def isNamePart (c : Char) : Bool :=
  c.isAlphanum || c = '_'

def name? : Read (Option String) := do
  match ← get with
  | c :: _ =>
    if isNamePart c && !c.isDigit then return some (String.ofList (← takeRun isNamePart))
    return none
  | [] => return none

def escape : Read Char := do
  match ← next with
  | '\x27' => return '\x27'
  | '"' => return '"'
  | '\\' => return '\\'
  | 'n' => return '\n'
  | 'r' => return '\r'
  | 't' => return '\t'
  | '0' => return '\x00'
  | 'x' => return Char.ofNat (← hexNumber 2)
  | 'u' =>
    take "\x7b"
    let digits ← takeRun (fun c => (Text.Hex.digit? c).isSome)
    take "\x7d"
    let some n := Text.Hex.number? digits | refuse
    if digits = [] ∨ 6 < digits.length then refuse
    character n
  | _ => refuse

/-- A text up to its closing quote. Every step takes a character, so the length of the document is
enough fuel. -/
def body : (fuel : Nat) → Read (List Char)
  | 0 => refuse
  | n + 1 => do
    let c ← next
    if c = '"' then return []
    let d ← if c = '\\' then escape else pure c
    return d :: (← body n)

/-- The characters up to a mark, which is taken too. -/
def through (mark : String) : (fuel : Nat) → Read (List Char)
  | 0 => refuse
  | n + 1 => do
    if ← take? mark then return []
    let c ← next
    return c :: (← through mark n)

/-- A text without escapes, after its `r`: as many `#` stand before the quote as after it. -/
def rawText : Read String := do
  let hashes ← takeRun (· = '#')
  take "\""
  let mark := "\"" ++ String.ofList hashes
  return String.ofList (← through mark ((← remaining).length + 1))

def text? : Read (Option String) := do
  if ← take? "\"" then
    return some (String.ofList (← body ((← remaining).length + 1)))
  match ← get with
  | 'r' :: c :: cs =>
    if c = '"' ∨ c = '#' then
      set (c :: cs)
      return some (← rawText)
    return none
  | _ => return none

/-- A character in single quotes, after the first. -/
def quotedCharacter : Read String := do
  let c ← next
  let d ← if c = '\\' then escape else pure c
  take "\x27"
  return String.singleton d

/-- The number that a word spells, underscores left out: a whole one in one of four bases, or a
floating-point one. -/
def number? (word : List Char) : Option SettingValue :=
  let (negative, body) := SettingValue.splitSign (word.filter (· ≠ '_'))
  let signed (n : Nat) : Option SettingValue :=
    let n : Int := if negative then -n else n
    if SettingValue.fits64 n then some (.integer n) else none
  let based (base : Nat) (digits : List Char) : Option SettingValue := do
    let n ← digits.foldlM (fun n c => do
      let d ← Text.Hex.digit? c
      if d < base then some (n * base + d) else none) 0
    if digits = [] then none else signed n
  match body with
  | '0' :: 'x' :: digits => based 16 digits
  | '0' :: 'o' :: digits => based 8 digits
  | '0' :: 'b' :: digits => based 2 digits
  | _ =>
    if body ≠ [] && body.all Char.isDigit then signed (SettingValue.natural body)
    else if body.any (fun c => c.isAlpha && c ≠ 'e' && c ≠ 'E') then none
    else
      (SettingValue.readFloat? (if negative then '-' :: body else body)).map .float

/-! ## Values -/

inductive Part where
  | value
  | items (close : String)
  | fields
  | entries

/-- Whether a record with bare keys comes after an opening parenthesis. -/
def isRecord (cs : List Char) : Bool :=
  let read : Read Bool := do
    skip
    let some _ ← name? | return false
    skip
    take? ":"
  ((read.run cs).map Prod.fst).getD false

def scalar : Read SettingValue := do
  match ← text? with
  | some s => return .text s
  | none =>
    if ← take? "\x27" then return .text (← quotedCharacter)
    let word ← takeRun (fun c => isNamePart c || c = '+' || c = '-' || c = '.')
    if word = "true".toList then return .boolean true
    if word = "false".toList then return .boolean false
    if ["inf", "-inf", "NaN"].contains (String.ofList word) then
      let some x := SettingValue.readFloat? word | refuse
      return .float x
    match number? word with
    | some v => return v
    | none =>
      match word with
      -- Any other name stands for nothing.
      | c :: _ => if isNamePart c && !c.isDigit then return .compound else refuse
      | [] => refuse

/-- A value, or the rest of a list, tuple, record or map; the entries of a record or map, and of any
other value none. Every value takes a character, so three times the length of the document is enough
fuel. -/
def part : (fuel : Nat) → Part → Read (SettingValue × List (String × SettingValue))
  | 0, _ => refuse
  | n + 1, .value => do
    skip
    if ← take? "[" then return ← part n (.items "]")
    if ← take? "\x7b" then return ← part n .entries
    if ← take? "(" then
      return ← part n (if isRecord (← remaining) then .fields else .items ")")
    let before ← get
    match ← name? with
    | some name =>
      skip
      match ← get with
      | '(' :: cs =>
        set cs
        if name = "Some" then
          let r ← part n .value
          skip
          take ")"
          return r
        return ← part n (if isRecord cs then .fields else .items ")")
      | _ =>
        set before
        return (← scalar, [])
    | none => return (← scalar, [])
  | n + 1, .items close => do
    skip
    if ← take? close then return (.compound, [])
    let _ ← part n .value
    skip
    if ← take? "," then return ← part n (.items close)
    take close
    return (.compound, [])
  | n + 1, .fields => do
    skip
    if ← take? ")" then return (.compound, [])
    let some key ← name? | refuse
    skip
    take ":"
    let (v, _) ← part n .value
    skip
    if ← take? "," then
      let (_, rest) ← part n .fields
      return (.compound, (key, v) :: rest)
    take ")"
    return (.compound, [(key, v)])
  | n + 1, .entries => do
    skip
    if ← take? "\x7d" then return (.compound, [])
    let (.text key, _) ← part n .value | refuse
    skip
    take ":"
    let (v, _) ← part n .value
    skip
    if ← take? "," then
      let (_, rest) ← part n .entries
      return (.compound, (key, v) :: rest)
    take "\x7d"
    return (.compound, [(key, v)])

/-- Skips the extensions that a document switches on at its beginning; none of them changes how
settings are read. -/
def skipExtensions : (fuel : Nat) → Read Unit
  | 0 => return
  | n + 1 => do
    skip
    if ← take? "#" then
      for token in ["!", "[", "enable", "("] do
        skip
        take token
      skipNames n
      skip
      take "]"
      skipExtensions n
where
  skipNames : (fuel : Nat) → Read Unit
    | 0 => refuse
    | n + 1 => do
      skip
      let some name ← name? | refuse
      if !extensions.contains name then refuse
      skip
      if ← take? "," then
        skip
        if ← take? ")" then return
        skipNames n
      else take ")"
  extensions : List String :=
    ["unwrap_newtypes", "implicit_some", "unwrap_variant_newtypes"]

/-- The settings in a document, by key: the document is a record, with or without a name, or a
map. -/
def settings? (document : List Char) : Option (List (String × SettingValue)) :=
  let read : Read (List (String × SettingValue)) := do
    skipExtensions (document.length + 1)
    let fuel := 3 * document.length + 3
    let (_, entries) ← if ← take? "\x7b" then part fuel .entries
      else do
        let _ ← name?
        skip
        take "("
        if !isRecord (← remaining) then refuse
        part fuel .fields
    skip
    return entries
  Text.Read.whole? read document

end Statewright.Ron
