import Statewright.Settings.Value
import Statewright.Text.Reading

/-!
# Settings in YAML

A document that is one mapping, in lines or in braces. A plain value is a number, a truth value or
a text; quoted values and blocks of lines are texts. Nested mappings and sequences are passed over,
and anchors, tags and aliases are refused.
-/

namespace Statewright.Yaml

open Text (Read)
open Text.Read

/-! ## Lines -/

def isBreak (c : Char) : Bool :=
  c = '\n' || c = '\r'

def isSpace (c : Char) : Bool :=
  c = ' ' || c = '\t'

def takeBreak? : Read Bool := do
  if ← take? "\r\n" then return true
  if ← take? "\n" then return true
  take? "\r"

/-- The rest of a line that holds nothing more; a comment may follow a space. -/
def restOfLine : Read Unit := do
  let spaces ← takeRun isSpace
  if spaces ≠ [] then
    if ← take? "#" then skipRun (fun c => !isBreak c)
  match ← remaining with
  | [] => return
  | _ => if !(← takeBreak?) then refuse

/-- Skips lines that are blank or hold a comment, from the beginning of a line on: how many were
blank in a row at the end. -/
def skipIdleLines : (fuel : Nat) → (blanks : Nat) → Read Nat
  | 0, blanks => return blanks
  | n + 1, blanks => do
    let start ← get
    skipRun isSpace
    if ← take? "#" then
      skipRun (fun c => !isBreak c)
      if ← takeBreak? then skipIdleLines n 0 else return 0
    else if ← takeBreak? then skipIdleLines n (blanks + 1)
    else
      if (← get) ≠ [] then set start
      return blanks

def skipIdle : Read Unit := do
  let _ ← skipIdleLines ((← remaining).length + 1) 0

/-- The number of spaces at the beginning of a line; `none` at the end of the document. -/
def indent? : Read (Option Nat) := do
  match ← remaining with
  | [] => return none
  | cs => return some (cs.takeWhile (· = ' ')).length

def atMark : Read Bool := do
  let cs ← remaining
  let after := cs.drop 3
  return ["---".toList, "...".toList].contains (cs.take 3) &&
    (after.head?.all (fun c => isSpace c || isBreak c))

/-- Skips lines as long as they are deeper than given, or blank, or hold a comment. -/
def skipDeeper (depth : Nat) : (fuel : Nat) → Read Unit
  | 0 => return
  | n + 1 => do
    skipIdle
    let some m ← indent? | return
    if depth < m then
      skipRun (fun c => !isBreak c)
      let _ ← takeBreak?
      skipDeeper depth n

/-! ## Quoted texts -/

/-- What a row of line breaks inside a text stands for: one for a space, more for one break less. -/
def fold (breaks : Nat) : List Char :=
  if breaks ≤ 1 then [' '] else List.replicate (breaks - 1) '\n'

/-- Skips spaces and line breaks: how many breaks there were. -/
def skipBreaks : (fuel : Nat) → Read Nat
  | 0 => return 0
  | n + 1 => do
    skipRun isSpace
    if ← takeBreak? then return (← skipBreaks n) + 1 else return 0

def escape : Read (List Char) := do
  if ← takeBreak? then
    let more ← skipBreaks (← remaining).length
    return List.replicate more '\n'
  match ← next with
  | '0' => return ['\x00']
  | 'a' => return ['\x07']
  | 'b' => return ['\x08']
  | 't' | '\t' => return ['\t']
  | 'n' => return ['\n']
  | 'v' => return ['\x0b']
  | 'f' => return ['\x0c']
  | 'r' => return ['\r']
  | 'e' => return ['\x1b']
  | ' ' => return [' ']
  | '"' => return ['"']
  | '/' => return ['/']
  | '\\' => return ['\\']
  | 'N' => return ['\x85']
  | '_' => return ['\xa0']
  | 'L' => return ['\u2028']
  | 'P' => return ['\u2029']
  | 'x' => return [← character (← hexNumber 2)]
  | 'u' => return [← character (← hexNumber 4)]
  | 'U' => return [← character (← hexNumber 8)]
  | _ => refuse

/-- A text up to its closing quote. In single quotes only a doubled quote is special. Every step
takes a character, so the length of the document is enough fuel. -/
def body (quote : Char) : (fuel : Nat) → Read (List Char)
  | 0 => refuse
  | n + 1 => do
    let start ← get
    let spaces ← takeRun isSpace
    if ← takeBreak? then
      let more ← skipBreaks n
      return fold (more + 1) ++ (← body quote n)
    if spaces ≠ [] then return spaces ++ (← body quote n)
    set start
    let c ← next
    if c = quote then
      if quote = '"' then return []
      if ← take? (String.singleton quote) then return quote :: (← body quote n)
      return []
    if c = '\\' && quote = '"' then return (← escape) ++ (← body quote n)
    return c :: (← body quote n)

def quoted? : Read (Option String) := do
  for (mark, quote) in [("\"", '"'), ("\x27", '\x27')] do
    if ← take? mark then
      return some (String.ofList (← body quote ((← remaining).length + 1)))
  return none

/-! ## Plain texts -/

/-- The names of numbers that are not finite, which no setting is given by. -/
def notFinite : List String :=
  [".inf", ".Inf", ".INF", "+.inf", "+.Inf", "+.INF", "-.inf", "-.Inf", "-.INF", ".nan", ".NaN",
    ".NAN"]

def plainValue (cs : List Char) : Read SettingValue := do
  if notFinite.contains (String.ofList cs) then refuse
  let inBase (base : Nat) (digits : List Char) : Option SettingValue := do
    let n ← digits.foldlM (fun n c => do
      let d ← Text.Hex.digit? c
      if d < base then some (n * base + d) else none) 0
    if digits ≠ [] && SettingValue.fits64 n then some (.integer n) else none
  let special := match cs with
    | '0' :: 'x' :: digits => inBase 16 digits
    | '0' :: 'o' :: digits => inBase 8 digits
    | _ => none
  return special.getD
    (if cs = "~".toList ∨ cs = "null".toList then .compound
    else if cs = "true".toList then .boolean true
    else if cs = "false".toList then .boolean false
    else
      match SettingValue.readInteger? cs with
      | some n => .integer n
      | none =>
        match SettingValue.readFloat? cs with
        | some x => .float x
        | none => .text (String.ofList cs))

/-- Whether a plain text may begin in front of some characters. -/
def beginsPlain (inFlow : Bool) : List Char → Bool
  | [] => false
  | c :: rest =>
    if c = '-' || c = '?' || c = ':' then
      match rest with
      | [] => false
      | d :: _ => !isSpace d && !isBreak d && !(inFlow && ",[]{}".toList.contains d)
    else !isSpace c && !isBreak c && !"#&*!|>%@`,[]{}\"\x27".toList.contains c

/-- The part of a line that belongs to a plain text, without the spaces at its end. -/
def plainRun (inFlow : Bool) : (fuel : Nat) → Read (List Char)
  | 0 => return []
  | n + 1 => do
    let start ← get
    let spaces ← takeRun isSpace
    match ← get with
    | [] => return []
    | c :: cs =>
      let isEnd := isBreak c || (c = '#' && spaces ≠ []) ||
        (inFlow && ",[]{}".toList.contains c) ||
        (c = ':' && (cs.head?.all (fun d =>
          isSpace d || isBreak d || (inFlow && ",[]{}".toList.contains d))))
      if isEnd then
        set start
        return []
      set cs
      return spaces ++ c :: (← plainRun inFlow n)

def plain (inFlow : Bool) : Read (List Char) := do
  let cs ← remaining
  if !beginsPlain inFlow cs then refuse
  plainRun inFlow cs.length

/-- The further lines of a plain text, which are deeper than given. -/
def plainMore (depth : Nat) : (fuel : Nat) → Read (List Char)
  | 0 => return []
  | n + 1 => do
    let start ← get
    let blanks ← skipBreaks n
    -- The spaces in front of the line were skipped with the breaks.
    let read := (start.take (start.length - (← remaining).length)).reverse
    let deep := (read.takeWhile isSpace).length
    let cs ← remaining
    if blanks = 0 ∨ cs = [] ∨ deep ≤ depth ∨ cs.head? = some '#' then
      set start
      return []
    let run ← plainRun false cs.length
    return fold blanks ++ run ++ (← plainMore depth n)

/-! ## Values -/

inductive Part where
  | value
  | items
  | entries

def skipFiller : (fuel : Nat) → Read Unit
  | 0 => return
  | n + 1 => do
    skipRun isSpace
    if ← take? "#" then skipRun (fun c => !isBreak c)
    if ← takeBreak? then skipFiller n

/-- A value inside brackets, or the rest of a list or mapping; the entries of a mapping, and of any
other value none. At most every second step takes no character, so twice the length of the document
is enough fuel. -/
def part : (fuel : Nat) → Part → Read (SettingValue × List (String × SettingValue))
  | 0, _ => refuse
  | n + 1, .value => do
    if ← take? "[" then return ← part n .items
    if ← take? "\x7b" then return ← part n .entries
    match ← quoted? with
    | some s => return (.text s, [])
    | none => return (← plainValue (← plain true), [])
  | n + 1, .items => do
    skipFiller n
    if ← take? "]" then return (.compound, [])
    let _ ← part n .value
    skipFiller n
    if ← take? "," then return ← part n .items
    take "]"
    return (.compound, [])
  | n + 1, .entries => do
    skipFiller n
    if ← take? "\x7d" then return (.compound, [])
    let key ← match ← quoted? with
      | some s => pure s
      | none => do pure (String.ofList (← plain true))
    skipFiller n
    let mut v := SettingValue.compound
    if ← take? ":" then
      skipFiller n
      let after ← remaining
      if !(after.head?.all (fun c => c = ',' || c = '\x7d')) then
        v := (← part n .value).1
    skipFiller n
    if ← take? "," then
      let (_, rest) ← part n .entries
      return (.compound, (key, v) :: rest)
    take "\x7d"
    return (.compound, [(key, v)])

/-- A key in a line and the colon after it. -/
def key : Read String := do
  let k ← match ← quoted? with
    | some s => pure s
    | none => do pure (String.ofList (← plain false))
  skipRun isSpace
  take ":"
  match ← remaining with
  | [] => return k
  | c :: _ => if isSpace c || isBreak c then return k else refuse

/-- The lines of a block, which are at least so deep, without their depth. -/
def blockLines (depth : Nat) : (fuel : Nat) → Read (List (List Char))
  | 0 => return []
  | n + 1 => do
    let start ← get
    let spaces ← takeRun (· = ' ')
    match ← get with
    | [] => return []
    | c :: _ =>
      if !isBreak c && spaces.length < depth then
        set start
        return []
      let line ← takeRun (fun c => !isBreak c)
      let _ ← takeBreak?
      return (spaces.drop depth ++ line) :: (← blockLines depth n)

/-- Lines as one text, with a break after each but the last. Folded lines are joined by spaces, and
a break counts only where a line is empty or begins with a space. -/
def joinLines (folded : Bool) : List (List Char) → List Char
  | [] => []
  | [line] => line
  | line :: next :: rest =>
    let isText (l : List Char) : Bool := l.head?.any (fun c => !isSpace c)
    let glue := if folded && isText line && isText next then [' ']
      else if folded && isText line && next = [] then [] else ['\n']
    line ++ glue ++ joinLines folded (next :: rest)

/-- The text of a block of lines that are deeper than given, after its `|` or `>`. A `-` drops the
break at its end, a `+` keeps all breaks there. -/
def block (folded : Bool) (depth : Nat) : Read String := do
  let marks ← takeRun (fun c => c = '+' || c = '-')
  if 1 < marks.length then refuse
  restOfLine
  let start ← get
  skipRun (fun c => c = ' ' || isBreak c)
  let passed := start.take (start.length - (← remaining).length)
  let first := (passed.reverse.takeWhile (· = ' ')).length
  set start
  let lines ← blockLines (max first (depth + 1)) (start.length + 1)
  let kept := (lines.reverse.dropWhile (· = [])).reverse
  let ends := List.replicate (lines.length - kept.length) '\n'
  let body := joinLines folded kept
  if kept = [] then return if marks = ['+'] then String.ofList ends else ""
  return String.ofList (body ++ match marks with
    | ['-'] => []
    | ['+'] => '\n' :: ends
    | _ => ['\n'])

/-- A value that begins in the line of its key, or in a deeper one. -/
def lineValue (depth : Nat) : Read SettingValue := do
  if ← take? "|" then return .text (← block false depth)
  if ← take? ">" then return .text (← block true depth)
  match ← quoted? with
  | some s =>
    restOfLine
    return .text s
  | none =>
    let cs ← remaining
    if cs.head? = some '[' || cs.head? = some '\x7b' then
      let (v, _) ← part (2 * cs.length) .value
      restOfLine
      return v
    let first ← plain false
    let more ← plainMore depth cs.length
    restOfLine
    plainValue (first ++ more)

def beginsItem (cs : List Char) : Bool :=
  match cs with
  | '-' :: rest => rest.head?.all (fun c => isSpace c || isBreak c)
  | _ => false

def entryValue (depth : Nat) : Read SettingValue := do
  let start ← get
  match ← attempt restOfLine with
  | none =>
    set start
    skipRun isSpace
    lineValue depth
  | some () =>
    skipIdle
    let some m ← indent? | return .compound
    let here ← remaining
    let line := here.drop m
    if m < depth ∨ (m = depth ∧ !beginsItem line) then return .compound
    let isNested := beginsItem line || (key.run line).isSome
    if isNested then
      if m = depth then
        -- Items of a sequence may stand as deep as its key.
        skipRun (fun c => !isBreak c)
        let _ ← takeBreak?
      skipDeeper depth here.length
      return .compound
    set line
    lineValue depth

/-- Skips the further items of a sequence that stand as deep as its key. -/
def skipItems (depth : Nat) : (fuel : Nat) → Read Unit
  | 0 => return
  | n + 1 => do
    skipIdle
    let cs ← remaining
    if (cs.takeWhile (· = ' ')).length = depth && beginsItem (cs.drop depth) && !(← atMark) then
      skipRun (fun c => !isBreak c)
      let _ ← takeBreak?
      skipDeeper depth n
      skipItems depth n

/-- The entries of a mapping in lines that are so deep. -/
def entries (depth : Nat) : (fuel : Nat) → Read (List (String × SettingValue))
  | 0 => return []
  | n + 1 => do
    skipIdle
    let some m ← indent? | return []
    if ← atMark then return []
    if m ≠ depth then refuse
    skipRun (· = ' ')
    let k ← key
    let v ← entryValue depth
    skipItems depth n
    return (k, v) :: (← entries depth n)

/-- The settings in a document, by key; a document of comments has none. -/
def settings? (document : List Char) : Option (List (String × SettingValue)) :=
  let read : Read (List (String × SettingValue)) := do
    skipIdle
    if (← remaining) = [] then return []
    if ← atMark then
      take "---"
      restOfLine
      skipIdle
    let cs ← remaining
    let some depth ← indent? | refuse
    let es ← if (cs.drop depth).head? = some '\x7b' then do
        skipRun (· = ' ')
        let (_, es) ← part (2 * cs.length) .value
        restOfLine
        pure es
      else entries depth cs.length
    skipIdle
    if ← take? "..." then
      restOfLine
      skipIdle
    return es
  Text.Read.whole? read document

end Statewright.Yaml
