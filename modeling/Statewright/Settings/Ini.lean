import Statewright.Settings.Value
import Statewright.Text.Blank
import Statewright.Text.Reading

/-!
# Settings in INI

Keys and values in lines, and sections under names in brackets. Values are texts. The entries before
the first section are settings; a section is a table.
-/

namespace Statewright.Ini

open Text (Read)
open Text.Read

/-- The character of an escape after its backslash. Any other character stands for itself. -/
def escape : Read Char := do
  match ← next with
  | '0' => return '\x00'
  | 'a' => return '\x07'
  | 'b' => return '\x08'
  | 't' => return '\t'
  | 'r' => return '\r'
  | 'n' => return '\n'
  | 'x' => character (← hexNumber 4)
  | c => return c

/-- The characters up to one that passes a test, which stays. Every step takes a character, so the
length of the document is enough fuel. -/
def upTo (isEnd : Char → Bool) (mayEnd : Bool) : (fuel : Nat) → Read (List Char)
  | 0 => return []
  | n + 1 => do
    match ← get with
    | [] => if mayEnd then return [] else refuse
    | c :: cs =>
      if isEnd c then return []
      set cs
      let d ← if c = '\\' then escape else pure c
      return d :: (← upTo isEnd mayEnd n)

def isBreak (c : Char) : Bool :=
  c = '\n' || c = '\r'

def restOfLine : Read (List Char) := do
  upTo isBreak true ((← remaining).length + 1)

/-- The characters up to a given one, which has to come. -/
def through (last : Char) : Read (List Char) := do
  let run ← upTo (· = last) false ((← remaining).length + 1)
  let _ ← next
  return run

/-- A value after its sign: the rest of the line, of which a part in front may be quoted. -/
def value : Read (List Char) := do
  skipRun (fun c => Text.isBlank c && !isBreak c)
  if ← take? "\"" then return (← through '"') ++ (← restOfLine)
  if ← take? "\x27" then return (← through '\x27') ++ (← restOfLine)
  restOfLine

def trimmed (cs : List Char) : String :=
  Text.trim (String.ofList cs)

/-- A key, and the value after its `=` or `:`. -/
def entry : Read (String × SettingValue) := do
  let key ← upTo (fun c => c = '=' || c = ':') false ((← remaining).length + 1)
  let _ ← next
  if trimmed key = "" then refuse
  return (trimmed key, .text (trimmed (← value)))

/-- Skips blanks, and tells whether a line begins after them. -/
def skipToItem (atStart : Bool) : Read Bool := do
  let blanks ← takeRun Text.isBlank
  return match blanks.getLast? with
    | some c => c = '\n'
    | none => atStart

/-- Reads items up to the end of the document: settings as long as no section began. Comments begin
with a line. Every item takes a character, so the length of the document is enough fuel. -/
def items : (fuel : Nat) → (atStart inSection : Bool) → Read (List (String × SettingValue))
  | 0, _, _ => return []
  | n + 1, atStart, inSection => do
    let atStart ← skipToItem atStart
    match ← get with
    | [] => return []
    | c :: cs =>
      if c = ';' ∨ c = '#' then
        if !atStart then refuse
        skipRun (· ≠ '\n')
        items n false inSection
      else if c = '[' then
        set cs
        let name ← through ']'
        return (trimmed name, .compound) :: (← items n false true)
      else
        let e ← entry
        let rest ← items n false inSection
        return if inSection then rest else e :: rest

def settings? (document : List Char) : Option (List (String × SettingValue)) :=
  (items (document.length + 1) true false).run document |>.map Prod.fst

end Statewright.Ini
