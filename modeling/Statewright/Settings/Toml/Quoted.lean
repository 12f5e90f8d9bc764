import Statewright.Settings.Toml.Basic

/-!
# Quoted texts in TOML

A text stands in double quotes, where a backslash begins an escape, or in single quotes, where
nothing does. Tripled quotes hold a text of several lines; a line break right after them is not
part of it.
-/

namespace Statewright.Toml

open Text (Read)
open Text.Read

structure Quoting where
  quote : Char
  multiline : Bool
  deriving DecidableEq, Repr

namespace Quoting

def mark (q : Quoting) : String :=
  String.ofList (List.replicate (if q.multiline then 3 else 1) q.quote)

def escapes (q : Quoting) : Bool :=
  q.quote = '"'

/-- The ways to quote a text, those with more quotes first. -/
def all : List Quoting :=
  [⟨'"', true⟩, ⟨'\x27', true⟩, ⟨'"', false⟩, ⟨'\x27', false⟩]

end Quoting

def escape : Read Char := do
  match ← next with
  | 'b' => return '\x08'
  | 't' => return '\t'
  | 'n' => return '\n'
  | 'f' => return '\x0c'
  | 'r' => return '\r'
  | '"' => return '"'
  | '\\' => return '\\'
  | 'u' => character (← hexNumber 4)
  | 'U' => character (← hexNumber 8)
  | _ => refuse

/-- Skips spaces and line breaks. Every line break takes a character, so the length of the document
is enough fuel. -/
def skipBlankLines : (fuel : Nat) → Read Unit
  | 0 => return
  | n + 1 => do
    skipSpaces
    if ← takeBreak? then skipBlankLines n

/-- Skips a line break after a backslash and the spaces and line breaks around it, if one is
there. -/
def skipFold : Read Bool := do
  let before ← get
  skipSpaces
  if ← takeBreak? then
    skipBlankLines before.length
    return true
  set before
  return false

/-- A text up to its closing quotes. Up to two quotes more before tripled ones belong to the text,
and every line break in it counts as a line feed. Every step takes a character, so the length of the
document is enough fuel. -/
def body (q : Quoting) : (fuel : Nat) → Read (List Char)
  | 0 => refuse
  | n + 1 => do
    if ← take? q.mark then
      if !q.multiline then return []
      if !(← take? (String.singleton q.quote)) then return []
      if !(← take? (String.singleton q.quote)) then return [q.quote]
      return [q.quote, q.quote]
    if q.multiline then
      if ← takeBreak? then return '\n' :: (← body q n)
    let c ← next
    if q.escapes && c = '\\' then
      -- A backslash at the end of a line is no escape.
      if q.multiline then
        if ← skipFold then return ← body q n
      let d ← escape
      return d :: (← body q n)
    else if isPlain c then return c :: (← body q n)
    else refuse

/-- A text quoted in one of the given ways, if one comes next. -/
def quotedIn? : List Quoting → Read (Option String)
  | [] => return none
  | q :: qs => do
    if !(← take? q.mark) then return ← quotedIn? qs
    if q.multiline then
      let _ ← takeBreak?
    let fuel := (← remaining).length + 1
    return some (String.ofList (← body q fuel))

def quoted? : Read (Option String) :=
  quotedIn? Quoting.all

/-- A quoted key, if one comes next: it stands on one line. -/
def quotedKey? : Read (Option String) :=
  quotedIn? (Quoting.all.filter (fun q => !q.multiline))

end Statewright.Toml
