import Statewright.Text.Reading

/-!
# The small parts of TOML

Spaces, comments and line breaks, as they occur in all parts of a document.
-/

namespace Statewright.Toml

open Text (Read)
open Text.Read

def isSpace (c : Char) : Bool :=
  c = ' ' || c = '\t'

def skipSpaces : Read Unit := do
  skipRun isSpace

/-- Whether a character may stand in a comment or a text as it is: every one but controls. -/
def isPlain (c : Char) : Bool :=
  c = '\t' || (0x20 ≤ c.toNat && c.toNat ≠ 0x7F)

def skipComment : Read Unit := do
  if ← take? "#" then
    skipRun isPlain

def takeBreak? : Read Bool := do
  if ← take? "\n" then return true
  take? "\r\n"

def restOfLine : Read Unit := do
  skipSpaces
  skipComment
  match ← remaining with
  | [] => return
  | _ => if !(← takeBreak?) then refuse

/-- Skips spaces, comments and line breaks inside a list. Every line break takes a character, so the
length of the document is enough fuel. -/
def skipFiller : (fuel : Nat) → Read Unit
  | 0 => return
  | n + 1 => do
    skipSpaces
    skipComment
    if ← takeBreak? then skipFiller n

end Statewright.Toml
