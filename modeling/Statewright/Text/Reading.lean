import Statewright.Text.Hex

/-!
# Reading off the front of a text

What readers of documents share when it only counts whether a document is well formed: they take
characters off its front, or refuse it.
-/

namespace Statewright.Text

/-- Reads something off the front of a text; `none` where the text is ill formed. -/
abbrev Read (α : Type) := StateT (List Char) Option α

namespace Read

def refuse {α : Type} : Read α := fun _ => none

def remaining : Read (List Char) := get

def next? : Read (Option Char) := do
  match ← get with
  | [] => return none
  | c :: cs =>
    set cs
    return some c

def next : Read Char := do
  let some c ← next? | refuse
  return c

def take? (expected : String) : Read Bool := do
  let cs ← get
  let wanted := expected.toList
  if wanted.isPrefixOf cs then
    set (cs.drop wanted.length)
    return true
  else
    return false

def take (expected : String) : Read Unit := do
  if !(← take? expected) then refuse

def takeRun (test : Char → Bool) : Read (List Char) := do
  let cs ← get
  set (cs.dropWhile test)
  return cs.takeWhile test

def skipRun (test : Char → Bool) : Read Unit := do
  let _ ← takeRun test

/-- Takes so many hexadecimal digits: the number that they spell. -/
def hexNumber (digits : Nat) : Read Nat := do
  let cs ← get
  let spelled := cs.take digits
  let some n := Hex.number? spelled | refuse
  if spelled.length ≠ digits then refuse
  set (cs.drop digits)
  return n

def character (n : Nat) : Read Char :=
  if n.isValidChar then return Char.ofNat n else refuse

/-- Takes what a reader takes, or nothing if it refuses. -/
def attempt {α : Type} (read : Read α) : Read (Option α) := fun cs =>
  match read cs with
  | some (a, rest) => some (some a, rest)
  | none => some (none, cs)

/-- What a reader makes of a whole text. -/
def whole? {α : Type} (read : Read α) (cs : List Char) : Option α :=
  match read cs with
  | some (a, []) => some a
  | _ => none

end Read

end Statewright.Text
