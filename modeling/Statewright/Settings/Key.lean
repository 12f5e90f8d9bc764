import Statewright.Settings.Value
import Statewright.Text.Blank

/-!
# Keys of settings

A key names a setting, or something inside one: `a.b` is the entry `b` of the setting `a`, and
`a[0]` its first item. To give a value to something inside a setting makes the setting a table or a
list. A text of any other form is the name of a setting as it stands.
-/

namespace Statewright.SettingKey

def isNamePart (c : Char) : Bool :=
  c.isAlphanum || c = ' ' || c = '_' || c = '-'

def name? (cs : List Char) : Option (List Char × List Char) :=
  match cs.span isNamePart with
  | ([], _) => none
  | (name, rest) => some (name, rest)

def afterIndex? (cs : List Char) : Option (List Char) := do
  let (index, rest) := cs.span (· ≠ ']')
  let trimmed := (index.dropWhile (· = ' ')).reverse.dropWhile (· = ' ')
  let _ ← SettingValue.readInteger? trimmed.reverse
  match rest with
  | ']' :: rest => some rest
  | _ => none

/-- Whether a text is a row of steps down: names after points, and indices in brackets. Every step
takes a character, so the length of the text is enough fuel. -/
def isSteps : (fuel : Nat) → List Char → Bool
  | _, [] => true
  | n + 1, '.' :: cs => ((name? cs).map (fun (_, rest) => isSteps n rest)).getD false
  | n + 1, '[' :: cs => ((afterIndex? cs).map (isSteps n)).getD false
  | _, _ => false

/-- The setting in which a key names something, unless the key names a setting itself. -/
def inside? (key : String) : Option String := do
  let (name, steps) ← name? key.toList
  if steps ≠ [] && isSteps steps.length steps then some (String.ofList name) else none

/-- What a setting is given when a key is given a value. -/
def assign (key : String) (v : SettingValue) : String × SettingValue :=
  match inside? key with
  | some setting => (setting, .compound)
  | none => (key, v)

end Statewright.SettingKey
