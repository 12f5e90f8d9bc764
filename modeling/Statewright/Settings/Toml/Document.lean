import Statewright.Settings.Toml.Moment
import Statewright.Settings.Toml.Number
import Statewright.Settings.Toml.Quoted
import Statewright.Settings.Toml.Tree

/-!
# TOML documents

Reads the entries of a document. Only those at its top count as settings; tables and lists are
checked for their form and otherwise passed over.
-/

namespace Statewright.Toml

open Text (Read)
open Text.Read

/-! ## Keys and values -/

/-- A key: a bare word or a quoted text. -/
def key : Read String := do
  match ← quotedKey? with
  | some s => return s
  | none =>
    match ← takeRun (fun c => c.isAlphanum || c = '_' || c = '-') with
    | [] => refuse
    | run => return String.ofList run

/-- Keys may have fewer than this many parts, and values be nested less deep. -/
def nestingBound : Nat := 80

/-- Keys with points between them, and the spaces around them. -/
def keysUpTo : (most : Nat) → Read KeyPath
  | 0 => refuse
  | n + 1 => do
    skipSpaces
    let k ← key
    skipSpaces
    if ← take? "." then return k :: (← keysUpTo n) else return [k]

def keyPath : Read KeyPath :=
  keysUpTo (nestingBound - 1)

def wordValue? (cs : List Char) : Option SettingValue :=
  if cs = "true".toList then some (.boolean true)
  else if cs = "false".toList then some (.boolean false)
  else
    match integer? cs with
    | some n => some (.integer n)
    | none => (float? cs).map .float

/-- A value that is neither a list nor an inline table. -/
def plainValue : Read SettingValue := do
  match ← quoted? with
  | some s => return .text s
  | none =>
    match ← attempt moment with
    | some s => return .text s
    | none =>
      let run ← takeRun (fun c => c.isAlphanum || c = '_' || c = '+' || c = '-' || c = '.')
      let some v := wordValue? run | refuse
      return v

inductive Part where
  | value
  | items
  /-- The next entry of an inline table or its end, and what the table has so far. -/
  | entries (isFirst : Bool) (t : Tree)

/-- A value, or the rest of a list or inline table, with room for so many more levels inside. At
most every second step takes no character, so twice the length of the document is enough fuel. -/
def part : (fuel : Nat) → (room : Nat) → Part → Read SettingValue
  | 0, _, _ => refuse
  | n + 1, room, .value => do
    if ← take? "[" then
      if room = 0 then refuse
      return ← part n (room - 1) .items
    if ← take? "\x7b" then
      if room = 0 then refuse
      return ← part n (room - 1) (.entries true .empty)
    plainValue
  | n + 1, room, .items => do
    skipFiller n
    if ← take? "]" then return .compound
    let _ ← part n room .value
    skipFiller n
    if ← take? "," then return ← part n room .items
    take "]"
    return .compound
  | n + 1, room, .entries isFirst t => do
    skipSpaces
    if isFirst then
      if ← take? "\x7d" then return .compound
    let keys ← keyPath
    take "="
    skipSpaces
    let v ← part n room .value
    let some t := t.addEntry? [] keys v | refuse
    skipSpaces
    if ← take? "," then return ← part n room (.entries false t)
    take "\x7d"
    return .compound

def value : Read SettingValue := do
  part (2 * (← remaining).length + 1) (nestingBound - 1) .value

/-! ## Documents -/

/-- A header line in brackets, single or double: the table that the next lines belong to, and what
is defined now. -/
def header (t : Tree) : Read (KeyPath × Tree) := do
  let isList ← take? "[["
  if !isList then take "["
  let path ← keyPath
  take (if isList then "]]" else "]")
  restOfLine
  let some t := (if isList then t.addToList? path else t.addTable? path) | refuse
  return (path, t)

/-- An entry line inside a table, and what is defined now. -/
def entry (table : KeyPath) (t : Tree) : Read Tree := do
  let keys ← keyPath
  take "="
  skipSpaces
  let v ← value
  restOfLine
  let some t := t.addEntry? table keys v | refuse
  return t

/-- Reads lines up to the end of the document, inside the given table. Every line takes a character,
so the length of the document is enough fuel. -/
def lines : (fuel : Nat) → (table : KeyPath) → Tree → Read Tree
  | 0, _, _ => refuse
  | n + 1, table, t => do
    skipSpaces
    match ← remaining with
    | [] => return t
    | '#' :: _ | '\n' :: _ | '\r' :: _ =>
      restOfLine
      lines n table t
    | '[' :: _ =>
      let (table, t) ← header t
      lines n table t
    | _ =>
      let t ← entry table t
      lines n table t

/-- The settings at the top of a document, by key, or `none` for an ill-formed document. A byte
order mark in front does not count. -/
def settings? (document : List Char) : Option (List (String × SettingValue)) := do
  let read : Read Tree := do
    let _ ← take? "\uFEFF"
    lines (document.length + 1) [] .empty
  let (t, _) ← read.run document
  return t.settings

end Statewright.Toml
