import Statewright.Settings.Value

/-!
# What a TOML document defines

A document defines paths one after the other, and none twice. A table may be passed on the way to
another one before its own header comes, and keys with points may make tables and add to them as
long as no header has named them. So each path is kept with what it stands for.
-/

namespace Statewright.Toml

/-- The keys that lead to something from the top of a document. -/
abbrev KeyPath := List String

inductive Node where
  | value (v : SettingValue)
  /-- A table: whether it was only passed on the way to something inside, and whether keys with
  points made it. -/
  | table (isImplicit isDotted : Bool)
  /-- A list of tables. What is kept below its path belongs to the last of them. -/
  | tables

/-- What a document has defined so far, by path. -/
structure Tree where
  nodes : List (KeyPath × Node)

namespace Tree

def empty : Tree := ⟨[]⟩

def find? (t : Tree) (path : KeyPath) : Option Node :=
  (t.nodes.find? (fun n => n.1 = path)).map Prod.snd

/-- Lets a path stand for something, in place of what it stood for. -/
def put (t : Tree) (path : KeyPath) (n : Node) : Tree :=
  ⟨t.nodes.filter (fun m => m.1 ≠ path) ++ [(path, n)]⟩

/-- Goes down from the table at a path by some keys, and makes the tables that are not there.
Values are no tables, and keys with points do not enter a table that a header has named. -/
def descend? (isDotted : Bool) (t : Tree) (start : KeyPath) : (keys : List String) → Option Tree
  | [] => some t
  | key :: keys =>
    let path := start ++ [key]
    match t.find? path with
    | none => descend? isDotted (t.put path (.table true isDotted)) path keys
    | some (.value _) => none
    | some (.table isImplicit _) =>
      if isDotted && !isImplicit then none else descend? isDotted t path keys
    | some .tables => descend? isDotted t path keys

/-- Defines keys with points between them inside the table at a path. All but the last key name
tables that such keys have made; the last one is new. -/
def addEntry? (t : Tree) (table keys : KeyPath) (v : SettingValue) : Option Tree := do
  let way := keys.dropLast
  let t ← t.descend? true table way
  let isOpen := match t.find? (table ++ way) with
    | some (.table _ isDotted) => isDotted
    | _ => false
  if way ≠ [] && !isOpen then none
  else
    match t.find? (table ++ keys) with
    | some _ => none
    | none => some (t.put (table ++ keys) (.value v))

/-- Defines a table by its header. It is new, or was only passed on the way to another one. -/
def addTable? (t : Tree) (path : KeyPath) : Option Tree := do
  let t ← t.descend? false [] path.dropLast
  match t.find? path with
  | none | some (.table true false) => some (t.put path (.table false false))
  | _ => none

/-- Adds a table to a list of tables by its header. Below the path everything is free again. -/
def addToList? (t : Tree) (path : KeyPath) : Option Tree := do
  let t ← t.descend? false [] path.dropLast
  match t.find? path with
  | none => some (t.put path .tables)
  | some .tables => some ⟨t.nodes.filter (fun n => n.1 = path || !path.isPrefixOf n.1)⟩
  | _ => none

def settings (t : Tree) : List (String × SettingValue) :=
  t.nodes.filterMap (fun (path, n) =>
    match path, n with
    | [key], .value v => some (key, v)
    | [key], _ => some (key, .compound)
    | _, _ => none)

end Tree

end Statewright.Toml
