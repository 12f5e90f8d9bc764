import Statewright.FileTree.Path

/-!
# File trees

A tree of directories and files with one working directory. Contents are kept apart from names: a
file that is open stays the same file when its name is given to another one, and a file can have
several names. There are no symbolic links. There is one device, `/dev/full`, which takes no byte and
gives zeros without end.
-/

namespace Statewright

/-- Where a file or directory is: the names that lead there from the root. -/
abbrev Location := List String

inductive Entry where
  | directory
  | file (id : Nat)
  | fullDevice
  deriving DecidableEq, Repr

structure FileTree where
  /-- What each location holds, the root apart. -/
  entries : List (Location × Entry)
  /-- The contents of files by number, those without a name included. -/
  contents : List (List UInt8)
  /-- The directory at which relative paths begin. -/
  working : Location
  deriving DecidableEq

namespace FileTree

/-- The non-empty beginnings of a location, shortest first. -/
def ancestors (l : Location) : List Location :=
  (List.range l.length).map (fun n => l.take (n + 1))

/-- A tree with a working directory and the full device. -/
def empty (working : Location) : FileTree where
  entries := [(["dev"], .directory), (["dev", "full"], .fullDevice)] ++
    (ancestors working).map (fun l => (l, .directory))
  contents := []
  working := working

/-- What a location holds. The root is a directory. -/
def lookup (t : FileTree) (l : Location) : Option Entry :=
  match l with
  | [] => some .directory
  | _ => (t.entries.find? (fun e => e.1 = l)).map Prod.snd

/-- Lets a location hold something, in place of what it held. -/
def bind (t : FileTree) (l : Location) (e : Entry) : FileTree :=
  if (t.entries.find? (fun x => x.1 = l)).isSome then
    { t with entries := t.entries.map (fun x => if x.1 = l then (l, e) else x) }
  else
    { t with entries := t.entries ++ [(l, e)] }

def unbind (t : FileTree) (l : Location) : FileTree :=
  { t with entries := t.entries.filter (fun x => x.1 ≠ l) }

def content (t : FileTree) (id : Nat) : List UInt8 :=
  t.contents.getD id []

def setContent (t : FileTree) (id : Nat) (bytes : List UInt8) : FileTree :=
  { t with contents := t.contents.set id bytes }

/-! ## Following paths -/

def enter (t : FileTree) (dir : Location) (name : String) : Except FileError Location :=
  if name = "." then .ok dir
  else if name = ".." then .ok dir.dropLast
  else if Path.maxName < name.utf8ByteSize then .error .nameTooLong
  else
    match t.lookup (dir ++ [name]) with
    | none => .error .notFound
    | some .directory => .ok (dir ++ [name])
    | some _ => .error .notDirectory

/-- Where a path leads: to a name in a directory, or to a directory without naming it. -/
inductive Goal where
  | named (parent : Location) (name : String)
  | unnamed (directory : Location)
  deriving DecidableEq, Repr

def follow (t : FileTree) (p : Path) : Except FileError Goal := do
  let start := if p.absolute then [] else t.working
  match p.names.getLast? with
  | none => return .unnamed start
  | some last =>
    let parent ← p.names.dropLast.foldlM t.enter start
    if last = "." ∨ last = ".." then
      return .unnamed (← t.enter parent last)
    else
      return .named parent last

def locate (t : FileTree) (raw : String) : Except FileError (Location × Entry) := do
  let p ← Path.parse raw
  match ← t.follow p with
  | .unnamed dir => return (dir, .directory)
  | .named parent name =>
    if Path.maxName < name.utf8ByteSize then
      throw .nameTooLong
    match t.lookup (parent ++ [name]) with
    | none => throw .notFound
    | some e =>
      if p.slash ∧ e ≠ .directory then throw .notDirectory
      return (parent ++ [name], e)

def exists? (t : FileTree) (raw : String) : Bool :=
  (t.locate raw).isOk

/-! ## Open files -/

/-- A file that is open, and how far it was read or written. -/
structure Handle where
  entry : Entry
  offset : Nat
  deriving DecidableEq, Repr

/-- Opens what a path leads to for reading. Directories open, but cannot be read. -/
def openRead (t : FileTree) (raw : String) : Except FileError (Location × Handle) :=
  (t.locate raw).map (fun (l, e) => (l, ⟨e, 0⟩))

/-- Opens a file for writing: an existing one is emptied, a missing one is created. -/
def openWrite (t : FileTree) (raw : String) : Except FileError (FileTree × Handle) := do
  let p ← Path.parse raw
  match ← t.follow p with
  | .unnamed _ => throw .isDirectory
  | .named parent name =>
    if p.slash then
      throw .isDirectory
    if Path.maxName < name.utf8ByteSize then
      throw .nameTooLong
    match t.lookup (parent ++ [name]) with
    | some .directory => throw .isDirectory
    | some .fullDevice => return (t, ⟨.fullDevice, 0⟩)
    | some (.file id) => return (t.setContent id [], ⟨.file id, 0⟩)
    | none =>
      let id := t.contents.length
      let created := t.bind (parent ++ [name]) (.file id)
      return ({ created with contents := created.contents ++ [[]] }, ⟨.file id, 0⟩)

/-- Contents with some bytes written over them from an offset on. A gap before it fills with
zeros. -/
def overwrite (old : List UInt8) (offset : Nat) (bytes : List UInt8) : List UInt8 :=
  old.take offset ++ List.replicate (offset - old.length) 0 ++ bytes ++
    old.drop (offset + bytes.length)

def write (t : FileTree) (h : Handle) (bytes : List UInt8) :
    Except FileError (FileTree × Handle) :=
  match bytes with
  | [] => .ok (t, h)
  | _ =>
    match h.entry with
    | .directory => .error .isDirectory
    | .fullDevice => .error .noSpace
    | .file id =>
      .ok (t.setContent id (overwrite (t.content id) h.offset bytes),
        { h with offset := h.offset + bytes.length })

/-- Reads at most so many bytes where a handle stands. The device always gives as many zeros. -/
def read (t : FileTree) (h : Handle) (most : Nat) : Except FileError (List UInt8 × Handle) :=
  match h.entry with
  | .directory => .error .isDirectory
  | .fullDevice => .ok (List.replicate most 0, h)
  | .file id =>
    let bytes := ((t.content id).drop h.offset).take most
    .ok (bytes, { h with offset := h.offset + bytes.length })

/-! ## Whole files -/

/-- Reads a file to its end. The device has none: there is no memory for what it gives. -/
def readFile (t : FileTree) (raw : String) : Except FileError (List UInt8) := do
  let (_, e) ← t.locate raw
  match e with
  | .directory => throw .isDirectory
  | .fullDevice => throw .outOfMemory
  | .file id => return t.content id

/-- The bytes of the file that a path leads to, if it leads to a file and not to a directory or the
device. -/
def regular? (t : FileTree) (raw : String) : Option (List UInt8) :=
  match t.locate raw with
  | .ok (_, .file id) => some (t.content id)
  | _ => none

def writeFile (t : FileTree) (raw : String) (bytes : List UInt8) : Except FileError FileTree := do
  let (t, h) ← t.openWrite raw
  let (t, _) ← t.write h bytes
  return t

/-- Gives a file another name. A file that had the name loses it; a directory keeps it. Directories
are not given other names. Where both names are of one file, it keeps them. -/
def rename (t : FileTree) (old new : String) : Except FileError FileTree := do
  let source ← Path.parse old
  let target ← Path.parse new
  match ← t.follow source, ← t.follow target with
  | .named sourceParent sourceName, .named targetParent targetName =>
    let sourceLocation := sourceParent ++ [sourceName]
    let targetLocation := targetParent ++ [targetName]
    match t.lookup sourceLocation with
    | none => throw .notFound
    | some .directory => throw .isDirectory
    | some e =>
      if Path.maxName < targetName.utf8ByteSize then
        throw .nameTooLong
      if source.slash ∨ target.slash then
        throw .notDirectory
      if t.lookup targetLocation = some .directory then
        throw .isDirectory
      if t.lookup targetLocation = some e then
        return t
      return (t.unbind sourceLocation).bind targetLocation e
  | _, _ => throw .busy

/-! ## Building and listing -/

def addDirectory (t : FileTree) (l : Location) : FileTree :=
  (ancestors l).foldl (fun t l => if (t.lookup l).isSome then t else t.bind l .directory) t

def addFile (t : FileTree) (l : Location) (bytes : List UInt8) : FileTree :=
  let t := t.addDirectory l.dropLast
  let id := t.contents.length
  let t := t.bind l (.file id)
  { t with contents := t.contents ++ [bytes] }

/-- Gives a location the bytes of a file. A file that is there keeps its number. -/
def putFile (t : FileTree) (l : Location) (bytes : List UInt8) : FileTree :=
  match t.lookup l with
  | some (.file id) => if t.content id = bytes then t else t.setContent id bytes
  | _ => t.addFile l bytes

def file? (t : FileTree) (l : Location) : Option (List UInt8) :=
  match t.lookup l with
  | some (.file id) => some (t.content id)
  | _ => none

/-- Everything below the working directory, by the names that lead there from it: the bytes of
files, and none for directories. -/
def listing (t : FileTree) : List (Location × Option (List UInt8)) :=
  t.entries.filterMap (fun (l, e) =>
    if t.working.isPrefixOf l && l ≠ t.working then
      let below := l.drop t.working.length
      match e with
      | .directory => some (below, none)
      | .file id => some (below, some (t.content id))
      | .fullDevice => none
    else none)

end FileTree

end Statewright
