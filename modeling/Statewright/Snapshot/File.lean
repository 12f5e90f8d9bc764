import Statewright.FileTree.Basic
import Statewright.Machine.Script
import Statewright.Snapshot.Binary
import Statewright.Snapshot.Json

/-!
# Snapshot files

A snapshot is saved in binary or in JSON. Saving writes a temporary file beside the file first and
then gives it the file's name, so that a failed save leaves the file as it was. Loading reads the
file, decodes it and restores the machine; whatever is wrong with its contents is reported with its
path.
-/

namespace Statewright

inductive Format where
  | binary
  | json
  deriving DecidableEq, Repr

/-- The encoding that a path's extension asks for, if it asks for one. The extension of compiled
files comes first. -/
def Format.ofPath? (path compiledExtension : String) : Option Format :=
  match Path.extension? path with
  | none => none
  | some extension =>
    if Text.sameWord extension compiledExtension then some .binary
    else if Text.sameWord extension "json" then some .json
    else none

inductive DecodeFault where
  | binary (f : Snapshot.Binary.Fault)
  | json (e : Json.Error)
  /-- The bytes of a JSON text are not UTF-8. -/
  | encoding (f : Text.Utf8.Fault)
  deriving DecidableEq, Repr

def DecodeFault.message (f : DecodeFault) : String :=
  let reason := match f with
    | binary f => f.message
    | json e => e.message
    | encoding f => f.message
  s!"Deserialization failed: {reason}"

/-- Why a snapshot is not saved, loaded or restored. -/
inductive SnapshotError where
  | file (path : String) (e : FileError)
  | undecodableFile (path : String) (f : DecodeFault)
  | inconsistentFile (path : String) (reason : Inconsistency)
  | unsupportedVersion (found : UInt32)
  | undecodable (f : DecodeFault)
  | inconsistent (reason : Inconsistency)
  deriving DecidableEq

namespace SnapshotError

def message : SnapshotError → String
  | file path e => s!"Error with file '{path}': {e.message}"
  | undecodableFile path f => s!"File '{path}' does not contain a valid FSM: {f.message}"
  | inconsistentFile path reason =>
    s!"File '{path}' does not contain a valid FSM: {reason.message}"
  | unsupportedVersion found => s!"Unsupported checkpoint version {found.toNat}, supported: 1"
  | undecodable f => f.message
  | inconsistent reason => s!"Checkpoint validation failed: {reason.message}"

def ofRestore : RestoreError → SnapshotError
  | .unsupportedVersion found => unsupportedVersion found
  | .inconsistent reason => inconsistent reason

def ofFileRestore (path : String) : RestoreError → SnapshotError
  | .unsupportedVersion found => unsupportedVersion found
  | .inconsistent reason => inconsistentFile path reason

end SnapshotError

namespace Snapshot

def encode (c : Snapshot) : Format → List UInt8
  | .binary => Binary.encode c
  | .json => Text.Utf8.encode (Json.encode c).toList

def decode (bytes : List UInt8) : Format → Except DecodeFault Snapshot
  | .binary => (Binary.decode bytes).mapError .binary
  | .json => do
    let cs ← (Text.Utf8.decode bytes).mapError DecodeFault.encoding
    (Json.decode (String.ofList cs)).mapError .json

def temporaryPath (path : String) : String :=
  path ++ ".tmp"

/-- Saves a snapshot. The tree is given back also where saving fails half-way. -/
def save (c : Snapshot) (t : FileTree) (path : String) (format : Format) :
    FileTree × Except SnapshotError Unit :=
  match t.writeFile (temporaryPath path) (c.encode format) with
  | .error e => (t, .error (.file path e))
  | .ok written =>
    match written.rename (temporaryPath path) path with
    | .error e => (written, .error (.file path e))
    | .ok saved => (saved, .ok ())

def load (t : FileTree) (path : String) (format : Format) : Except SnapshotError Snapshot := do
  let bytes ← (t.readFile path).mapError (SnapshotError.file path)
  (decode bytes format).mapError (SnapshotError.undecodableFile path)

def loadMachine (t : FileTree) (path : String) (format : Format) :
    Except SnapshotError Machine := do
  let c ← load t path format
  c.restore.mapError (SnapshotError.ofFileRestore path)

end Snapshot

def Machine.writeScript (m : Machine) (t : FileTree) (path : String) :
    Except SnapshotError FileTree :=
  (t.writeFile path (Text.Utf8.encode m.script.toList)).mapError (.file path)

end Statewright
