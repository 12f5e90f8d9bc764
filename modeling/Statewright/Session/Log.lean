import Statewright.FileTree.Basic
import Statewright.Text.Utf8

/-!
# The session log

At most one file is kept as a log of statements and responses. Entries are collected and written at
once; what could not be written stays collected and is tried again with the next entry.
-/

namespace Statewright

structure Log where
  path : String
  handle : FileTree.Handle
  pending : List UInt8
  deriving DecidableEq, Repr

inductive LogStop where
  | stopped
  | failed (e : FileError)
  | notEnabled
  deriving DecidableEq, Repr

def LogStop.message : LogStop → String
  | stopped => "STOPPED LOGGING"
  | failed e => s!"Error while closing log file: {e.message}"
  | notEnabled => "LOGGING was not enabled"

namespace Log

/-- One entry: the statement on a line of its own, and the response. -/
def entry (statement response : String) : List UInt8 :=
  Text.Utf8.encode s!"> {statement}\n{response}\n".toList

def flush (log : Log) (t : FileTree) : FileTree × Log × Except FileError Unit :=
  match t.write log.handle log.pending with
  | .ok (t, handle) => (t, { log with handle := handle, pending := [] }, .ok ())
  | .error e => (t, log, .error e)

def record (log : Log) (t : FileTree) (statement response : String) :
    FileTree × Log × Except FileError Unit :=
  { log with pending := log.pending ++ entry statement response }.flush t

/-- Closes the log that is kept, if one is. Afterwards none is, even if the rest cannot be
written. -/
def stop (log : Option Log) (t : FileTree) : FileTree × LogStop :=
  match log with
  | none => (t, .notEnabled)
  | some log =>
    match log.flush t with
    | (t, _, .ok ()) => (t, .stopped)
    | (t, _, .error e) => (t, .failed e)

/-- Closes the log that is kept and starts one at a path, in place of what was there. -/
def start (log : Option Log) (t : FileTree) (path : String) :
    FileTree × Option Log × Except FileError Unit :=
  let (t, _) := stop log t
  match t.openWrite path with
  | .ok (t, handle) => (t, some ⟨path, handle, []⟩, .ok ())
  | .error e => (t, none, .error e)

def startedMessage (path : String) : String :=
  s!"Started logging to {path}"

end Log

end Statewright
