import Statewright.Session.Log

/-!
# Recorders

A recorder keeps a log as a session does, but takes nothing else: a log is started, stopped, and
given entries, in any order. What was asked of a recorder and what it answered is its history.
-/

namespace Statewright

/-- The log that is kept, if one is, and the files. -/
structure Recorder where
  log : Option Log
  files : FileTree
  deriving DecidableEq

namespace Recorder

inductive Step where
  | start (path : String)
  | stop
  | record (statement response : String)
  deriving DecidableEq, Repr

/-- A step that was taken, and its answer: a message, silence, or the error of a file. -/
structure Event where
  step : Step
  answer : Except FileError (Option String)

/-- A recorder that keeps no log yet. -/
def fresh (files : FileTree) : Recorder :=
  ⟨none, files⟩

def isActive (r : Recorder) : Bool :=
  r.log.isSome

def path? (r : Recorder) : Option String :=
  r.log.map Log.path

/-- Takes a step. Without a log there is nothing to record in. -/
def perform (r : Recorder) : Step → Recorder × Except FileError (Option String)
  | .start path =>
    let (files, log, result) := Log.start r.log r.files path
    (⟨log, files⟩, result.map (fun _ => some (Log.startedMessage path)))
  | .stop =>
    let (files, result) := Log.stop r.log r.files
    (⟨none, files⟩, .ok (some result.message))
  | .record statement response =>
    match r.log with
    | none => (r, .ok none)
    | some log =>
      let (files, log, result) := log.record r.files statement response
      (⟨some log, files⟩, result.map (fun _ => none))

/-- Takes one step after the other. Gives what happened as well. -/
def run (r : Recorder) : List Step → Recorder × List Event
  | [] => (r, [])
  | step :: steps =>
    let (next, answer) := r.perform step
    let (last, events) := next.run steps
    (last, ⟨step, answer⟩ :: events)

end Recorder

end Statewright
