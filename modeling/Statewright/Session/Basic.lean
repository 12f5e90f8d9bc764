import Statewright.Session.Log
import Statewright.Session.Transcript
import Statewright.Settings.Basic

/-!
# Sessions

A session holds one machine, the log, the files, and what it wrote so far. The commands that need
nothing else are performed here. A command answers with a response, with silence, or with a failure;
a failure leaves the machine as it was.
-/

namespace Statewright

inductive Mode where
  | interactive
  | script
  deriving DecidableEq, Repr

structure Session where
  settings : Settings
  stamp : Stamp
  machine : Machine
  log : Option Log
  /-- Whether EXIT is still to come. -/
  running : Bool
  loading : List Location
  files : FileTree
  output : Transcript

/-- The answer to a command: a response, silence, or a failure. -/
abbrev Reply := Except Failure (Option String)

namespace Session

def start (settings : Settings) (stamp : Stamp) (files : FileTree) : Session where
  settings := settings
  stamp := stamp
  machine := .empty
  log := none
  running := true
  loading := []
  files := files
  output := []

def say (s : Session) (item : Item) : Session :=
  { s with output := s.output ++ [item] }

def listing {α : Type} [ToString α] (entries : List α) : String :=
  "[" ++ ", ".intercalate (entries.map toString) ++ "]"

/-- Lines as one response; no lines are silence. -/
def joinLines : List String → Option String
  | [] => none
  | lines => some ("\n".intercalate lines)

def notices (o : Outcome) : Option String :=
  joinLines (o.notices.map Notice.message)

/-- Performs one edit after the other, each of them on its own: a failure is told in its place and
stops none of the others. Gives the lines to respond with. -/
def editEachAlone (m : Machine) : List Edit → Machine × List String
  | [] => (m, [])
  | e :: es =>
    match m.edit e with
    | .ok (edited, outcome) =>
      let (last, lines) := editEachAlone edited es
      (last, outcome.notices.map Notice.message ++ lines)
    | .error err =>
      let (last, lines) := editEachAlone m es
      (last, ("Error: " ++ err.message) :: lines)

/-- Performs edits on their own and responds with what is to be told. -/
def declare (s : Session) (edits : List Edit) : Session × Reply :=
  let (m, lines) := editEachAlone s.machine edits
  ({ s with machine := m }, .ok (joinLines lines))

/-- Performs edits, all or none of them. -/
def editAll (s : Session) (edits : List Edit) : Session × Reply :=
  match s.machine.editAll edits with
  | .ok (m, outcome) => ({ s with machine := m }, .ok (notices outcome))
  | .error e => (s, .error (.edit e))

def description (m : Machine) : String :=
  if m.script = "" then "FSM is empty"
  else
    let current := (m.current.map (fun q => s!"Current state: {q}")).getD ""
    String.ofList (Text.trimRight (m.script ++ current).toList)

def runReply (m : Machine) (input : String) : Reply :=
  let t := m.trace input
  match t.halt with
  | some .notInitialized => .error .notInitialized
  | some halt => .ok (some (t.text ++ "\nHalted: " ++ halt.message))
  | none => .ok (some t.text)

def printTo (s : Session) (path : String) : Session × Reply :=
  match s.machine.writeScript s.files path with
  | .ok files => ({ s with files := files }, .ok (some s!"FSM printed to {path}"))
  | .error e => (s, .error (.snapshot e))

/-- Saves the machine as a snapshot, in binary unless the path asks for another encoding. -/
def compile (s : Session) (path : String) : Session × Reply :=
  let format := (Format.ofPath? path s.settings.compiledExtension).getD .binary
  match (Snapshot.capture s.stamp s.machine).save s.files path format with
  | (files, .ok ()) => ({ s with files := files }, .ok (some "Compile successful"))
  | (files, .error e) => ({ s with files := files }, .error (.snapshot e))

def startLog (s : Session) (path : String) : Session × Reply :=
  match Log.start s.log s.files path with
  | (files, log, .ok ()) =>
    ({ s with files := files, log := log }, .ok (some (Log.startedMessage path)))
  | (files, log, .error e) => ({ s with files := files, log := log }, .error (.file path e))

def stopLog (s : Session) : Session × LogStop :=
  let (files, result) := Log.stop s.log s.files
  ({ s with files := files, log := none }, result)

def record (s : Session) (statement response : String) : Session :=
  match s.log with
  | none => s
  | some log =>
    match log.record s.files statement response with
    | (files, log, .ok ()) => { s with files := files, log := some log }
    | (files, log, .error e) => { s with files := files, log := some log }.say (.logFailed e)

end Session

end Statewright
