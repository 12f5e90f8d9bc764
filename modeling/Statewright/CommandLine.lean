import Statewright.Session.Run
import Statewright.Settings.Load

/-!
# The command line

The program takes at most one argument, a script or a compiled machine to load, and then reads
statements from its input. Everything that it does is here, over a file tree; the program itself
only passes on what it is given.
-/

namespace Statewright.CommandLine

def programName : String := "fsm-designer"

def version : String := "0.1.0"

inductive Request where
  | version
  | help
  | session (script : Option String)
  deriving DecidableEq, Repr

/-- What an option asks for. The letters of short options may stand together; the first one
decides. -/
def Request.ofOption? (option : String) : Option Request :=
  match option.toList with
  | '-' :: 'V' :: _ => some .version
  | '-' :: 'h' :: _ => some .help
  | _ =>
    if option = "--version" then some .version
    else if option = "--help" then some .help
    else none

/-- Reads arguments, given the file that was named before. After `--` every argument is a file. -/
def readArguments (script : Option String) (options : Bool) : List String → Option Request
  | [] => some (.session script)
  | argument :: rest =>
    let isOption := options && argument.toList.head? = some '-' && argument ≠ "-"
    if isOption && argument = "--" then readArguments script false rest
    else if isOption then Request.ofOption? argument
    else if script.isSome then none
    else readArguments (some argument) options rest

/-- What the arguments ask for; `none` where they are wrong. -/
def Request.ofArguments (arguments : List String) : Option Request :=
  readArguments none true arguments

def versionText : String :=
  s!"{programName} {version}\n"

def helpText : String :=
  "Interactive designer and simulator for finite-state machines\n\n" ++
  s!"Usage: {programName} [SCRIPT]\n\n" ++
  "Arguments:\n" ++
  "  [SCRIPT]  Command script (or compiled FSM) to load before the interactive prompt\n\n" ++
  "Options:\n  -h, --help     Print help\n  -V, --version  Print version\n"

def monthNames : List String :=
  ["January", "February", "March", "April", "May", "June", "July", "August", "September", "October",
    "November", "December"]

/-- A local date and time as the first line of a session shows it. -/
def dateText (year : Int) (month day hour minute : Nat) : String :=
  let name := monthNames.getD (month - 1) ""
  s!"{name} {day}, {Instant.yearText year}, " ++
    s!"{Instant.padded 2 hour}:{Instant.padded 2 minute}"

def banner (date : String) : String :=
  s!"FSM DESIGNER {version} {date}\n"

/-- What comes of the arguments: an answer at once, or a session that is ready to read its input. -/
inductive Opening where
  | answer (code : Nat) (output : String)
  | session (s : Session)

def openSession (fuel : Nat) (settings : Settings) (stamp : Stamp) (files : FileTree)
    (script : Option String) : Option Session :=
  let s := Session.start settings stamp files
  match script with
  | none => some s
  | some path => s.loadFile fuel path

/-- Does what the arguments ask for up to the point where input is read; `none` if the fuel ran
out. -/
def begin? (fuel : Nat) (stamp : Stamp) (environment : List (String × String)) (files : FileTree)
    (arguments : List String) : Option Opening :=
  match Request.ofArguments arguments with
  | none => some (.answer 2 "")
  | some .version => some (.answer 0 versionText)
  | some .help => some (.answer 0 helpText)
  | some (.session script) =>
    match Settings.load files environment with
    | .error _ => some (.answer 1 "")
    | .ok settings => (openSession fuel settings stamp files script).map .session

structure Result where
  code : Nat
  output : String
  files : FileTree

/-- Runs the program on an input; `none` if the fuel ran out. -/
def run (fuel : Nat) (stamp : Stamp) (date : String) (environment : List (String × String))
    (files : FileTree) (arguments : List String) (input : List UInt8) : Option Result := do
  match ← begin? fuel stamp environment files arguments with
  | .answer code output => return ⟨code, output, files⟩
  | .session s =>
    let (s, result) ← s.run fuel .interactive input
    let s := s.close
    let code := if result.isOk then 0 else 1
    return ⟨code, banner date ++ s.output.text, s.files⟩

end Statewright.CommandLine
