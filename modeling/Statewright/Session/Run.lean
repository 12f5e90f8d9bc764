import Statewright.Session.Basic
import Statewright.Session.Source

/-!
# Running a session

Lines are read from a source, made into statements, cut into pieces, and performed piece by piece.
LOAD runs another source inside: so each layer takes the way to run one as an argument, and the
recursion is tied once, at the end. It is bounded by fuel, because a script that reads its own log
can go on for ever, and so does the reading of the device; an answer does not depend on how much
fuel was left.
-/

namespace Statewright

namespace Session

/-- Runs a source as a script: the session afterwards with the file error that stopped the source,
or nothing if the fuel ran out or a line has no end. -/
abbrev Runner := Session → Source → Option (Session × Except FileError Unit)

/-- Runs the script at a path, unless it is being run already. -/
def runScript (run : Runner) (s : Session) (path : String) : Option (Session × Reply) :=
  match s.files.openRead path with
  | .error e => some (s, .error (.file path e))
  | .ok (location, handle) =>
    if location ∈ s.loading then
      some (s, .error (.recursiveLoad path))
    else do
      let (s, result) ← run { s with loading := location :: s.loading } (.file handle [])
      -- The script is over, so a later LOAD may run it again.
      let s := { s with loading := s.loading.tail }
      match result with
      | .ok () => return (s, .ok none)
      | .error e => return (s, .error (.file path e))

/-- Takes the machine from a snapshot file, or runs a script. The path's extension decides. -/
def load (run : Runner) (s : Session) (path : String) : Option (Session × Reply) :=
  match Format.ofPath? path s.settings.compiledExtension with
  | none => s.runScript run path
  | some format =>
    match Snapshot.loadMachine s.files path format with
    | .ok m => some ({ s with machine := m }, .ok (some s!"FSM loaded from {path}"))
    | .error e => some (s, .error (.snapshot e))

def perform (run : Runner) (s : Session) : Command → Option (Session × Reply)
  | .symbols [] => some (s, .ok (some (listing s.machine.symbols)))
  | .symbols names => some (s.declare (names.map .addSymbol))
  | .states [] => some (s, .ok (some (listing s.machine.states)))
  | .states names => some (s.declare (names.map .addState))
  | .initialState name => some (s.editAll [.setInitial name])
  | .finalStates [] => some (s, .ok (some (listing s.machine.finals)))
  | .finalStates names => some (s.declare (names.map .addFinal))
  | .transitions [] => some (s, .ok (some (listing s.machine.transitions)))
  | .transitions triples =>
    some (s.editAll (triples.map (fun t => .addTransition t.symbol t.source t.target)))
  | .print none => some (s, .ok (some (description s.machine)))
  | .print (some path) => some (s.printTo path)
  | .compile path => some (s.compile path)
  | .load path => s.load run path
  | .execute input => some (s, runReply s.machine input)
  | .clear => some ({ s with machine := .empty }, .ok (some "CLEARED"))
  | .log none =>
    let (s, result) := s.stopLog
    some (s, .ok (some result.message))
  | .log (some path) => some (s.startLog path)
  | .exit => some ({ s.stopLog.1 with running := false }, .ok (some "TERMINATED BY USER"))

/-- Whether a piece begins with LOG: such pieces are not recorded. -/
def isLogPiece (piece : String) : Bool :=
  ((Text.words piece).head?.bind Keyword.ofWord?) == some .log

/-- Reads and performs a piece, and writes and records what it answers. -/
def runPiece (run : Runner) (line : Nat) (s : Session) (piece : String) : Option Session := do
  let (s, reply) ← match Command.parse piece with
    | .error e => some (s, .error (.command e))
    | .ok command => s.perform run command
  let (s, recorded) := match reply with
    | .ok (some response) => (s.say (.response response), response)
    | .ok none => (s, "")
    | .error e => (s.say (.failed line e), "Error: " ++ e.message)
  return if isLogPiece piece then s else s.record (piece ++ ";") recorded

/-- Runs the pieces of a statement until EXIT. A missing semicolon is remarked on before every piece
but the first. -/
def runPieces (run : Runner) (mode : Mode) (line : Nat) (isFirst : Bool) (s : Session) :
    List String → Option Session
  | [] => some s
  | piece :: pieces =>
    if !s.running then some s
    else
      let s := if isFirst then s
        else s.say (.semicolonBefore line (Text.upper ((Text.words piece).headD "")))
      let s := if mode = .script && s.settings.echoScript then s.say (.echo piece) else s
      (s.runPiece run line piece).bind (fun s => s.runPieces run mode line false pieces)

/-- Deals with what the reader found until EXIT. -/
def handle (run : Runner) (mode : Mode) (s : Session) : List Finding → Option Session
  | [] => some s
  | finding :: findings =>
    if !s.running then some s
    else
      let next := match finding with
        | .remark line r => some (s.say (.remark line r))
        | .statement st => s.runPieces run mode st.line true (Language.splitStatement st.text)
      next.bind (fun s => s.handle run mode findings)

def prompt (mode : Mode) (s : Session) : Session :=
  if mode = .interactive then s.say (.prompt s.settings.prompt) else s

/-- Deals with one line. Bytes that are no UTF-8 become characters that fit no command. -/
def takeLine (run : Runner) (mode : Mode) (reader : Reader) (s : Session) (line : List UInt8) :
    Option (Reader × Session) :=
  let (reader, findings) := reader.push (String.ofList (Text.Utf8.decodeLossy line))
  (s.handle run mode findings).map (fun s => (reader, s))

/-- Deals with the end of a source: words that still wait make a last statement. -/
def endSource (run : Runner) (mode : Mode) (reader : Reader) (s : Session) : Option Session :=
  s.handle run mode reader.finish.2

/-- Runs what is left of a source until it ends or EXIT comes. -/
def runFrom : (fuel : Nat) → Mode → Source → Reader → Session →
    Option (Session × Except FileError Unit)
  | 0, _, _, _, _ => none
  | n + 1, mode, source, reader, s =>
    if !s.running then some (s, .ok ())
    else
      let nested : Runner := fun s source => runFrom n .script source .start s
      let s := s.prompt mode
      match source.nextLine s.files with
      | none => none
      | some (.error e) => some (s, .error e)
      -- A line that takes no byte is the end of the source.
      | some (.ok ([], _)) => (s.endSource nested mode reader).map (fun s => (s, .ok ()))
      | some (.ok (line, source)) =>
        (s.takeLine nested mode reader line).bind (fun (reader, s) =>
          runFrom n mode source reader s)

/-- The way to run a script with so much fuel. -/
def runner (fuel : Nat) : Runner := fun s source =>
  runFrom fuel .script source .start s

def run (fuel : Nat) (s : Session) (mode : Mode) (input : List UInt8) :
    Option (Session × Except FileError Unit) :=
  runFrom fuel mode (.bytes input) .start s

def loadFile (fuel : Nat) (s : Session) (path : String) : Option Session := do
  let (s, reply) ← s.load (runner fuel) path
  match reply with
  | .ok (some response) => return s.say (.response response)
  | .ok none => return s
  | .error e => return s.say (.loadFailed e)

/-- Ends the session: a log that is still kept is closed. -/
def close (s : Session) : Session :=
  s.stopLog.1

end Session

end Statewright
