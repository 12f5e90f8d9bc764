import Std.Time.Format
import Statewright.CommandLine
import Statewright.Session.Mention

/-!
# The program

Passes the arguments, the environment and the input to the command line, and keeps its file tree
and the disk in step: before a line is read, the files that it mentions are brought in, and
afterwards the files that changed are written. Nothing is decided here.
-/

namespace Statewright.Program

/-- More steps than any session takes. -/
def fuel : Nat := 1 <<< 60

inductive Found where
  | nothing
  | directory
  | file (bytes : List UInt8)

def diskPath (l : Location) : String :=
  "/" ++ "/".intercalate l

def lookUp (l : Location) : IO Found := do
  try
    return .file (← IO.FS.readBinFile (diskPath l)).toList
  catch
    | .inappropriateType _ 21 _ => return .directory
    | _ => return .nothing

/-- Brings locations in step with the disk, and those that their scripts mention. The devices
stay. -/
partial def bring (t : FileTree) (seen : List Location) : List Location → IO FileTree
  | [] => return t
  | l :: rest => do
    if seen.contains l || l = [] || l.head? = some "dev" then
      bring t seen rest
    else
      match ← lookUp l with
      | .nothing => bring (t.unbind l) (l :: seen) rest
      | .directory => bring (t.addDirectory l) (l :: seen) rest
      | .file bytes =>
        let inside := Mention.ofText t.working (Text.Utf8.decodeLossy bytes)
        bring (t.putFile l bytes) (l :: seen) (inside ++ rest)

def bringMentioned (s : Session) (text : List Char) : IO Session := do
  return { s with files := ← bring s.files [] (Mention.ofText s.files.working text) }

/-- Writes the files that differ between two trees, and removes those that are gone. -/
def writeBack (before after : FileTree) : IO Unit := do
  for (l, _) in after.entries do
    match after.file? l with
    | none => pure ()
    | some bytes =>
      if before.file? l ≠ some bytes then
        IO.FS.writeBinFile (diskPath l) (ByteArray.mk bytes.toArray)
  for (l, _) in before.entries do
    if (before.file? l).isSome && (after.lookup l).isNone then
      IO.FS.removeFile (diskPath l)

/-- Shows what a session wrote, and forgets it. -/
def showOutput (s : Session) : IO Session := do
  let out ← IO.getStdout
  out.putStr (Transcript.text s.output)
  out.flush
  return { s with output := [] }

/-- Reads a line with its line break, empty at the end of the input. -/
partial def readLine (input : IO.FS.Stream) (line : List UInt8) : IO (List UInt8) := do
  match (← input.read 1).toList with
  | [] => return line.reverse
  | b :: _ =>
    if b = Source.lineBreak then return (b :: line).reverse
    else readLine input (b :: line)

def freshStamp : IO Stamp := do
  let bytes ← (List.range 16).mapM (fun _ => do return UInt8.ofNat (← IO.rand 0 255))
  let now ← Std.Time.Timestamp.now
  let nanos := now.toNanosecondsSinceUnixEpoch.val.toNat
  return {
    id := (Uuid.ofRandom bytes).toOption.getD .zero
    createdAt := (Instant.sinceEpoch? (nanos / 1000000000) (nanos % 1000000000)).getD .epoch }

/-- Reads lines until the input ends or the session does. -/
partial def readInput (input : IO.FS.Stream) (reader : Reader) (s : Session) : IO Session := do
  if !s.running then
    return s
  let s ← showOutput (s.prompt .interactive)
  let line ← readLine input []
  let waiting := (Text.unwords reader.pending ++ " ").toList
  let before ← bringMentioned s (waiting ++ Text.Utf8.decodeLossy line)
  let before := { before with stamp := ← freshStamp }
  let next : Option (Reader × Session) := match line with
    | [] => (before.endSource (Session.runner fuel) .interactive reader).map (fun s => (reader, s))
    | _ => before.takeLine (Session.runner fuel) .interactive reader line
  match next with
  | none => return s
  | some (reader, s) =>
    writeBack before.files s.files
    let s ← showOutput s
    if line = [] then return s else readInput input reader s

def environment : IO (List (String × String)) := do
  let .ok bytes ← (IO.FS.readBinFile "/proc/self/environ").toBaseIO | return []
  let entries := (Text.Utf8.decodeLossy bytes.toList).splitOnP (· = '\x00')
  return entries.map (fun entry =>
    (String.ofList (entry.takeWhile (· ≠ '=')), String.ofList ((entry.dropWhile (· ≠ '=')).drop 1)))

def localDate : IO String := do
  let now ← Std.Time.PlainDateTime.now
  return CommandLine.dateText now.date.year now.date.month.val.toNat now.date.day.val.toNat
    now.time.hour.val.toNat now.time.minute.val.toNat

/-- The tree that a program begins with: the directory it was started in, the files that settings
may come from, and the files that its arguments name. -/
def startingFiles (arguments : List String) : IO FileTree := do
  let working := (← IO.currentDir).toString.splitOn "/" |>.filter (· ≠ "")
  let t := FileTree.empty working
  let named := (SettingsFormat.candidates Settings.fileName ++ arguments).flatMap
    (Mention.ofPath working)
  bring t [] named

def run (arguments : List String) : IO UInt32 := do
  let files ← startingFiles arguments
  match CommandLine.begin? fuel (← freshStamp) (← environment) files arguments with
  | none => return 1
  | some (.answer code output) =>
    IO.print output
    return UInt32.ofNat code
  | some (.session s) =>
    IO.print (CommandLine.banner (← localDate))
    writeBack files s.files
    let s ← readInput (← IO.getStdin) .start (← showOutput s)
    writeBack s.files s.close.files
    return 0

end Statewright.Program

def main (arguments : List String) : IO UInt32 :=
  Statewright.Program.run arguments
