import Statewright.Language.Command
import Statewright.Language.Reader
import Statewright.Snapshot.File

/-!
# The transcript of a session

What a session writes is a list of items. Each kind of item says why it was written; its text is
settled here and nowhere else.
-/

namespace Statewright

inductive Failure where
  | command (e : CommandError)
  | recursiveLoad (path : String)
  | notInitialized
  | file (path : String) (e : FileError)
  | edit (e : EditError)
  | snapshot (e : SnapshotError)
  deriving DecidableEq

def Failure.message : Failure → String
  | command e => e.message
  | recursiveLoad path => s!"Invalid command: recursive LOAD of {path}"
  | notInitialized => "Invalid input: " ++ Halt.notInitialized.message
  | file path e => s!"Error with file '{path}': {e.message}"
  | edit e => e.message
  | snapshot e => e.message

inductive Item where
  | prompt (text : String)
  /-- A piece of a script, before it is run. -/
  | echo (piece : String)
  | remark (line : Nat) (r : Remark)
  /-- A keyword in the middle of a statement. -/
  | semicolonBefore (line : Nat) (keyword : String)
  | failed (line : Nat) (e : Failure)
  | response (text : String)
  | logFailed (e : FileError)
  /-- A file that could not be loaded outside of any statement. -/
  | loadFailed (e : Failure)
  deriving DecidableEq

/-- The text of an item. All but prompts end their line. -/
def Item.text : Item → String
  | prompt text => text
  | echo piece => s!"{piece};\n"
  | remark line r => s!"Line {line}: {r.message}\n"
  | semicolonBefore line keyword => s!"Line {line}: semicolon expected before {keyword}\n"
  | failed line e => s!"Line {line}: {e.message}\n"
  | response text => text ++ "\n"
  | logFailed e => s!"Error writing to log file: {e.message}\n"
  | loadFailed e => s!"Error: {e.message}\n"

abbrev Transcript := List Item

def Transcript.text (items : Transcript) : String :=
  String.join (items.map Item.text)

end Statewright
