import Statewright.Text.Blank

/-!
# Reading statements from lines

Lines are fed to a `Reader` one at a time. Statements end with a semicolon and may span lines, so
the reader keeps the words that wait for theirs. A line without a semicolon is remarked on but
kept. Blank lines are skipped, and so is a line that begins with a semicolon while no word waits:
a comment.
-/

namespace Statewright

/-- A statement without its semicolon, its words written with single spaces. -/
structure Statement where
  text : String
  /-- The number of the line on which the statement ended. -/
  line : Nat
  /-- Whether a semicolon ended it, and not the end of the input. -/
  terminated : Bool
  deriving DecidableEq, Repr

inductive Remark where
  | semicolonExpected
  | semicolonMissing
  deriving DecidableEq, Repr

def Remark.message : Remark → String
  | .semicolonExpected => "semicolon expected"
  | .semicolonMissing => "semicolon missing at end of input"

inductive Finding where
  | statement (s : Statement)
  | remark (line : Nat) (r : Remark)
  deriving DecidableEq, Repr

/-- The lines read so far, by their number and the words that wait for a semicolon. -/
structure Reader where
  line : Nat
  pending : List String
  deriving DecidableEq, Repr

namespace Reader

def start : Reader := ⟨0, []⟩

def isAccumulating (r : Reader) : Bool :=
  !r.pending.isEmpty

/-- The statement made of some words; none is made of no words. -/
def close (words : List String) (line : Nat) (terminated : Bool) : List Finding :=
  match words with
  | [] => []
  | _ => [.statement ⟨Text.unwords words, line, terminated⟩]

/-- Whether a line adds nothing: it is blank, or a comment while no word waits. -/
def skips (r : Reader) (text : List Char) : Bool :=
  match Text.trimLeft text with
  | [] => true
  | c :: _ => c = ';' && !r.isAccumulating

/-- Closes a statement at the end of every segment but the last, with the words that waited in front
of the first. The last segment's words wait. -/
def closeSegments (line : Nat) (pending : List String) : List (List Char) →
    List Finding × List String
  | [] => ([], pending)
  | [last] => ([], pending ++ (Text.wordLists last).map String.ofList)
  | segment :: segments =>
    let closed := close (pending ++ (Text.wordLists segment).map String.ofList) line true
    let (findings, waiting) := closeSegments line [] segments
    (closed ++ findings, waiting)

def push (r : Reader) (text : String) : Reader × List Finding :=
  let line := r.line + 1
  if r.skips text.toList then
    (⟨line, r.pending⟩, [])
  else
    let segments := text.toList.splitOnP (· = ';')
    let (findings, waiting) := closeSegments line r.pending segments
    let remarks := if segments.length = 1 then [.remark line .semicolonExpected] else []
    (⟨line, waiting⟩, findings ++ remarks)

/-- Ends the input: words that still wait make a last statement. -/
def finish (r : Reader) : Reader × List Finding :=
  if r.isAccumulating then
    (⟨r.line, []⟩, .remark r.line .semicolonMissing :: close r.pending r.line false)
  else
    (⟨r.line, []⟩, [])

end Reader

end Statewright
