import Statewright.FileTree.Basic
import Statewright.Language.Keyword
import Statewright.Text.Blank

/-!
# Mentioned files

Which files a text may make a session use. A session works on a file tree, so whoever keeps the
files elsewhere has to know which of them to bring. Every word after a keyword that takes a path
counts, whether or not the text turns out to be a statement, and the temporary file beside it.
-/

namespace Statewright

def Keyword.takesPath : Keyword → Bool
  | .load | .print | .compile | .log => true
  | _ => false

namespace Mention

/-- The words of a text, with semicolons between words as well. -/
def words (text : List Char) : List String :=
  ((text.splitOnP (fun c => Text.isBlank c || c = ';')).filter (· ≠ [])).map String.ofList

def paths : List String → List String
  | head :: word :: rest =>
    let found := paths (word :: rest)
    match Keyword.ofWord? head with
    | some k => if k.takesPath then word :: found else found
    | none => found
  | _ => []

/-- The location that a name leads to from another one, whatever is there. -/
def step (l : Location) (name : String) : Location :=
  if name = "." then l
  else if name = ".." then l.dropLast
  else l ++ [name]

def route (l : Location) : List String → List Location
  | [] => [l]
  | name :: names => l :: route (step l name) names

/-- The locations that a path leads through from a directory, its own included. -/
def ofPath (working : Location) (raw : String) : List Location :=
  match Path.parse raw with
  | .error _ => []
  | .ok p => route (if p.absolute then [] else working) p.names

/-- The locations that a text mentions, with those of temporary files. -/
def ofText (working : Location) (text : List Char) : List Location :=
  (paths (words text)).flatMap (fun raw => ofPath working raw ++ ofPath working (raw ++ ".tmp"))

end Mention

end Statewright
