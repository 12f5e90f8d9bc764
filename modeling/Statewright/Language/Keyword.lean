import Statewright.Text.Ascii

/-!
# Keywords

The words that begin a statement of the command language. They are recognised in any case.
-/

namespace Statewright

inductive Keyword where
  | symbols
  | states
  | initialState
  | finalStates
  | transitions
  | print
  | compile
  | load
  | execute
  | clear
  | log
  | exit
  deriving DecidableEq, Repr

namespace Keyword

def all : List Keyword :=
  [symbols, states, initialState, finalStates, transitions, print, compile, load, execute, clear,
    log, exit]

def text : Keyword → String
  | symbols => "SYMBOLS"
  | states => "STATES"
  | initialState => "INITIAL-STATE"
  | finalStates => "FINAL-STATES"
  | transitions => "TRANSITIONS"
  | print => "PRINT"
  | compile => "COMPILE"
  | load => "LOAD"
  | execute => "EXECUTE"
  | clear => "CLEAR"
  | log => "LOG"
  | exit => "EXIT"

instance : ToString Keyword := ⟨text⟩

/-- The keyword that a word spells, in any case. -/
def ofWord? (word : String) : Option Keyword :=
  all.find? (fun k => Text.sameWord k.text word)

-- The keyword that a word spells has the same letters as the word.
theorem sameWord_of_ofWord? {word : String} {k : Keyword} (h : ofWord? word = some k) :
    Text.sameWord k.text word = true := by
  unfold ofWord? at h
  simpa using List.find?_some h

end Keyword

end Statewright
