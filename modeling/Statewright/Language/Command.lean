import Statewright.Language.Piece

/-!
# Commands

A command is a keyword with arguments that fit it. Reading a piece checks the keyword and the number
of arguments; what the arguments mean is left to whoever runs the command.
-/

namespace Statewright

/-- One entry of a TRANSITIONS list, as written. -/
structure Triple where
  symbol : String
  source : String
  target : String
  deriving DecidableEq, Repr

/-- A command with its arguments. SYMBOLS, STATES, FINAL-STATES and TRANSITIONS without arguments
are queries. -/
inductive Command where
  | symbols (names : List String)
  | states (names : List String)
  | initialState (name : String)
  | finalStates (names : List String)
  | transitions (triples : List Triple)
  | print (path : Option String)
  | compile (path : String)
  | load (path : String)
  | execute (input : String)
  | clear
  | log (path : Option String)
  | exit
  deriving DecidableEq, Repr

inductive CommandError where
  | empty
  | unknownKeyword (word : String)
  | arity (keyword : Keyword)
  /-- A part of a TRANSITIONS list that is not three words. -/
  | malformedTriple (part : String)
  | missingInput
  deriving DecidableEq, Repr

namespace CommandError

def arityRule : Keyword → String
  | .symbols | .states | .finalStates | .transitions => "takes any arguments"
  | .initialState => "requires one state"
  | .compile | .load => "requires a file name"
  | .print | .log => "takes at most a file name"
  | .execute => "takes a single input string without spaces"
  | .clear | .exit => "takes no arguments"

/-- Whether the input of EXECUTE is at fault, and not the form of the command. -/
def isInputFault : CommandError → Bool
  | missingInput => true
  | _ => false

def message : CommandError → String
  | empty => "Invalid command: empty statement"
  | unknownKeyword word =>
    let word := Text.upper word
    s!"Invalid command: unknown keyword {word}"
  | arity keyword =>
    let rule := arityRule keyword
    s!"Invalid command: {keyword} {rule}"
  | malformedTriple part =>
    s!"Invalid command: invalid transition format '{part}', expected <symbol> <from> <to>"
  | missingInput => "Invalid input: EXECUTE requires an input string"

end CommandError

namespace Command

def keyword : Command → Keyword
  | symbols _ => .symbols
  | states _ => .states
  | initialState _ => .initialState
  | finalStates _ => .finalStates
  | transitions _ => .transitions
  | print _ => .print
  | compile _ => .compile
  | load _ => .load
  | execute _ => .execute
  | clear => .clear
  | log _ => .log
  | exit => .exit

def exactlyOne (k : Keyword) : List String → Except CommandError String
  | [argument] => .ok argument
  | _ => .error (.arity k)

def atMostOne (k : Keyword) : List String → Except CommandError (Option String)
  | [] => .ok none
  | [argument] => .ok (some argument)
  | _ => .error (.arity k)

def bare (k : Keyword) (command : Command) : List String → Except CommandError Command
  | [] => .ok command
  | _ => .error (.arity k)

def readTriple (part : String) : Except CommandError Triple :=
  match Text.words part with
  | [symbol, source, target] => .ok ⟨symbol, source, target⟩
  | _ => .error (.malformedTriple part)

/-- What follows the first word of a text, without the blanks around it. -/
def afterFirstWord (text : String) : String :=
  let body := (Text.trimLeft text.toList).dropWhile (fun c => !Text.isBlank c)
  Text.trim (String.ofList body)

def readTriples (text : String) : Except CommandError (List Triple) :=
  if text = "" then .ok [] else (Language.commaParts text).mapM readTriple

/-- Reads a command: the words of a piece, of which the first has to be a keyword. -/
def parse (text : String) : Except CommandError Command :=
  match Text.words text with
  | [] => .error .empty
  | head :: arguments =>
    match Keyword.ofWord? head with
    | none => .error (.unknownKeyword head)
    | some k =>
      match k with
      | .symbols => .ok (.symbols arguments)
      | .states => .ok (.states arguments)
      | .finalStates => .ok (.finalStates arguments)
      | .initialState => .initialState <$> exactlyOne k arguments
      | .transitions => .transitions <$> readTriples (afterFirstWord text)
      | .print => .print <$> atMostOne k arguments
      | .compile => .compile <$> exactlyOne k arguments
      | .load => .load <$> exactlyOne k arguments
      | .execute =>
        match arguments with
        | [] => .error .missingInput
        | [input] => .ok (.execute input)
        | _ => .error (.arity k)
      | .log => .log <$> atMostOne k arguments
      | .clear => bare k .clear arguments
      | .exit => bare k .exit arguments

end Command

end Statewright
