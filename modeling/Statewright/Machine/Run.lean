import Statewright.Machine.Basic

/-!
# Running a machine

A run starts in the initial state and reads its input one character at a time, each in upper case.
It halts at the first character that is no declared symbol or has no transition. The trace of a run
holds the visited states, the verdict on the last of them, and why the run halted, if it did.
-/

namespace Statewright

inductive Verdict where
  | accept
  | reject
  deriving DecidableEq, Repr

def Verdict.token : Verdict → String
  | .accept => "YES"
  | .reject => "NO"

inductive Halt where
  | notInitialized
  | undeclaredSymbol (c : Char)
  | noTransition (symbol : Symbol) (state : StateName)
  deriving DecidableEq

def Halt.message : Halt → String
  | .notInitialized => "FSM is not initialized: no initial state"
  | .undeclaredSymbol c => s!"invalid input symbol '{c}'"
  | .noTransition symbol state => s!"no transition for <{symbol},{state}>"

structure Trace where
  states : List StateName
  verdict : Verdict
  halt : Option Halt
  deriving DecidableEq

def Trace.last? (t : Trace) : Option StateName :=
  t.states.getLast?

/-- The visited states, each followed by a space, and the verdict's word. -/
def Trace.text (t : Trace) : String :=
  String.join (t.states.map (fun q => q.text ++ " ")) ++ t.verdict.token

namespace Machine

/-- The state after reading one character, or why the run halts there. -/
def step (m : Machine) (q : StateName) (c : Char) : Except Halt StateName :=
  match Symbol.ofChar c with
  | .error _ => .error (.undeclaredSymbol c.toUpper)
  | .ok s =>
    if m.hasSymbol s then
      match m.target? s q with
      | some r => .ok r
      | none => .error (.noTransition s q)
    else
      .error (.undeclaredSymbol c.toUpper)

/-- The states visited after `q` on an input, and why the run halts, if it does. -/
def walk (m : Machine) (q : StateName) : List Char → List StateName × Option Halt
  | [] => ([], none)
  | c :: cs =>
    match m.step q c with
    | .error halt => ([], some halt)
    | .ok r =>
      let (visited, halt) := m.walk r cs
      (r :: visited, halt)

def verdictAt (m : Machine) (q : StateName) : Verdict :=
  if m.isFinal q then .accept else .reject

/-- The trace of the run on an input. The machine stays as it is. -/
def trace (m : Machine) (input : String) : Trace :=
  match m.initial with
  | none => ⟨[], .reject, some .notInitialized⟩
  | some q =>
    let (visited, halt) := m.walk q input.toList
    ⟨q :: visited, m.verdictAt (visited.getLastD q), halt⟩

/-- Runs the machine and leaves its current state where the run ended. -/
def execute (m : Machine) (input : String) : Machine × Trace :=
  let t := m.trace input
  match t.last? with
  | some q => ({ m with current := some q }, t)
  | none => (m, t)

end Machine

end Statewright
