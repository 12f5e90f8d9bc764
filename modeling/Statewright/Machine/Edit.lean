import Statewright.Machine.Basic

/-!
# Edits of a machine

An edit takes texts as a user wrote them. It fails with an `EditError`, or gives the edited
machine with an `Outcome`: whether it was applied, and what is worth a notice. A failed edit
changes nothing, because the edited machine exists only where the edit succeeds.
-/

namespace Statewright

/-- A condition worth telling that does not stop an edit. -/
inductive Notice where
  | symbolDeclared (s : Symbol)
  | stateDeclared (q : StateName)
  /-- The edit named a state that was not declared, and declared it. -/
  | stateAdded (q : StateName)
  | alreadyFinal (q : StateName)
  | overridden (symbol : Symbol) (source previous next : StateName)
  deriving DecidableEq

def Notice.message : Notice → String
  | .symbolDeclared s => s!"Warning: symbol {s} already declared"
  | .stateDeclared q => s!"Warning: state {q} already declared"
  | .stateAdded q => s!"Warning: {q} was not previously declared as a state"
  | .alreadyFinal q => s!"Warning: {q} was already a final state"
  | .overridden s q previous next =>
    s!"Warning: transition <{s},{q}> overridden ({previous} -> {next})"

structure Outcome where
  applied : Bool
  notices : List Notice
  deriving DecidableEq

namespace Outcome

def nothing : Outcome := ⟨false, []⟩

def done (notices : List Notice) : Outcome := ⟨true, notices⟩

/-- Not applied, for the reason that the notice tells. -/
def unchanged (notice : Notice) : Outcome := ⟨false, [notice]⟩

def merge (a b : Outcome) : Outcome :=
  ⟨a.applied || b.applied, a.notices ++ b.notices⟩

end Outcome

inductive TransitionFault where
  | name (e : NameError)
  | undeclaredSymbol (s : Symbol)
  | undeclaredState (q : StateName)
  deriving DecidableEq

def TransitionFault.message : TransitionFault → String
  | .name e => e.message
  | .undeclaredSymbol s => s!"symbol {s} is not declared"
  | .undeclaredState q => s!"state {q} is not declared"

inductive EditError where
  | name (e : NameError)
  /-- The three texts of a transition, and the first fault among them. -/
  | transition (symbol source target : String) (fault : TransitionFault)
  deriving DecidableEq

/-- The wording of a failed edit. The texts of a transition are cited in upper case. -/
def EditError.message : EditError → String
  | .name e => e.message
  | .transition symbol source target fault =>
    let symbol := Text.upper symbol
    let source := Text.upper source
    let target := Text.upper target
    let reason := fault.message
    s!"Invalid transition <{symbol},{source}> -> {target}: {reason}"

/-- A change to a machine, with its arguments as written. -/
inductive Edit where
  | addSymbol (raw : String)
  | addState (raw : String)
  | setInitial (raw : String)
  | setCurrent (raw : String)
  | addFinal (raw : String)
  | addTransition (symbol source target : String)
  deriving DecidableEq, Repr

namespace Machine

/-- An edited machine with the report on the edit, or the reason why there is none. -/
abbrev Edited := Except EditError (Machine × Outcome)

def readState (raw : String) : Except EditError StateName :=
  (StateName.parse raw).mapError .name

/-- Declares a symbol. A symbol that is declared already stays as it is. -/
def addSymbol (m : Machine) (raw : String) : Edited := do
  let s ← (Symbol.parse raw).mapError EditError.name
  if m.hasSymbol s then
    return (m, .unchanged (.symbolDeclared s))
  return ({ m with symbols := Ascending.put id s m.symbols }, .done [])

/-- Declares a state. A state that is declared already keeps its place. -/
def addState (m : Machine) (raw : String) : Edited := do
  let q ← readState raw
  if m.hasState q then
    return (m, .unchanged (.stateDeclared q))
  return (m.declare q, .done [])

/-- The machine in which a state is declared, with a notice if it was not before. -/
def ensureState (m : Machine) (q : StateName) : Machine × Outcome :=
  if m.hasState q then (m, .done []) else (m.declare q, .done [.stateAdded q])

def setInitial (m : Machine) (raw : String) : Edited := do
  let q ← readState raw
  let (m, outcome) := m.ensureState q
  return ({ m with initial := some q, current := some q }, outcome)

def setCurrent (m : Machine) (raw : String) : Edited := do
  let q ← readState raw
  let (m, outcome) := m.ensureState q
  return ({ m with current := some q }, outcome)

def addFinal (m : Machine) (raw : String) : Edited := do
  let q ← readState raw
  let (m, outcome) := m.ensureState q
  if m.isFinal q then
    return (m, ⟨false, outcome.notices ++ [.alreadyFinal q]⟩)
  return ({ m with finals := Ascending.put id q m.finals }, outcome)

/-- Reads the texts of a transition, whose symbol and states have to be declared. The first fault
decides: first the three names in turn, then the three declarations in turn. -/
def readTransition (m : Machine) (symbol source target : String) :
    Except TransitionFault Transition := do
  let s ← (Symbol.parse symbol).mapError TransitionFault.name
  let q ← (StateName.parse source).mapError TransitionFault.name
  let r ← (StateName.parse target).mapError TransitionFault.name
  if !m.hasSymbol s then
    throw (.undeclaredSymbol s)
  if !m.hasState q then
    throw (.undeclaredState q)
  if !m.hasState r then
    throw (.undeclaredState r)
  return ⟨s, q, r⟩

/-- Enters a transition in place of the one with its key. A notice tells when the key led elsewhere
before. -/
def setTransition (m : Machine) (t : Transition) : Machine × Outcome :=
  let edited := { m with transitions := Ascending.put Transition.key t m.transitions }
  match m.target? t.symbol t.source with
  | some previous =>
    if previous = t.target then (edited, .done [])
    else (edited, .done [.overridden t.symbol t.source previous t.target])
  | none => (edited, .done [])

def addTransition (m : Machine) (symbol source target : String) : Edited := do
  let t ← (m.readTransition symbol source target).mapError (.transition symbol source target)
  return m.setTransition t

def edit (m : Machine) : Edit → Edited
  | .addSymbol raw => m.addSymbol raw
  | .addState raw => m.addState raw
  | .setInitial raw => m.setInitial raw
  | .setCurrent raw => m.setCurrent raw
  | .addFinal raw => m.addFinal raw
  | .addTransition symbol source target => m.addTransition symbol source target

/-- The machine after an edit: a failed edit leaves it as it was. -/
def after (m : Machine) (e : Edit) : Machine :=
  match m.edit e with
  | .ok (edited, _) => edited
  | .error _ => m

/-- Performs edits one after the other until one fails, and merges their outcomes. The edits before
a failure stay performed. -/
def editEach (m : Machine) : List Edit → Machine × Except EditError Outcome
  | [] => (m, .ok .nothing)
  | e :: es =>
    match m.edit e with
    | .error err => (m, .error err)
    | .ok (edited, outcome) =>
      let (last, rest) := edited.editEach es
      (last, rest.map outcome.merge)

/-- Performs all edits or none: the first failure discards what the edits before it did. -/
def editAll (m : Machine) (es : List Edit) : Edited :=
  match m.editEach es with
  | (edited, .ok outcome) => .ok (edited, outcome)
  | (_, .error err) => .error err

end Machine

end Statewright
