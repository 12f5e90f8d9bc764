import Statewright.Instant.Basic
import Statewright.Machine.Edit
import Statewright.Uuid

/-!
# Snapshots

A snapshot is a machine as plain data, with a version, an identifier and a time of creation. It is
captured from a machine and restored to one. Restoring first checks that the data is a machine at
all, and then rebuilds it by edits, so that a restored machine is one that edits can reach.
-/

namespace Statewright

/-- A machine as plain data. -/
structure Snapshot where
  version : UInt32
  id : Uuid
  createdAt : Instant
  symbols : List Symbol
  states : List StateName
  finals : List StateName
  initial : Option StateName
  current : Option StateName
  transitions : List Transition
  deriving DecidableEq

/-- What tells snapshots of the same machine apart. -/
structure Stamp where
  id : Uuid
  createdAt : Instant
  deriving DecidableEq

inductive Inconsistency where
  | repeatedSymbol (s : Symbol)
  | repeatedState (q : StateName)
  | repeatedFinal (q : StateName)
  | repeatedTransition (key : Transition.Key)
  | undeclaredState (q : StateName)
  | undeclaredSymbol (s : Symbol)
  | edit (e : EditError)
  deriving DecidableEq

def Inconsistency.message : Inconsistency → String
  | repeatedSymbol s => s!"symbol {s} is listed more than once"
  | repeatedState q => s!"state {q} is listed more than once"
  | repeatedFinal q => s!"final state {q} is listed more than once"
  | repeatedTransition key => s!"transition <{key.symbol},{key.source}> is listed more than once"
  | undeclaredState q => s!"state {q} is referenced but not declared"
  | undeclaredSymbol s => s!"symbol {s} is referenced but not declared"
  | edit e => e.message

inductive RestoreError where
  | unsupportedVersion (found : UInt32)
  | inconsistent (reason : Inconsistency)
  deriving DecidableEq

namespace Snapshot

def supportedVersion : UInt32 := 1

def stamp (c : Snapshot) : Stamp := ⟨c.id, c.createdAt⟩

def restamp (c : Snapshot) (stamp : Stamp) : Snapshot :=
  { c with id := stamp.id, createdAt := stamp.createdAt }

def capture (stamp : Stamp) (m : Machine) : Snapshot where
  version := supportedVersion
  id := stamp.id
  createdAt := stamp.createdAt
  symbols := m.symbols
  states := m.states
  finals := m.finals
  initial := m.initial
  current := m.current
  transitions := m.transitions

/-- The first entry that stands further in front as well. -/
def firstRepeated? {α : Type} [DecidableEq α] : (seen : List α) → List α → Option α
  | _, [] => none
  | seen, a :: rest => if a ∈ seen then some a else firstRepeated? (a :: seen) rest

/-- The states that are mentioned outside the list of states, in the order of their check. -/
def mentionedStates (c : Snapshot) : List StateName :=
  c.initial.toList ++ c.current.toList ++ c.finals ++
    c.transitions.flatMap (fun t => [t.source, t.target])

/-- The first reason why the data is no machine: repeated entries first, then states and symbols
that are mentioned but not declared. -/
def inconsistency? (c : Snapshot) : Option Inconsistency :=
  (firstRepeated? [] c.symbols).map .repeatedSymbol <|>
  (firstRepeated? [] c.states).map .repeatedState <|>
  (firstRepeated? [] c.finals).map .repeatedFinal <|>
  (firstRepeated? [] (c.transitions.map Transition.key)).map .repeatedTransition <|>
  (c.mentionedStates.find? (fun q => q ∉ c.states)).map .undeclaredState <|>
  ((c.transitions.map Transition.symbol).find? (fun s => s ∉ c.symbols)).map .undeclaredSymbol

def edits (c : Snapshot) : List Edit :=
  c.symbols.map (fun s => .addSymbol (toString s)) ++
  c.states.map (fun q => .addState q.text) ++
  c.initial.toList.map (fun q => .setInitial q.text) ++
  c.finals.map (fun q => .addFinal q.text) ++
  c.transitions.map (fun t => .addTransition (toString t.symbol) t.source.text t.target.text) ++
  c.current.toList.map (fun q => .setCurrent q.text)

def restore (c : Snapshot) : Except RestoreError Machine :=
  if c.version ≠ supportedVersion then
    .error (.unsupportedVersion c.version)
  else
    match c.inconsistency? with
    | some reason => .error (.inconsistent reason)
    | none =>
      match Machine.empty.editAll c.edits with
      | .ok (m, _) => .ok m
      | .error e => .error (.inconsistent (.edit e))

end Snapshot

end Statewright
