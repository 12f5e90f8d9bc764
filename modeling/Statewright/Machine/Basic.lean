import Statewright.Ascending
import Statewright.Machine.Name

/-!
# The machine

A deterministic finite-state machine under construction: the declared symbols and states, the final
states, the initial and the current state, and the transition function. States keep the order of
their declaration; symbols, final states and transitions are listed in ascending order.
-/

namespace Statewright

/-- One entry of the transition function: reading `symbol` in `source` leads to `target`. -/
structure Transition where
  symbol : Symbol
  source : StateName
  target : StateName
  deriving DecidableEq

/-- What a transition is looked up by: the state that is left and the symbol that is read. -/
structure Transition.Key where
  source : StateName
  symbol : Symbol
  deriving DecidableEq

namespace Transition

instance : Ord Key := ⟨compareLex (compareOn Key.source) (compareOn Key.symbol)⟩

instance : Std.TransOrd Key :=
  inferInstanceAs (Std.TransCmp (compareLex (compareOn Key.source) (compareOn Key.symbol)))

def key (t : Transition) : Key :=
  ⟨t.source, t.symbol⟩

instance : ToString Transition := ⟨fun t => s!"{t.symbol} {t.source} {t.target}"⟩

end Transition

structure Machine where
  symbols : List Symbol
  states : List StateName
  finals : List StateName
  initial : Option StateName
  current : Option StateName
  transitions : List Transition
  deriving DecidableEq

namespace Machine

def empty : Machine :=
  ⟨[], [], [], none, none, []⟩

instance : Inhabited Machine := ⟨empty⟩

def hasSymbol (m : Machine) (s : Symbol) : Bool :=
  s ∈ m.symbols

def hasState (m : Machine) (q : StateName) : Bool :=
  q ∈ m.states

def isFinal (m : Machine) (q : StateName) : Bool :=
  q ∈ m.finals

def target? (m : Machine) (s : Symbol) (q : StateName) : Option StateName :=
  (m.transitions.find? (fun t => t.key = ⟨q, s⟩)).map Transition.target

def isEmpty (m : Machine) : Bool :=
  m.symbols.isEmpty && m.states.isEmpty && m.transitions.isEmpty

/-- Appends a state. The first state of a machine becomes its initial and current state. -/
def declare (m : Machine) (q : StateName) : Machine :=
  match m.initial with
  | some _ => { m with states := m.states ++ [q] }
  | none => { m with states := m.states ++ [q], initial := some q, current := some q }

@[simp]
theorem declare_states (m : Machine) (q : StateName) : (m.declare q).states = m.states ++ [q] := by
  unfold declare; split <;> rfl

@[simp]
theorem declare_symbols (m : Machine) (q : StateName) : (m.declare q).symbols = m.symbols := by
  unfold declare; split <;> rfl

@[simp]
theorem declare_finals (m : Machine) (q : StateName) : (m.declare q).finals = m.finals := by
  unfold declare; split <;> rfl

@[simp]
theorem declare_transitions (m : Machine) (q : StateName) :
    (m.declare q).transitions = m.transitions := by
  unfold declare; split <;> rfl

end Machine

end Statewright
