import Statewright.Machine.Edit
import Statewright.Proofs.Ascending
import Statewright.Proofs.Fallible
import Statewright.Proofs.Names

/-!
# Edits as changes

An edit reads its names and then makes a change, which cannot fail. So what an edit can do to a
machine is said once, for the six kinds of changes; a change of a transition is made only where its
symbol and states are declared.
-/

open Statewright.Fallible

namespace Statewright

/-- An edit whose names were read. -/
inductive Change where
  | symbol (s : Symbol)
  | state (q : StateName)
  | initial (q : StateName)
  | current (q : StateName)
  | final (q : StateName)
  | transition (t : Transition)
  deriving DecidableEq

/-- The edit that makes a change. -/
def Change.written : Change → Edit
  | symbol s => .addSymbol (toString s)
  | state q => .addState q.text
  | initial q => .setInitial q.text
  | current q => .setCurrent q.text
  | final q => .addFinal q.text
  | transition t => .addTransition (toString t.symbol) t.source.text t.target.text

namespace Machine

/-- Whether the names of a transition are declared. -/
def Declares (m : Machine) (t : Transition) : Prop :=
  t.symbol ∈ m.symbols ∧ t.source ∈ m.states ∧ t.target ∈ m.states

/-- Whether a change can be made: a transition asks for declared names, and nothing else does. -/
def Admits (m : Machine) : Change → Prop
  | .transition t => m.Declares t
  | _ => True

def change (m : Machine) : Change → Machine × Outcome
  | .symbol s =>
    if m.hasSymbol s then (m, .unchanged (.symbolDeclared s))
    else ({ m with symbols := Ascending.put id s m.symbols }, .done [])
  | .state q =>
    if m.hasState q then (m, .unchanged (.stateDeclared q)) else (m.declare q, .done [])
  | .initial q =>
    ({ (m.ensureState q).1 with initial := some q, current := some q }, (m.ensureState q).2)
  | .current q => ({ (m.ensureState q).1 with current := some q }, (m.ensureState q).2)
  | .final q =>
    let ensured := (m.ensureState q).1
    if ensured.isFinal q then
      (ensured, ⟨false, (m.ensureState q).2.notices ++ [.alreadyFinal q]⟩)
    else ({ ensured with finals := Ascending.put id q ensured.finals }, (m.ensureState q).2)
  | .transition t => m.setTransition t

def readChange (m : Machine) : Edit → Except EditError Change
  | .addSymbol raw => ((Symbol.parse raw).mapError .name).map .symbol
  | .addState raw => (readState raw).map .state
  | .setInitial raw => (readState raw).map .initial
  | .setCurrent raw => (readState raw).map .current
  | .addFinal raw => (readState raw).map .final
  | .addTransition symbol source target =>
    ((m.readTransition symbol source target).mapError (.transition symbol source target)).map
      .transition

-- An edit reads its names and makes a change.
theorem edit_eq (m : Machine) (e : Edit) : m.edit e = (m.readChange e).map m.change := by
  -- Either a name is refused, and both sides fail with it, or the change is made on both sides.
  cases e with
  | addSymbol raw =>
    show m.addSymbol raw = (((Symbol.parse raw).mapError EditError.name).map .symbol).map m.change
    unfold addSymbol
    cases Symbol.parse raw with
    | error e => rfl
    | ok s =>
      show (if m.hasSymbol s = true then _ else _) =
        Except.ok (if m.hasSymbol s = true then _ else _)
      split <;> rfl
  | addState raw =>
    show m.addState raw = ((readState raw).map .state).map m.change
    unfold addState
    cases readState raw with
    | error e => rfl
    | ok q =>
      show (if m.hasState q = true then _ else _) = Except.ok (if m.hasState q = true then _ else _)
      split <;> rfl
  | setInitial raw =>
    show m.setInitial raw = ((readState raw).map .initial).map m.change
    unfold setInitial
    cases readState raw <;> rfl
  | setCurrent raw =>
    show m.setCurrent raw = ((readState raw).map .current).map m.change
    unfold setCurrent
    cases readState raw <;> rfl
  | addFinal raw =>
    show m.addFinal raw = ((readState raw).map .final).map m.change
    unfold addFinal
    cases readState raw with
    | error e => rfl
    | ok q =>
      show (if (m.ensureState q).1.isFinal q = true then _ else _) =
        Except.ok (if (m.ensureState q).1.isFinal q = true then _ else _)
      split <;> rfl
  | addTransition symbol source target =>
    show m.addTransition symbol source target =
      (((m.readTransition symbol source target).mapError
        (EditError.transition symbol source target)).map .transition).map m.change
    unfold addTransition
    cases m.readTransition symbol source target <;> rfl

theorem edit_ok_iff {m : Machine} {e : Edit} {r : Machine × Outcome} :
    m.edit e = .ok r ↔ ∃ c, m.readChange e = .ok c ∧ m.change c = r := by
  rw [edit_eq, map_eq_ok_iff]

-- The transition that three texts describe has their names, and they are declared.
theorem readTransition_ok_iff {m : Machine} {symbol source target : String} {t : Transition} :
    m.readTransition symbol source target = .ok t ↔
      Symbol.parse symbol = .ok t.symbol ∧ StateName.parse source = .ok t.source ∧
        StateName.parse target = .ok t.target ∧ m.Declares t := by
  unfold readTransition Declares
  simp only [throw_bind, bind_eq_ok_iff, mapError_eq_ok_iff, ite_throw_eq_ok_iff, pure_eq_ok_iff,
    hasSymbol, hasState, Bool.not_eq_true', decide_eq_false_iff_not, Classical.not_not]
  constructor
  · rintro ⟨s, hs, q, hq, r, hr, hsymbol, hsource, htarget, rfl⟩
    exact ⟨hs, hq, hr, hsymbol, hsource, htarget⟩
  · rintro ⟨hs, hq, hr, hsymbol, hsource, htarget⟩
    exact ⟨t.symbol, hs, t.source, hq, t.target, hr, hsymbol, hsource, htarget, rfl⟩

theorem admits_of_readChange {m : Machine} {e : Edit} {c : Change} (h : m.readChange e = .ok c) :
    m.Admits c := by
  cases c with
  | transition t =>
    cases e with
    | addTransition symbol source target =>
      simp only [readChange, map_eq_ok_iff, mapError_eq_ok_iff, Change.transition.injEq,
        exists_eq_right] at h
      exact (readTransition_ok_iff.mp h).2.2.2
    | _ => simp [readChange, map_eq_ok_iff] at h
  | _ => trivial

theorem readState_text (q : StateName) : readState q.text = .ok q := by
  unfold readState
  rw [StateName.parse_text]
  rfl

/-- The edit that is written for a change makes that change. -/
theorem readChange_written {m : Machine} {c : Change} (h : m.Admits c) :
    m.readChange c.written = .ok c := by
  cases c with
  | symbol s =>
    show ((Symbol.parse (toString s)).mapError EditError.name).map Change.symbol = .ok (.symbol s)
    rw [Symbol.parse_toString]
    rfl
  | transition t =>
    simp only [Change.written, readChange, map_eq_ok_iff, mapError_eq_ok_iff,
      Change.transition.injEq, exists_eq_right]
    exact readTransition_ok_iff.mpr
      ⟨Symbol.parse_toString _, StateName.parse_text _, StateName.parse_text _, h⟩
  | _ =>
    simp only [Change.written, readChange, readState_text]
    rfl

theorem edit_written {m : Machine} {c : Change} (h : m.Admits c) :
    m.edit c.written = .ok (m.change c) :=
  edit_ok_iff.mpr ⟨c, readChange_written h, rfl⟩

-- An edit leaves the machine alone or makes a change that the machine admits.
theorem after_cases (m : Machine) (e : Edit) :
    m.after e = m ∨ ∃ c, m.Admits c ∧ m.after e = (m.change c).1 := by
  unfold after
  cases hedit : m.edit e with
  | error err => exact Or.inl rfl
  | ok r =>
    obtain ⟨c, hread, rfl⟩ := edit_ok_iff.mp hedit
    exact Or.inr ⟨c, admits_of_readChange hread, rfl⟩

/-! ## Histories of edits -/

/-- The machine after edits, of which those that fail leave it as it was. -/
def afterAll (m : Machine) (es : List Edit) : Machine :=
  es.foldl after m

theorem afterAll_append (m : Machine) (es fs : List Edit) :
    m.afterAll (es ++ fs) = (m.afterAll es).afterAll fs :=
  List.foldl_append

theorem after_of_edit {m : Machine} {e : Edit} {r : Machine × Outcome} (h : m.edit e = .ok r) :
    m.after e = r.1 := by
  rw [after, h]

theorem after_of_error {m : Machine} {e : Edit} {err : EditError} (h : m.edit e = .error err) :
    m.after e = m := by
  rw [after, h]

end Machine

end Statewright
