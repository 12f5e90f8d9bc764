import Statewright.Machine.Run
import Statewright.Proofs.Change
import Statewright.Snapshot.Basic

/-!
# Well-formed machines

What links the six fields of a machine: every state that is mentioned is declared, and a machine has
an initial and a current state as soon as it has any state. Every operation keeps it, so it holds of
every machine that operations lead to.
-/

open Statewright.Fallible Statewright.Ascending

namespace Statewright

/-- What can be done to a machine: a failed edit or restoring leaves it as it is. -/
inductive Operation where
  | edit (e : Edit)
  | execute (input : String)
  | clear
  | restore (c : Snapshot)

namespace Machine

def operate (m : Machine) : Operation → Machine
  | .edit e => m.after e
  | .execute input => (m.execute input).1
  | .clear => .empty
  | .restore c =>
    match c.restore with
    | .ok restored => restored
    | .error _ => m

def operateAll (m : Machine) (ops : List Operation) : Machine :=
  ops.foldl operate m

/-- A machine that operations lead to from the empty one. -/
def Reachable (m : Machine) : Prop :=
  ∃ ops, m = empty.operateAll ops

structure WellFormed (m : Machine) : Prop where
  symbols_ascending : IsAscending id m.symbols
  states_nodup : m.states.Nodup
  finals_ascending : IsAscending id m.finals
  finals_declared : ∀ q ∈ m.finals, q ∈ m.states
  initial_none : m.initial = none ↔ m.states = []
  initial_declared : ∀ q, m.initial = some q → q ∈ m.states
  current_none : m.current = none ↔ m.states = []
  current_declared : ∀ q, m.current = some q → q ∈ m.states
  transitions_ascending : IsAscending Transition.key m.transitions
  transitions_declared : ∀ t ∈ m.transitions, m.Declares t

namespace WellFormed

variable {m : Machine}

theorem empty : Machine.empty.WellFormed where
  symbols_ascending := isAscending_nil
  states_nodup := List.nodup_nil
  finals_ascending := isAscending_nil
  finals_declared := fun _ hq => nomatch hq
  initial_none := Iff.intro (fun _ => rfl) (fun _ => rfl)
  initial_declared := fun _ hq => nomatch hq
  current_none := Iff.intro (fun _ => rfl) (fun _ => rfl)
  current_declared := fun _ hq => nomatch hq
  transitions_ascending := isAscending_nil
  transitions_declared := fun _ ht => nomatch ht

/-! ## Changes -/

theorem putSymbol (h : m.WellFormed) (s : Symbol) :
    { m with symbols := put id s m.symbols }.WellFormed := by
  refine { h with symbols_ascending := h.symbols_ascending.put s, transitions_declared := ?_ }
  intro t ht
  obtain ⟨hsymbol, hsource, htarget⟩ := h.transitions_declared t ht
  refine ⟨?_, hsource, htarget⟩
  -- Entering a symbol may replace one, but only by itself.
  by_cases hs : s = t.symbol
  · rw [hs]
    exact mem_put_self
  · exact mem_put_of_mem hsymbol hs

theorem declare (h : m.WellFormed) {q : StateName} (hq : q ∉ m.states) :
    (m.declare q).WellFormed := by
  have hmem : ∀ r ∈ m.states, r ∈ m.states ++ [q] := fun r hr => List.mem_append_left [q] hr
  have hself : q ∈ m.states ++ [q] := List.mem_append_right m.states List.mem_cons_self
  have hne : m.states ++ [q] ≠ [] := List.append_ne_nil_of_right_ne_nil _ (List.cons_ne_nil q [])
  have hnodup : (m.states ++ [q]).Nodup := by
    rw [List.nodup_append]
    refine ⟨h.states_nodup, List.pairwise_singleton _ q, ?_⟩
    intro a ha b hb hab
    rw [List.mem_singleton.mp hb] at hab
    exact hq (hab ▸ ha)
  have hdeclared : ∀ t ∈ m.transitions,
      t.symbol ∈ m.symbols ∧ t.source ∈ m.states ++ [q] ∧ t.target ∈ m.states ++ [q] := by
    intro t ht
    obtain ⟨hsymbol, hsource, htarget⟩ := h.transitions_declared t ht
    exact ⟨hsymbol, hmem _ hsource, hmem _ htarget⟩
  have hfinals : ∀ r ∈ m.finals, r ∈ m.states ++ [q] := fun r hr => hmem r (h.finals_declared r hr)
  -- The first state of a machine becomes initial and current; a later one changes neither.
  unfold Machine.declare
  split
  case h_1 i hi =>
    have hcurrent : m.current ≠ none := by
      rw [ne_eq, h.current_none, ← h.initial_none, hi]
      exact Option.some_ne_none i
    exact {
      symbols_ascending := h.symbols_ascending
      states_nodup := hnodup
      finals_ascending := h.finals_ascending
      finals_declared := hfinals
      initial_none := iff_of_false (hi ▸ Option.some_ne_none i) hne
      initial_declared := fun r hr => hmem r (h.initial_declared r hr)
      current_none := iff_of_false hcurrent hne
      current_declared := fun r hr => hmem r (h.current_declared r hr)
      transitions_ascending := h.transitions_ascending
      transitions_declared := hdeclared }
  case h_2 hi =>
    have hget : ∀ r, some q = some r → r ∈ m.states ++ [q] := by
      intro r hr
      rw [← Option.some.inj hr]
      exact hself
    exact {
      symbols_ascending := h.symbols_ascending
      states_nodup := hnodup
      finals_ascending := h.finals_ascending
      finals_declared := hfinals
      initial_none := iff_of_false (Option.some_ne_none q) hne
      initial_declared := hget
      current_none := iff_of_false (Option.some_ne_none q) hne
      current_declared := hget
      transitions_ascending := h.transitions_ascending
      transitions_declared := hdeclared }

theorem ensureState (h : m.WellFormed) (q : StateName) :
    (m.ensureState q).1.WellFormed ∧ q ∈ (m.ensureState q).1.states := by
  unfold Machine.ensureState Machine.hasState
  by_cases hq : q ∈ m.states
  · rw [if_pos (decide_eq_true hq)]
    exact ⟨h, hq⟩
  · rw [if_neg (by rw [decide_eq_true_eq]; exact hq)]
    refine ⟨h.declare hq, ?_⟩
    rw [declare_states]
    exact List.mem_append_right m.states List.mem_cons_self

theorem setCurrent (h : m.WellFormed) {q : StateName} (hq : q ∈ m.states) :
    { m with current := some q }.WellFormed := by
  refine { h with current_none := ?_, current_declared := ?_ }
  · exact iff_of_false (Option.some_ne_none q) (List.ne_nil_of_mem hq)
  · intro r hr
    rw [← Option.some.inj hr]
    exact hq

theorem setInitial (h : m.WellFormed) {q : StateName} (hq : q ∈ m.states) :
    { m with initial := some q, current := some q }.WellFormed := by
  refine { h.setCurrent hq with initial_none := ?_, initial_declared := ?_ }
  · exact iff_of_false (Option.some_ne_none q) (List.ne_nil_of_mem hq)
  · intro r hr
    rw [← Option.some.inj hr]
    exact hq

theorem putFinal (h : m.WellFormed) {q : StateName} (hq : q ∈ m.states) :
    { m with finals := put id q m.finals }.WellFormed := by
  refine { h with finals_ascending := h.finals_ascending.put q, finals_declared := ?_ }
  intro r hr
  rcases mem_put hr with rfl | hr
  · exact hq
  · exact h.finals_declared r hr

theorem putTransition (h : m.WellFormed) {t : Transition} (ht : m.Declares t) :
    { m with transitions := put Transition.key t m.transitions }.WellFormed := by
  refine { h with
    transitions_ascending := h.transitions_ascending.put t, transitions_declared := ?_ }
  intro u hu
  rcases mem_put hu with rfl | hu
  · exact ht
  · exact h.transitions_declared u hu

-- A change keeps a machine well formed.
theorem change (h : m.WellFormed) {c : Change} (hc : m.Admits c) : (m.change c).1.WellFormed := by
  cases c with
  | symbol s =>
    show (if m.hasSymbol s = true then _ else _ : Machine × Outcome).1.WellFormed
    split
    · exact h
    · exact h.putSymbol s
  | state q =>
    show (if m.hasState q = true then _ else _ : Machine × Outcome).1.WellFormed
    split
    · exact h
    · next hq => exact h.declare (fun hmem => hq (decide_eq_true hmem))
  -- The three changes that may declare a state do so first, and then are about a declared one.
  | initial q => exact (h.ensureState q).1.setInitial (h.ensureState q).2
  | current q => exact (h.ensureState q).1.setCurrent (h.ensureState q).2
  | final q =>
    obtain ⟨hensured, hq⟩ := h.ensureState q
    show (if (m.ensureState q).1.isFinal q = true then _ else _ : Machine × Outcome).1.WellFormed
    split
    · exact hensured
    · exact hensured.putFinal hq
  | transition t =>
    have hput := h.putTransition hc
    show (m.setTransition t).1.WellFormed
    -- Whether the key led elsewhere decides the notice only.
    unfold Machine.setTransition
    split
    · split
      · exact hput
      · exact hput
    · exact hput

theorem after (h : m.WellFormed) (e : Edit) : (m.after e).WellFormed := by
  rcases after_cases m e with heq | ⟨c, hc, heq⟩
  · rw [heq]
    exact h
  · rw [heq]
    exact h.change hc

/-! ## Runs -/

theorem target_declared (h : m.WellFormed) {s : Symbol} {q r : StateName}
    (ht : m.target? s q = some r) : r ∈ m.states := by
  unfold target? at ht
  obtain ⟨t, hfind, rfl⟩ := Option.map_eq_some_iff.mp ht
  exact (h.transitions_declared t (List.mem_of_find?_eq_some hfind)).2.2

theorem step_declared (h : m.WellFormed) {q r : StateName} {c : Char}
    (hstep : m.step q c = .ok r) : r ∈ m.states := by
  unfold step at hstep
  split at hstep
  · cases hstep
  · split at hstep
    · split at hstep
      · next ht =>
        cases hstep
        exact h.target_declared ht
      · cases hstep
    · cases hstep

theorem walk_declared (h : m.WellFormed) (q : StateName) (cs : List Char) :
    ∀ r ∈ (m.walk q cs).1, r ∈ m.states := by
  -- The induction is on the input; the walk goes on in the state that was reached.
  induction cs generalizing q with
  | nil => exact fun _ hr => nomatch hr
  | cons c cs ih =>
    unfold walk
    cases hstep : m.step q c with
    | error halt => exact fun _ hr => nomatch hr
    | ok next =>
      intro r hr
      rcases List.mem_cons.mp hr with rfl | hr
      · exact h.step_declared hstep
      · exact ih next r hr

theorem trace_declared (h : m.WellFormed) (input : String) :
    ∀ r ∈ (m.trace input).states, r ∈ m.states := by
  unfold trace
  cases hinitial : m.initial with
  | none => exact fun _ hr => nomatch hr
  | some q =>
    intro r hr
    rcases List.mem_cons.mp hr with rfl | hr
    · exact h.initial_declared r hinitial
    · exact h.walk_declared q input.toList r hr

theorem execute (h : m.WellFormed) (input : String) : (m.execute input).1.WellFormed := by
  unfold Machine.execute
  dsimp only
  split
  · next hlast => exact h.setCurrent (h.trace_declared input _ (List.mem_of_getLast? hlast))
  · exact h

/-! ## Histories -/

theorem editEach (h : m.WellFormed) (es : List Edit) : (m.editEach es).1.WellFormed := by
  induction es generalizing m with
  | nil => exact h
  | cons e es ih =>
    unfold Machine.editEach
    -- An edit that succeeds leads to where `after` leads.
    have hafter := h.after e
    unfold Machine.after at hafter
    cases hedit : m.edit e with
    | error err => exact h
    | ok r =>
      rw [hedit] at hafter
      exact ih hafter

theorem editAll (h : m.WellFormed) {es : List Edit} {r : Machine × Outcome}
    (hall : m.editAll es = .ok r) : r.1.WellFormed := by
  have heach := h.editEach es
  unfold Machine.editAll at hall
  split at hall
  · next heq =>
    rw [heq] at heach
    cases hall
    exact heach
  · cases hall

theorem restore {c : Snapshot} (hrestore : c.restore = .ok m) : m.WellFormed := by
  unfold Snapshot.restore at hrestore
  split at hrestore
  · cases hrestore
  · split at hrestore
    · cases hrestore
    · split at hrestore
      · next hall =>
        cases hrestore
        exact WellFormed.empty.editAll hall
      · cases hrestore

theorem operate (h : m.WellFormed) (op : Operation) : (m.operate op).WellFormed := by
  cases op with
  | edit e => exact h.after e
  | execute input => exact h.execute input
  | clear => exact WellFormed.empty
  | restore c =>
    show (match c.restore with | .ok restored => restored | .error _ => m).WellFormed
    split
    · next hrestore => exact WellFormed.restore hrestore
    · exact h

theorem operateAll (h : m.WellFormed) (ops : List Operation) : (m.operateAll ops).WellFormed := by
  induction ops generalizing m with
  | nil => exact h
  | cons op ops ih => exact ih (h.operate op)

-- The three fields that `isEmpty` looks at decide the other three.
theorem isEmpty_iff (h : m.WellFormed) : m.isEmpty = true ↔ m = .empty := by
  constructor
  · intro hempty
    simp only [isEmpty, Bool.and_eq_true, List.isEmpty_iff] at hempty
    obtain ⟨⟨hsymbols, hstates⟩, htransitions⟩ := hempty
    -- Without states there is nothing that could be final, initial or current.
    have hfinals : m.finals = [] := by
      apply List.eq_nil_iff_forall_not_mem.mpr
      intro q hq
      have hdeclared := h.finals_declared q hq
      rw [hstates] at hdeclared
      exact nomatch hdeclared
    have hinitial := h.initial_none.mpr hstates
    have hcurrent := h.current_none.mpr hstates
    cases m
    simp_all only [Machine.empty]
  · rintro rfl
    rfl

end WellFormed

theorem Reachable.wellFormed {m : Machine} (h : m.Reachable) : m.WellFormed := by
  obtain ⟨ops, rfl⟩ := h
  exact WellFormed.empty.operateAll ops

/-- Whatever is done to the empty machine, the result is well formed, its names are ASCII letters
and digits without lower case, and it counts as empty only if it is the empty machine. -/
theorem operateAll_wellFormed (ops : List Operation) :
    (Machine.empty.operateAll ops).WellFormed ∧
    (∀ q ∈ (Machine.empty.operateAll ops).states,
      q.text ≠ "" ∧ ∀ c ∈ q.text.toList, c.isAlphanum = true ∧ c.isLower = false) ∧
    (∀ s ∈ (Machine.empty.operateAll ops).symbols,
      s.char.isAlphanum = true ∧ s.char.isLower = false) ∧
    ((Machine.empty.operateAll ops).isEmpty = true ↔
      Machine.empty.operateAll ops = Machine.empty) := by
  have h : (Machine.empty.operateAll ops).WellFormed := WellFormed.empty.operateAll ops
  refine ⟨h, ?_, ?_, h.isEmpty_iff⟩
  · intro q _
    refine ⟨q.nonempty, fun c hc => ?_⟩
    have hname := q.canonical c hc
    exact ⟨Text.isAlphanum_of_isNameChar hname, Text.not_isLower_of_isNameChar hname⟩
  · intro s _
    exact ⟨Text.isAlphanum_of_isNameChar s.canonical, Text.not_isLower_of_isNameChar s.canonical⟩

end Machine

end Statewright
