import Mathlib.Order.Bounds.Basic
import Statewright.Proofs.History
import Statewright.Proofs.LetterCase

/-!
# What a run visits

A run reads the longest front of its input that leads on from state to state, and its trace holds
the states on the way. What stops it is decided by the first character that is left and the state
that was reached, so the run on a longer input goes on where the run on its front ended. Running
moves the current state and nothing else, and the current state plays no part in any run.
-/

namespace Statewright

/-- The trace of a run that goes on where another one ended. -/
def Trace.andThen (t next : Trace) : Trace :=
  ⟨t.states ++ next.states.tail, next.verdict, next.halt⟩

-- A character is read as a symbol exactly if that has its upper case.
theorem Symbol.ofChar_eq_ok_iff {c : Char} {s : Symbol} :
    ofChar c = .ok s ↔ s.char = c.toUpper := by
  constructor
  · intro h
    unfold ofChar at h
    split at h
    · cases h
      rfl
    · cases h
  · intro h
    have halnum : c.isAlphanum = true := by
      rw [← Text.isAlphanum_toUpper, ← h]
      exact Text.isAlphanum_of_isNameChar s.canonical
    unfold ofChar
    rw [dif_pos halnum]
    cases s
    cases h
    rfl

namespace Machine

/-! ## Paths -/

/-- Whether reading a character leads from one state to another: in upper case it is a declared
symbol, and there is a transition with it between the two. -/
def Reads (m : Machine) (q : StateName) (c : Char) (r : StateName) : Prop :=
  ∃ s ∈ m.symbols, s.char = c.toUpper ∧ m.target? s q = some r

/-- The states that characters lead to from a state, one after the other. -/
inductive Path (m : Machine) : StateName → List Char → List StateName → Prop
  | nil (q : StateName) : Path m q [] []
  | cons {q r : StateName} {c : Char} {cs : List Char} {visited : List StateName} :
      m.Reads q c r → Path m r cs visited → Path m q (c :: cs) (r :: visited)

/-- Whether so many characters at the front of an input can be read one after the other. -/
def CanRead (m : Machine) (q : StateName) (cs : List Char) (n : Nat) : Prop :=
  n ≤ cs.length ∧ ∃ visited, m.Path q (cs.take n) visited

/-- What a trace tells of a run from a state that reads so many characters of its input. -/
structure Tells (m : Machine) (q : StateName) (cs : List Char) (n : Nat) (t : Trace) : Prop where
  length : t.states.length = n + 1
  states : ∃ visited, m.Path q (cs.take n) visited ∧ t.states = q :: visited
  verdict (last : StateName) : t.last? = some last → (t.verdict = .accept ↔ last ∈ m.finals)
  halt_none : t.halt = none ↔ n = cs.length
  halt_undeclared (c : Char) : t.halt = some (.undeclaredSymbol c) ↔
    ∃ next, cs[n]? = some next ∧ c = next.toUpper ∧ ∀ s ∈ m.symbols, s.char ≠ next.toUpper
  halt_noTransition (s : Symbol) (last : StateName) : t.halt = some (.noTransition s last) ↔
    ∃ next, cs[n]? = some next ∧ s ∈ m.symbols ∧ s.char = next.toUpper ∧ t.last? = some last

/-- The trace of the run from a state. -/
def traceFrom (m : Machine) (q : StateName) (input : String) : Trace :=
  { m with initial := some q }.trace input

variable {m : Machine} {q r : StateName} {c : Char} {cs : List Char} {visited : List StateName}

theorem Path.length_eq (h : m.Path q cs visited) : visited.length = cs.length := by
  induction h with
  | nil q => rfl
  | cons _ _ ih => rw [List.length_cons, List.length_cons, ih]

/-! ## One character -/

theorem step_eq_ok_iff : m.step q c = .ok r ↔ m.Reads q c r := by
  unfold step Reads
  constructor
  · intro h
    split at h
    · cases h
    · next s hs =>
      split at h
      · next hsymbol =>
        split at h
        · next hr =>
          cases h
          exact ⟨s, of_decide_eq_true hsymbol, Symbol.ofChar_eq_ok_iff.mp hs, hr⟩
        · cases h
      · cases h
  · rintro ⟨s, hsymbol, hs, hr⟩
    rw [Symbol.ofChar_eq_ok_iff.mpr hs]
    dsimp only
    rw [hasSymbol, if_pos (decide_eq_true hsymbol), hr]

theorem step_eq_error_iff {halt : Halt} : m.step q c = .error halt ↔
    (halt = .undeclaredSymbol c.toUpper ∧ ∀ s ∈ m.symbols, s.char ≠ c.toUpper) ∨
    ∃ s ∈ m.symbols, s.char = c.toUpper ∧ m.target? s q = none ∧ halt = .noTransition s q := by
  unfold step
  cases hs : Symbol.ofChar c with
  | error e =>
    have hnone : ∀ s : Symbol, s.char ≠ c.toUpper := by
      intro s heq
      rw [Symbol.ofChar_eq_ok_iff.mpr heq] at hs
      cases hs
    simp [hnone, eq_comm]
  | ok s =>
    have hchar := Symbol.ofChar_eq_ok_iff.mp hs
    -- No other symbol is the character's upper case.
    have honly : ∀ s' : Symbol, s'.char = c.toUpper ↔ s' = s := by
      intro s'
      constructor
      · intro heq
        rw [Symbol.ofChar_eq_ok_iff.mpr heq] at hs
        exact Except.ok.inj hs
      · rintro rfl
        exact hchar
    simp only [ne_eq, honly, hasSymbol, decide_eq_true_eq]
    by_cases hsymbol : s ∈ m.symbols
    · cases htarget : m.target? s q with
      | none => simp [hsymbol, htarget, eq_comm]
      | some r => simp [hsymbol, htarget]
    · have hno : ∀ s' ∈ m.symbols, s' ≠ s := by
        rintro s' hs' rfl
        exact hsymbol hs'
      simpa [hsymbol, @eq_comm _ _ halt] using fun _ => hno

/-! Why a character is not read is decided by whether it is a declared symbol. -/

theorem halt_undeclared_iff {halt : Halt} (h : m.step q c = .error halt) {d : Char} :
    halt = .undeclaredSymbol d ↔ d = c.toUpper ∧ ∀ s ∈ m.symbols, s.char ≠ c.toUpper := by
  rcases step_eq_error_iff.mp h with ⟨rfl, hno⟩ | ⟨s, hs, hchar, -, rfl⟩
  · rw [Halt.undeclaredSymbol.injEq]
    exact ⟨fun heq => ⟨heq.symm, hno⟩, fun heq => heq.1.symm⟩
  · exact iff_of_false (fun heq => by cases heq) (fun hno => hno.2 s hs hchar)

theorem halt_noTransition_iff {halt : Halt} (h : m.step q c = .error halt) {s : Symbol} :
    halt = .noTransition s r ↔ s ∈ m.symbols ∧ s.char = c.toUpper ∧ q = r := by
  rcases step_eq_error_iff.mp h with ⟨rfl, hno⟩ | ⟨s', hs', hchar', -, rfl⟩
  · exact iff_of_false (fun heq => by cases heq) (fun hsome => hno s hsome.1 hsome.2.1)
  · rw [Halt.noTransition.injEq]
    constructor
    · rintro ⟨rfl, rfl⟩
      exact ⟨hs', hchar', rfl⟩
    · rintro ⟨-, hchar, rfl⟩
      exact ⟨Symbol.mk.injEq .. ▸ hchar'.trans hchar.symm, rfl⟩

/-! ## The walk -/

theorem walk_of_ok (h : m.step q c = .ok r) (cs : List Char) :
    m.walk q (c :: cs) = (r :: (m.walk r cs).1, (m.walk r cs).2) := by
  rw [walk, h]

theorem walk_of_error {halt : Halt} (h : m.step q c = .error halt) (cs : List Char) :
    m.walk q (c :: cs) = ([], some halt) := by
  rw [walk, h]

-- The states that are visited lie on the path of the characters that are read.
theorem walk_path (m : Machine) (q : StateName) (cs : List Char) :
    m.Path q (cs.take (m.walk q cs).1.length) (m.walk q cs).1 := by
  induction cs generalizing q with
  | nil => exact .nil q
  | cons c cs ih =>
    cases hstep : m.step q c with
    | error halt =>
      rw [walk_of_error hstep]
      exact .nil q
    | ok r =>
      rw [walk_of_ok hstep]
      exact .cons (step_eq_ok_iff.mp hstep) (ih r)

-- Whatever path the front of an input has, the walk takes it.
theorem Path.isPrefix (h : m.Path q cs visited) (rest : List Char) :
    visited <+: (m.walk q (cs ++ rest)).1 := by
  induction h with
  | nil q => exact List.nil_prefix
  | cons hreads _ ih =>
    rw [List.cons_append, walk_of_ok (step_eq_ok_iff.mpr hreads)]
    exact (List.prefix_cons_inj _).mpr ih

theorem isGreatest_walk (m : Machine) (q : StateName) (cs : List Char) :
    IsGreatest {n | m.CanRead q cs n} (m.walk q cs).1.length := by
  have hpath := m.walk_path q cs
  constructor
  · refine ⟨?_, _, hpath⟩
    have hlength := hpath.length_eq
    rw [List.length_take] at hlength
    omega
  · rintro n ⟨hn, visited, hvisited⟩
    have hlength := hvisited.length_eq
    have hprefix := hvisited.isPrefix (cs.drop n)
    rw [List.take_append_drop] at hprefix
    rw [List.length_take, Nat.min_eq_left hn] at hlength
    rw [← hlength]
    exact hprefix.length_le

/-- A walk reads its whole input, or halts at the first character that it cannot read. -/
theorem walk_halt (m : Machine) (q : StateName) (cs : List Char) :
    ((m.walk q cs).2 = none ∧ (m.walk q cs).1.length = cs.length) ∨
    ∃ c halt, cs[(m.walk q cs).1.length]? = some c ∧
      m.step ((m.walk q cs).1.getLastD q) c = .error halt ∧ (m.walk q cs).2 = some halt := by
  induction cs generalizing q with
  | nil => exact .inl ⟨rfl, rfl⟩
  | cons c cs ih =>
    cases hstep : m.step q c with
    | error halt =>
      rw [walk_of_error hstep]
      exact .inr ⟨c, halt, rfl, hstep, rfl⟩
    | ok r =>
      rw [walk_of_ok hstep]
      rcases ih r with ⟨hnone, hlength⟩ | ⟨c', halt, hnext, herror, hhalt⟩
      · exact .inl ⟨hnone, congrArg (· + 1) hlength⟩
      · refine .inr ⟨c', halt, hnext, ?_, hhalt⟩
        rwa [List.getLastD_cons]

/-! A walk goes on where the walk on the front of its input ended. -/

theorem walk_append_of_halt {u : List Char} (h : (m.walk q u).2 ≠ none) (v : List Char) :
    m.walk q (u ++ v) = m.walk q u := by
  induction u generalizing q with
  | nil => exact absurd rfl h
  | cons c u ih =>
    cases hstep : m.step q c with
    | error halt => rw [List.cons_append, walk_of_error hstep, walk_of_error hstep]
    | ok r =>
      rw [walk_of_ok hstep] at h
      rw [List.cons_append, walk_of_ok hstep, walk_of_ok hstep, ih h]

theorem walk_append_of_none {u : List Char} (h : (m.walk q u).2 = none) (v : List Char) :
    m.walk q (u ++ v) =
      ((m.walk q u).1 ++ (m.walk ((m.walk q u).1.getLastD q) v).1,
        (m.walk ((m.walk q u).1.getLastD q) v).2) := by
  induction u generalizing q with
  | nil => rfl
  | cons c u ih =>
    cases hstep : m.step q c with
    | error halt =>
      rw [walk_of_error hstep] at h
      cases h
    | ok r =>
      rw [walk_of_ok hstep] at h
      rw [List.cons_append, walk_of_ok hstep, walk_of_ok hstep, ih h, List.getLastD_cons]
      rfl

/-! ## The trace -/

-- Symbols and transitions decide the way.
theorem walk_congr {n : Machine} (hsymbols : n.symbols = m.symbols)
    (htransitions : n.transitions = m.transitions) (q : StateName) (cs : List Char) :
    n.walk q cs = m.walk q cs := by
  have hstep : ∀ q c, n.step q c = m.step q c := by
    intro q c
    unfold step hasSymbol target?
    rw [hsymbols, htransitions]
  induction cs generalizing q with
  | nil => rfl
  | cons c cs ih =>
    cases hmstep : m.step q c with
    | error halt => rw [walk_of_error hmstep, walk_of_error ((hstep q c).trans hmstep)]
    | ok r => rw [walk_of_ok hmstep, walk_of_ok ((hstep q c).trans hmstep), ih]

theorem trace_eq (h : m.initial = some q) (input : String) :
    m.trace input = ⟨q :: (m.walk q input.toList).1,
      m.verdictAt ((m.walk q input.toList).1.getLastD q), (m.walk q input.toList).2⟩ := by
  unfold trace
  rw [h]

theorem traceFrom_eq (m : Machine) (q : StateName) (input : String) :
    m.traceFrom q input = ⟨q :: (m.walk q input.toList).1,
      m.verdictAt ((m.walk q input.toList).1.getLastD q), (m.walk q input.toList).2⟩ := by
  have hwalk := walk_congr (m := m) (n := { m with initial := some q }) rfl rfl q input.toList
  rw [traceFrom, trace_eq (q := q) rfl, hwalk]
  rfl

-- The current state plays no part in a run, and the states play none that are not visited.
theorem trace_congr {n : Machine} (hinitial : n.initial = m.initial)
    (hsymbols : n.symbols = m.symbols) (hfinals : n.finals = m.finals)
    (htransitions : n.transitions = m.transitions) (input : String) :
    n.trace input = m.trace input := by
  have hverdict : ∀ q, n.verdictAt q = m.verdictAt q := by
    intro q
    unfold verdictAt isFinal
    rw [hfinals]
  unfold trace
  rw [hinitial]
  cases m.initial with
  | none => rfl
  | some q =>
    dsimp only
    rw [walk_congr hsymbols htransitions, hverdict]

theorem last_trace (h : m.initial = some q) (input : String) :
    (m.trace input).last? = some ((m.walk q input.toList).1.getLastD q) := by
  rw [trace_eq h, Trace.last?, List.getLast?_cons, List.getLastD_eq_getLast?]

theorem getLastD_append (visited later : List StateName) (q : StateName) :
    (visited ++ later).getLastD q = later.getLastD (visited.getLastD q) := by
  rw [List.getLastD_eq_getLast?, List.getLastD_eq_getLast?, List.getLastD_eq_getLast?,
    List.getLast?_append]
  cases later.getLast? with
  | none => rfl
  | some r => rfl

theorem verdictAt_eq_accept_iff : m.verdictAt q = .accept ↔ q ∈ m.finals := by
  unfold verdictAt isFinal
  by_cases hq : q ∈ m.finals
  · simp [hq]
  · simp [hq]

/-- The trace of a machine with an initial state tells of the run from there. -/
theorem tells_trace (h : m.initial = some q) (input : String) :
    m.Tells q input.toList (m.walk q input.toList).1.length (m.trace input) := by
  have hlast := last_trace h input
  have hpath := m.walk_path q input.toList
  have hhalt := m.walk_halt q input.toList
  rw [trace_eq h] at hlast ⊢
  generalize m.walk q input.toList = walked at *
  obtain ⟨visited, halt⟩ := walked
  dsimp only at hpath hhalt hlast ⊢
  refine {
    length := rfl
    states := ⟨visited, hpath, rfl⟩
    verdict := ?_
    halt_none := ?_
    halt_undeclared := fun c => ?_
    halt_noTransition := fun s r => ?_ }
  · intro r hr
    rw [Option.some.inj (hlast.symm.trans hr)]
    exact verdictAt_eq_accept_iff
  · rcases hhalt with ⟨hnone, hall⟩ | ⟨c, reason, hnext, -, hsome⟩
    · exact iff_of_true hnone hall
    · refine iff_of_false (hsome ▸ Option.some_ne_none reason) (fun hall => ?_)
      rw [hall, List.getElem?_length] at hnext
      cases hnext
  · rcases hhalt with ⟨rfl, hall⟩ | ⟨next, reason, hnext, herror, rfl⟩
    · simp [hall]
    · simp only [hnext, Option.some.injEq, exists_eq_left']
      exact halt_undeclared_iff herror
  · rcases hhalt with ⟨rfl, hall⟩ | ⟨next, reason, hnext, herror, rfl⟩
    · simp [hall]
    · simp only [hnext, hlast, Option.some.injEq, exists_eq_left']
      exact halt_noTransition_iff herror

/-! ## The current state -/

/-- Whether two machines differ in the current state at most. -/
def SameButCurrent (m n : Machine) : Prop :=
  ∃ current, n = { m with current := current }

namespace SameButCurrent

variable {n : Machine}

theorem trace (h : m.SameButCurrent n) (input : String) : n.trace input = m.trace input := by
  obtain ⟨current, rfl⟩ := h
  exact trace_congr (m := m) (n := { m with current := current }) rfl rfl rfl rfl input

theorem execute (h : m.SameButCurrent n) (input : String) :
    m.SameButCurrent (n.execute input).1 := by
  obtain ⟨current, rfl⟩ := h
  unfold Machine.execute
  dsimp only
  split
  · exact ⟨_, rfl⟩
  · exact ⟨current, rfl⟩

theorem symm (h : m.SameButCurrent n) : n.SameButCurrent m := by
  obtain ⟨current, rfl⟩ := h
  exact ⟨m.current, rfl⟩

theorem trans {k : Machine} (h : m.SameButCurrent n) (h' : n.SameButCurrent k) :
    m.SameButCurrent k := by
  obtain ⟨current, rfl⟩ := h
  obtain ⟨current', rfl⟩ := h'
  exact ⟨current', rfl⟩

theorem declare (h : m.SameButCurrent n) (q : StateName) :
    (m.declare q).SameButCurrent (n.declare q) := by
  obtain ⟨current, rfl⟩ := h
  unfold Machine.declare
  dsimp only
  split
  · exact ⟨current, rfl⟩
  · exact ⟨some q, rfl⟩

theorem ensureState (h : m.SameButCurrent n) (q : StateName) :
    (m.ensureState q).1.SameButCurrent (n.ensureState q).1 := by
  have hstates : n.hasState q = m.hasState q := by
    obtain ⟨current, rfl⟩ := h
    rfl
  unfold Machine.ensureState
  rw [hstates]
  split
  · exact h
  · exact h.declare q

theorem change (h : m.SameButCurrent n) (c : Change) :
    (m.change c).1.SameButCurrent (n.change c).1 := by
  cases c with
  | symbol s =>
    obtain ⟨current, rfl⟩ := h
    unfold Machine.change hasSymbol
    dsimp only
    split
    · exact ⟨current, rfl⟩
    · exact ⟨current, rfl⟩
  | state q =>
    rw [change_state, change_state]
    exact h.ensureState q
  | initial q =>
    obtain ⟨current, hensured⟩ := h.ensureState q
    refine ⟨some q, ?_⟩
    unfold Machine.change
    dsimp only
    rw [hensured]
  | current q =>
    obtain ⟨current, hensured⟩ := h.ensureState q
    refine ⟨some q, ?_⟩
    unfold Machine.change
    dsimp only
    rw [hensured]
  | final q =>
    obtain ⟨current, hensured⟩ := h.ensureState q
    unfold Machine.change isFinal
    dsimp only
    rw [hensured]
    dsimp only
    split
    · exact ⟨current, rfl⟩
    · exact ⟨current, rfl⟩
  | transition t =>
    obtain ⟨current, rfl⟩ := h
    rw [change_transition, change_transition]
    exact ⟨current, rfl⟩

theorem after (h : m.SameButCurrent n) (e : Edit) : (m.after e).SameButCurrent (n.after e) := by
  have hread : n.readChange e = m.readChange e := by
    obtain ⟨current, rfl⟩ := h
    cases e
    all_goals rfl
  unfold Machine.after
  rw [edit_eq, edit_eq, hread]
  cases m.readChange e with
  | error err => exact h
  | ok c => exact h.change c

/-- The current state plays no part in what an operation makes of the other fields. -/
theorem operate (h : m.SameButCurrent n) (op : Operation) :
    (m.operate op).SameButCurrent (n.operate op) := by
  cases op with
  | edit e => exact h.after e
  | execute input =>
    have hself : m.SameButCurrent m := ⟨m.current, rfl⟩
    exact (hself.execute input).symm.trans (h.execute input)
  | clear => exact ⟨none, rfl⟩
  | restore c =>
    unfold Machine.operate
    dsimp only
    split
    · exact ⟨_, rfl⟩
    · exact h

theorem operateAll (h : m.SameButCurrent n) (ops : List Operation) :
    (m.operateAll ops).SameButCurrent (n.operateAll ops) := by
  induction ops generalizing m n with
  | nil => exact h
  | cons op ops ih => exact ih (h.operate op)

end SameButCurrent

/-! ## Runs on longer inputs -/

/-- The trace of a machine with an initial state tells of the longest front of its input that can be
read from there: of the states on the way, of what stops the run, and whether the last state is
final. On a longer input a run that halted does the same, and one that did not halt goes on from its
last state. Running leaves the machine there and changes nothing else, so that no later run depends
on it, whatever is done to the machine in between. -/
theorem trace_tells_longest (h : m.initial = some q) (input : String) :
    (∃ n, IsGreatest {k | m.CanRead q input.toList k} n ∧
      m.Tells q input.toList n (m.trace input)) ∧
    (∀ u v, input = u ++ v →
      ((m.trace u).halt ≠ none → m.trace input = m.trace u) ∧
      ((m.trace u).halt = none → ∃ last, (m.trace u).last? = some last ∧
        m.trace input = (m.trace u).andThen (m.traceFrom last v))) ∧
    (m.execute input).2 = m.trace input ∧
    (∃ last, (m.trace input).last? = some last ∧
      (m.execute input).1 = { m with current := some last }) ∧
    ∀ ops later,
      ((m.execute input).1.operateAll ops).trace later = (m.operateAll ops).trace later := by
  refine ⟨⟨_, isGreatest_walk m q input.toList, tells_trace h input⟩, ?_, ?_, ?_, ?_⟩
  · rintro u v rfl
    rw [trace_eq h, trace_eq h, String.toList_append]
    constructor
    · intro hhalt
      rw [walk_append_of_halt hhalt]
    · intro hnone
      refine ⟨_, (trace_eq h u ▸ last_trace h u), ?_⟩
      rw [walk_append_of_none hnone, traceFrom_eq, Trace.andThen]
      generalize m.walk q u.toList = front
      rw [getLastD_append]
      rfl
  · unfold execute
    dsimp only
    split
    · rfl
    · rfl
  · refine ⟨_, last_trace h input, ?_⟩
    unfold execute
    dsimp only
    rw [last_trace h]
  · intro ops later
    have hself : m.SameButCurrent m := ⟨m.current, rfl⟩
    exact ((hself.execute input).operateAll ops).trace later

/-- A machine that reads one `A`, and is at its end then. -/
def readsOnce : Machine :=
  empty.afterAll [.addState "p", .addFinal "q", .addSymbol "a", .addTransition "a" "p" "q"]

/-- The premise holds of the machine: its run is at an end after one `a`, with a different halt by
the character that comes next. -/
theorem trace_readsOnce :
    readsOnce.trace "aa!" = readsOnce.trace "aa" ∧
    (∃ last, readsOnce.trace "a!" = (readsOnce.trace "a").andThen (readsOnce.traceFrom last "!")) ∧
    (readsOnce.execute "a").2.text = "P Q YES" ∧
    (readsOnce.trace "a!").halt = some (.undeclaredSymbol '!') := by
  obtain ⟨q, hinitial⟩ : ∃ q, readsOnce.initial = some q :=
    Option.isSome_iff_exists.mp (by decide +kernel)
  obtain ⟨-, hsplit, -⟩ := trace_tells_longest hinitial "aa!"
  obtain ⟨-, hon, -⟩ := trace_tells_longest hinitial "a!"
  obtain ⟨-, -, hexecute, -⟩ := trace_tells_longest hinitial "a"
  refine ⟨(hsplit "aa" "!" rfl).1 (by decide +kernel), ?_, ?_, by decide +kernel⟩
  · obtain ⟨last, -, htrace⟩ := (hon "a" "!" rfl).2 (by decide +kernel)
    exact ⟨last, htrace⟩
  · rw [hexecute]
    decide +kernel

end Machine

end Statewright
