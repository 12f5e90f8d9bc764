import Statewright.Proofs.WellFormed

/-!
# The machine of a history

Edits of the empty machine lead to a machine that their history describes in one line a field: which
names were given, in which order, and which was given last. A transition counts if its names had
been given before it.
-/

open Statewright.Fallible Statewright.Ascending

namespace Statewright

/-! ## What an edit names -/

/-- The change that an edit asks for; none if one of its texts is no name. -/
def Edit.change? : Edit → Option Change
  | .addSymbol raw => (Symbol.parse raw).toOption.map .symbol
  | .addState raw => (StateName.parse raw).toOption.map .state
  | .setInitial raw => (StateName.parse raw).toOption.map .initial
  | .setCurrent raw => (StateName.parse raw).toOption.map .current
  | .addFinal raw => (StateName.parse raw).toOption.map .final
  | .addTransition symbol source target => do
    let s ← (Symbol.parse symbol).toOption
    let q ← (StateName.parse source).toOption
    let r ← (StateName.parse target).toOption
    return .transition ⟨s, q, r⟩

/-- The text that an edit gives for a state which it declares where it is not declared. -/
def Edit.stateText? : Edit → Option String
  | .addState raw | .setInitial raw | .setCurrent raw | .addFinal raw => some raw
  | _ => none

namespace Change

def symbol? : Change → Option Symbol
  | symbol s => some s
  | _ => none

/-- The state that a change takes, and declares where it is not declared. -/
def state? : Change → Option StateName
  | state q | initial q | current q | final q => some q
  | _ => none

def final? : Change → Option StateName
  | final q => some q
  | _ => none

def initial? : Change → Option StateName
  | initial q => some q
  | _ => none

/-- The state that a change makes the current one. -/
def current? : Change → Option StateName
  | initial q | current q => some q
  | _ => none

end Change

/-! ## Names as they are written -/

namespace History

/-- Whether a text names a state, in any case. -/
def namesState (raw : String) : Bool :=
  raw ≠ "" && raw.toList.all Char.isAlphanum

theorem parse_of_namesState {raw : String} (h : namesState raw = true) :
    ∃ q, (StateName.parse raw).toOption = some q ∧ q.text = Text.upper raw := by
  have hvalid : raw ≠ "" ∧ raw.toList.all Char.isAlphanum = true := by
    simpa [namesState] using h
  rw [StateName.parse, dif_pos hvalid]
  exact ⟨_, rfl, rfl⟩

theorem parse_of_not_namesState {raw : String} (h : namesState raw = false) :
    (StateName.parse raw).toOption = none := by
  have hinvalid : ¬ (raw ≠ "" ∧ raw.toList.all Char.isAlphanum = true) := by
    rintro ⟨hne, hall⟩
    simp [namesState, hne, hall] at h
  rw [StateName.parse, dif_neg hinvalid]
  rfl

end History

/-- Whether a text is one ASCII letter or digit that stands for a symbol, in any case. -/
def Symbol.SpelledBy (s : Symbol) (raw : String) : Prop :=
  ∃ c, raw.toList = [c] ∧ c.isAlphanum = true ∧ s.char = c.toUpper

/-- Whether a text is a name that stands for a state, in any case. -/
def StateName.SpelledBy (q : StateName) (raw : String) : Prop :=
  History.namesState raw = true ∧ q.text = Text.upper raw

theorem Symbol.parse_eq_ok_iff {raw : String} {s : Symbol} :
    parse raw = .ok s ↔ s.SpelledBy raw := by
  unfold parse SpelledBy
  split
  · next c hraw =>
    unfold ofChar
    constructor
    · intro h
      split at h
      · next hc =>
        cases h
        exact ⟨c, hraw, hc, rfl⟩
      · cases h
    · rintro ⟨d, hd, hvalid, hchar⟩
      cases hraw.symm.trans hd
      rw [dif_pos hvalid]
      cases s with
      | mk char canonical =>
        cases hchar
        rfl
  · next hraw =>
    constructor
    · intro h
      cases h
    · rintro ⟨c, hc, -⟩
      exact absurd hc (hraw c)

theorem StateName.parse_eq_ok_iff {raw : String} {q : StateName} :
    parse raw = .ok q ↔ q.SpelledBy raw := by
  unfold SpelledBy
  cases hraw : History.namesState raw with
  | true =>
    obtain ⟨r, hparse, htext⟩ := History.parse_of_namesState hraw
    rw [toOption_eq_some_iff.mp hparse, Except.ok.injEq, ← htext]
    constructor
    · rintro rfl
      exact ⟨rfl, rfl⟩
    · rintro ⟨-, hq⟩
      cases q with
      | mk text nonempty canonical =>
        cases hq
        rfl
  | false =>
    rw [← toOption_eq_some_iff, History.parse_of_not_namesState hraw]
    simp

/-- What an edit asks for, by the names that its texts spell. -/
inductive Edit.Asks : Edit → Change → Prop
  | symbol {raw : String} {s : Symbol} : s.SpelledBy raw → Asks (.addSymbol raw) (.symbol s)
  | state {raw : String} {q : StateName} : q.SpelledBy raw → Asks (.addState raw) (.state q)
  | initial {raw : String} {q : StateName} : q.SpelledBy raw → Asks (.setInitial raw) (.initial q)
  | current {raw : String} {q : StateName} : q.SpelledBy raw → Asks (.setCurrent raw) (.current q)
  | final {raw : String} {q : StateName} : q.SpelledBy raw → Asks (.addFinal raw) (.final q)
  | transition {symbol source target : String} {t : Transition} : t.symbol.SpelledBy symbol →
      t.source.SpelledBy source → t.target.SpelledBy target →
      Asks (.addTransition symbol source target) (.transition t)

theorem Edit.change?_eq_some_iff {e : Edit} {c : Change} : e.change? = some c ↔ e.Asks c := by
  constructor
  · intro h
    cases e with
    | addSymbol raw =>
      obtain ⟨s, hs, rfl⟩ := Option.map_eq_some_iff.mp h
      exact .symbol (Symbol.parse_eq_ok_iff.mp (toOption_eq_some_iff.mp hs))
    | addState raw | setInitial raw | setCurrent raw | addFinal raw =>
      obtain ⟨q, hq, rfl⟩ := Option.map_eq_some_iff.mp h
      constructor
      exact StateName.parse_eq_ok_iff.mp (toOption_eq_some_iff.mp hq)
    | addTransition symbol source target =>
      obtain ⟨s, hs, h⟩ := Option.bind_eq_some_iff.mp h
      obtain ⟨q, hq, h⟩ := Option.bind_eq_some_iff.mp h
      obtain ⟨r, hr, h⟩ := Option.bind_eq_some_iff.mp h
      cases h
      exact .transition (Symbol.parse_eq_ok_iff.mp (toOption_eq_some_iff.mp hs))
        (StateName.parse_eq_ok_iff.mp (toOption_eq_some_iff.mp hq))
        (StateName.parse_eq_ok_iff.mp (toOption_eq_some_iff.mp hr))
  · intro h
    cases h with
    | symbol h => rw [change?, Symbol.parse_eq_ok_iff.mpr h]; rfl
    | state h | initial h | current h | final h =>
      rw [change?, StateName.parse_eq_ok_iff.mpr h]; rfl
    | transition hs hq hr =>
      rw [change?, Symbol.parse_eq_ok_iff.mpr hs, StateName.parse_eq_ok_iff.mpr hq,
        StateName.parse_eq_ok_iff.mpr hr]
      rfl

namespace Machine

-- An edit is read as the change that it asks for, if the machine admits that.
theorem readChange_ok_iff {m : Machine} {e : Edit} {c : Change} :
    m.readChange e = .ok c ↔ e.change? = some c ∧ m.Admits c := by
  cases e with
  | addTransition symbol source target =>
    simp only [readChange, Edit.change?, map_eq_ok_iff, mapError_eq_ok_iff, readTransition_ok_iff,
      Option.bind_eq_bind, Option.bind_eq_some_iff, toOption_eq_some_iff, Option.pure_def,
      Option.some.injEq]
    constructor
    · rintro ⟨t, ⟨hs, hq, hr, hdeclared⟩, rfl⟩
      exact ⟨⟨_, hs, _, hq, _, hr, rfl⟩, hdeclared⟩
    · rintro ⟨⟨s, hs, q, hq, r, hr, rfl⟩, hdeclared⟩
      exact ⟨⟨s, q, r⟩, ⟨hs, hq, hr, hdeclared⟩, rfl⟩
  | _ =>
    -- The other edits name one thing, and such a change can always be made.
    simp only [readChange, readState, Edit.change?, map_eq_ok_iff, mapError_eq_ok_iff,
      Option.map_eq_some_iff, toOption_eq_some_iff]
    constructor
    · rintro ⟨a, ha, rfl⟩
      exact ⟨⟨a, ha, rfl⟩, trivial⟩
    · rintro ⟨h, -⟩
      exact h

theorem after_of_admits {m : Machine} {e : Edit} {c : Change} (hc : e.change? = some c)
    (h : m.Admits c) : m.after e = (m.change c).1 :=
  after_of_edit (edit_ok_iff.mpr ⟨c, readChange_ok_iff.mpr ⟨hc, h⟩, rfl⟩)

theorem after_of_not_admits {m : Machine} {e : Edit} (h : ∀ c, e.change? = some c → ¬ m.Admits c) :
    m.after e = m := by
  cases hedit : m.edit e with
  | error err => exact after_of_error hedit
  | ok r =>
    obtain ⟨c, hread, -⟩ := edit_ok_iff.mp hedit
    obtain ⟨hc, hadmits⟩ := readChange_ok_iff.mp hread
    exact absurd hadmits (h c hc)

/-! ## What a change does -/

variable {m : Machine} {q : StateName}

-- A symbol that is declared is in its place already.
theorem change_symbol (h : IsAscending id m.symbols) (s : Symbol) :
    (m.change (.symbol s)).1 = { m with symbols := put id s m.symbols } := by
  rw [change, hasSymbol]
  by_cases hs : s ∈ m.symbols
  · rw [if_pos (decide_eq_true hs), put_eq_self h hs]
  · rw [if_neg (by simpa using hs)]

theorem change_state (m : Machine) (q : StateName) :
    (m.change (.state q)).1 = (m.ensureState q).1 := by
  rw [change, ensureState]
  split
  · rfl
  · rfl

theorem change_final (h : IsAscending id (m.ensureState q).1.finals) :
    (m.change (.final q)).1 =
      { (m.ensureState q).1 with finals := put id q (m.ensureState q).1.finals } := by
  rw [change]
  by_cases hq : q ∈ (m.ensureState q).1.finals
  · have hfinal : (m.ensureState q).1.isFinal q = true := decide_eq_true hq
    simp only [hfinal, if_true]
    rw [put_eq_self h hq]
  · have hfinal : (m.ensureState q).1.isFinal q = false := decide_eq_false hq
    simp only [hfinal, Bool.false_eq_true, if_false]

-- Whether the key led elsewhere decides the notice only.
theorem change_transition (m : Machine) (t : Transition) :
    (m.change (.transition t)).1 =
      { m with transitions := put Transition.key t m.transitions } := by
  rw [change, setTransition]
  split
  · split
    · rfl
    · rfl
  · rfl

end Machine

/-! ## The description -/

namespace History

def symbols (cs : List Change) : List Symbol :=
  cs.filterMap Change.symbol?

/-- The states that changes take, in the order of the changes. -/
def states (cs : List Change) : List StateName :=
  cs.filterMap Change.state?

def finals (cs : List Change) : List StateName :=
  cs.filterMap Change.final?

def initials (cs : List Change) : List StateName :=
  cs.filterMap Change.initial?

def currents (cs : List Change) : List StateName :=
  cs.filterMap Change.current?

/-- Whether the names of a transition were given by changes. -/
def Names (cs : List Change) (t : Transition) : Prop :=
  t.symbol ∈ symbols cs ∧ t.source ∈ states cs ∧ t.target ∈ states cs

instance (cs : List Change) (t : Transition) : Decidable (Names cs t) :=
  inferInstanceAs (Decidable (_ ∧ _ ∧ _))

/-- The transition that a change enters, if its names were given by the changes before it. -/
def enters? (before : List Change) : Change → Option Transition
  | .transition t => if Names before t then some t else none
  | _ => none

/-- The transitions that changes enter, given the changes before them. -/
def enteredAfter (before : List Change) : List Change → List Transition
  | [] => []
  | c :: cs => (enters? before c).toList ++ enteredAfter (before ++ [c]) cs

def entered (cs : List Change) : List Transition :=
  enteredAfter [] cs

/-- The machine that changes of the empty machine lead to. -/
def machine (cs : List Change) : Machine where
  symbols := sorted (symbols cs)
  states := (states cs).eraseDups
  finals := sorted (finals cs)
  initial := (initials cs).getLast?.or (states cs).head?
  current := (currents cs).getLast?.or (states cs).head?
  transitions := putAll Transition.key (entered cs) []

/-! ## One change more -/

variable {cs : List Change} {q : StateName}

theorem enteredAfter_append (before cs ds : List Change) :
    enteredAfter before (cs ++ ds) =
      enteredAfter before cs ++ enteredAfter (before ++ cs) ds := by
  induction cs generalizing before with
  | nil => simp [enteredAfter]
  | cons c cs ih =>
    rw [List.cons_append, enteredAfter, enteredAfter, ih, List.append_assoc,
      List.append_assoc, List.singleton_append]

theorem entered_concat (cs : List Change) (c : Change) :
    entered (cs ++ [c]) = entered cs ++ (enters? cs c).toList := by
  simp [entered, enteredAfter_append, enteredAfter]

theorem initials_subset (cs : List Change) : ∀ q ∈ initials cs, q ∈ states cs := by
  intro q hq
  obtain ⟨c, hc, hinitial⟩ := List.mem_filterMap.mp hq
  cases c with
  | initial r => exact List.mem_filterMap.mpr ⟨_, hc, hinitial⟩
  | _ => cases hinitial

theorem currents_subset (cs : List Change) : ∀ q ∈ currents cs, q ∈ states cs := by
  intro q hq
  obtain ⟨c, hc, hcurrent⟩ := List.mem_filterMap.mp hq
  cases c with
  | initial r => exact List.mem_filterMap.mpr ⟨_, hc, hcurrent⟩
  | current r => exact List.mem_filterMap.mpr ⟨_, hc, hcurrent⟩
  | _ => cases hcurrent

theorem eraseDups_concat (l : List StateName) (a : StateName) :
    (l ++ [a]).eraseDups = if a ∈ l then l.eraseDups else l.eraseDups ++ [a] := by
  rw [List.eraseDups_append]
  by_cases ha : a ∈ l
  · simp [List.removeAll, ha]
  · simp [List.removeAll, ha, List.eraseDups_cons]

-- Declaring a state is all that its name adds to the names given before.
theorem ensureState_machine (cs : List Change) (q : StateName) :
    ((machine cs).ensureState q).1 =
      { machine cs with
        states := (states cs ++ [q]).eraseDups
        initial := (initials cs).getLast?.or (states cs ++ [q]).head?
        current := (currents cs).getLast?.or (states cs ++ [q]).head? } := by
  have hstates : ∀ r, r ∈ (machine cs).states ↔ r ∈ states cs := fun r => List.mem_eraseDups
  unfold Machine.ensureState Machine.hasState
  by_cases hq : q ∈ states cs
  · -- The name was given before, so it is not the first one and adds nothing.
    have hhead : (states cs ++ [q]).head? = (states cs).head? := by
      cases hcs : states cs with
      | nil => simp [hcs] at hq
      | cons r rest => rfl
    rw [if_pos (decide_eq_true ((hstates q).mpr hq)), eraseDups_concat, if_pos hq, hhead]
    rfl
  · rw [if_neg (by simpa using fun h => hq ((hstates q).mp h)), eraseDups_concat, if_neg hq]
    cases hcs : states cs with
    | nil =>
      -- No state is declared, so none can have been made initial or current.
      have hinitials : initials cs = [] := List.eq_nil_iff_forall_not_mem.mpr fun r hr => by
        simpa [hcs] using initials_subset cs r hr
      have hcurrents : currents cs = [] := List.eq_nil_iff_forall_not_mem.mpr fun r hr => by
        simpa [hcs] using currents_subset cs r hr
      simp [Machine.declare, machine, hcs, hinitials, hcurrents]
    | cons r rest =>
      obtain ⟨i, hi⟩ : ∃ i, (initials cs).getLast?.or (some r) = some i := by
        cases (initials cs).getLast? with
        | none => exact ⟨r, rfl⟩
        | some i => exact ⟨i, rfl⟩
      simp [Machine.declare, machine, hcs, hi]

theorem declares_machine (cs : List Change) (t : Transition) :
    (machine cs).Declares t ↔ Names cs t := by
  simp [Machine.Declares, Names, machine, mem_sorted_iff, List.mem_eraseDups]

theorem sorted_concat {α : Type} [Ord α] (l : List α) (a : α) :
    sorted (l ++ [a]) = put id a (sorted l) :=
  List.foldl_append

theorem machine_concat (cs : List Change) (c : Change) :
    machine (cs ++ [c]) = {
      symbols := sorted (symbols cs ++ c.symbol?.toList)
      states := (states cs ++ c.state?.toList).eraseDups
      finals := sorted (finals cs ++ c.final?.toList)
      initial := (initials cs ++ c.initial?.toList).getLast?.or (states cs ++ c.state?.toList).head?
      current := (currents cs ++ c.current?.toList).getLast?.or
        (states cs ++ c.state?.toList).head?
      transitions := putAll Transition.key (entered cs ++ (enters? cs c).toList) [] } := by
  have hone : ∀ {β : Type} (f : Change → Option β),
      (cs ++ [c]).filterMap f = cs.filterMap f ++ (f c).toList := by
    intro β f
    cases hc : f c with
    | none => simp [hc]
    | some b => simp [hc]
  simp only [machine, symbols, states, finals, initials, currents, hone, entered_concat]

theorem sorted_ascending {α : Type} [Ord α] [Std.TransOrd α] (l : List α) :
    IsAscending id (sorted l) :=
  isAscending_nil.putAll l

/-- A change that is made adds itself to the history. -/
theorem change_machine {c : Change} (h : (machine cs).Admits c) :
    ((machine cs).change c).1 = machine (cs ++ [c]) := by
  rw [machine_concat]
  cases c with
  | symbol s =>
    rw [Machine.change_symbol (sorted_ascending _)]
    simp [machine, Change.symbol?, Change.state?, Change.final?, Change.initial?,
      Change.current?, enters?, sorted_concat]
  | state q =>
    rw [Machine.change_state, ensureState_machine]
    simp [machine, Change.symbol?, Change.state?, Change.final?, Change.initial?,
      Change.current?, enters?]
  | initial q =>
    show { ((machine cs).ensureState q).1 with initial := some q, current := some q } = _
    rw [ensureState_machine]
    simp [machine, Change.symbol?, Change.state?, Change.final?, Change.initial?,
      Change.current?, enters?]
  | current q =>
    show { ((machine cs).ensureState q).1 with current := some q } = _
    rw [ensureState_machine]
    simp [machine, Change.symbol?, Change.state?, Change.final?, Change.initial?,
      Change.current?, enters?]
  | final q =>
    have hfinals : IsAscending id ((machine cs).ensureState q).1.finals := by
      rw [ensureState_machine]
      exact sorted_ascending _
    rw [Machine.change_final hfinals, ensureState_machine]
    simp [machine, Change.symbol?, Change.state?, Change.final?, Change.initial?,
      Change.current?, enters?, sorted_concat]
  | transition t =>
    have henters : enters? cs (.transition t) = some t := if_pos ((declares_machine cs t).mp h)
    have hput : putAll Transition.key (entered cs ++ [t]) [] =
        put Transition.key t (putAll Transition.key (entered cs) []) := List.foldl_append
    rw [Machine.change_transition, henters]
    simp [machine, Change.symbol?, Change.state?, Change.final?, Change.initial?,
      Change.current?, hput]

-- A transition that the machine does not admit is not entered.
theorem machine_of_not_admits {c : Change} (h : ¬ (machine cs).Admits c) :
    machine (cs ++ [c]) = machine cs := by
  rw [machine_concat]
  cases c with
  | transition t =>
    have henters : enters? cs (.transition t) = none :=
      if_neg (fun hnames => h ((declares_machine cs t).mpr hnames))
    rw [henters]
    simp [machine, Change.symbol?, Change.state?, Change.final?, Change.initial?, Change.current?]
  | _ => exact absurd trivial h

/-! ## All edits -/

/-- The changes that edits ask for, those left out whose texts are no names. -/
def changes (es : List Edit) : List Change :=
  es.filterMap Edit.change?

theorem after_machine (cs : List Change) (e : Edit) :
    (machine cs).after e = machine (cs ++ e.change?.toList) := by
  cases hchange : e.change? with
  | none =>
    rw [Machine.after_of_not_admits (fun c hc => by rw [hchange] at hc; cases hc)]
    simp
  | some c =>
    by_cases hadmits : (machine cs).Admits c
    · rw [Machine.after_of_admits hchange hadmits]
      exact change_machine hadmits
    · rw [Machine.after_of_not_admits (fun d hd => by
        rw [hchange] at hd; cases hd; exact hadmits)]
      exact (machine_of_not_admits hadmits).symm

theorem afterAll_machine (cs : List Change) (es : List Edit) :
    (machine cs).afterAll es = machine (cs ++ changes es) := by
  -- Each edit moves its change from the edits to come to the history so far.
  induction es generalizing cs with
  | nil => simp [Machine.afterAll, changes]
  | cons e es ih =>
    have hchanges : changes (e :: es) = e.change?.toList ++ changes es := by
      unfold changes
      cases hchange : e.change? with
      | none => simp [hchange]
      | some c => simp [hchange]
    show ((machine cs).after e).afterAll es = _
    rw [after_machine, ih, hchanges, List.append_assoc]

theorem target?_machine (cs : List Change) (s : Symbol) (q : StateName) :
    (machine cs).target? s q =
      ((entered cs).filter (fun t => t.key = ⟨q, s⟩)).getLast?.map Transition.target := by
  have hfind : (machine cs).transitions.find? (fun t => t.key = ⟨q, s⟩) =
      ((entered cs).filter (fun t => t.key = ⟨q, s⟩)).getLast? := by
    rw [machine, find?_putAll, List.find?_nil, Option.or_none]
  exact congrArg (Option.map Transition.target) hfind

theorem mem_symbols_iff {cs : List Change} {s : Symbol} : s ∈ symbols cs ↔ .symbol s ∈ cs := by
  have hread : ∀ c : Change, c.symbol? = some s ↔ c = .symbol s := by
    intro c
    cases c with
    | symbol r => simp [Change.symbol?]
    | _ => simp [Change.symbol?]
  rw [symbols, List.mem_filterMap]
  simp only [hread, exists_eq_right]

theorem mem_finals_iff {cs : List Change} {q : StateName} : q ∈ finals cs ↔ .final q ∈ cs := by
  have hread : ∀ c : Change, c.final? = some q ↔ c = .final q := by
    intro c
    cases c with
    | final r => simp [Change.final?]
    | _ => simp [Change.final?]
  rw [finals, List.mem_filterMap]
  simp only [hread, exists_eq_right]

theorem mem_symbols_machine (cs : List Change) (s : Symbol) :
    s ∈ (machine cs).symbols ↔ .symbol s ∈ cs :=
  mem_sorted_iff.trans mem_symbols_iff

theorem mem_finals_machine (cs : List Change) (q : StateName) :
    q ∈ (machine cs).finals ↔ .final q ∈ cs :=
  mem_sorted_iff.trans mem_finals_iff

/-! ## Edits and their changes -/

theorem symbol_mem_changes (es : List Edit) (s : Symbol) :
    .symbol s ∈ changes es ↔ ∃ raw, .addSymbol raw ∈ es ∧ Symbol.parse raw = .ok s := by
  have hread : ∀ e : Edit, e.change? = some (.symbol s) ↔
      ∃ raw, e = .addSymbol raw ∧ Symbol.parse raw = .ok s := by
    intro e
    cases e with
    | addSymbol raw => simp [Edit.change?, toOption_eq_some_iff]
    | _ => simp [Edit.change?, Option.bind_eq_some_iff]
  simp only [changes, List.mem_filterMap, hread]
  constructor
  · rintro ⟨e, he, raw, rfl, hparse⟩
    exact ⟨raw, he, hparse⟩
  · rintro ⟨raw, he, hparse⟩
    exact ⟨_, he, raw, rfl, hparse⟩

theorem final_mem_changes (es : List Edit) (q : StateName) :
    .final q ∈ changes es ↔ ∃ raw, .addFinal raw ∈ es ∧ StateName.parse raw = .ok q := by
  have hread : ∀ e : Edit, e.change? = some (.final q) ↔
      ∃ raw, e = .addFinal raw ∧ StateName.parse raw = .ok q := by
    intro e
    cases e with
    | addFinal raw => simp [Edit.change?, toOption_eq_some_iff]
    | _ => simp [Edit.change?, Option.bind_eq_some_iff]
  simp only [changes, List.mem_filterMap, hread]
  constructor
  · rintro ⟨e, he, raw, rfl, hparse⟩
    exact ⟨raw, he, hparse⟩
  · rintro ⟨raw, he, hparse⟩
    exact ⟨_, he, raw, rfl, hparse⟩

theorem state?_of_change? (e : Edit) :
    e.change?.bind Change.state? =
      e.stateText?.bind (fun raw => (StateName.parse raw).toOption) := by
  cases e with
  | addSymbol raw =>
    show ((Symbol.parse raw).toOption.map Change.symbol).bind Change.state? = none
    cases (Symbol.parse raw).toOption with
    | none => rfl
    | some s => rfl
  | addTransition symbol source target =>
    show (Edit.change? (.addTransition symbol source target)).bind Change.state? = none
    rw [Option.bind_eq_none_iff]
    intro c hc
    simp only [Edit.change?, Option.bind_eq_bind, Option.bind_eq_some_iff, Option.pure_def,
      Option.some.injEq] at hc
    obtain ⟨s, -, q, -, r, -, rfl⟩ := hc
    rfl
  -- The other four take a state, and the change takes the state that is read.
  | addState raw | setInitial raw | setCurrent raw | addFinal raw =>
    simp only [Edit.change?, Edit.stateText?, Option.bind_map, Option.bind_some]
    exact Option.bind_fun_some _

-- The states are named by the valid texts that are given for them, in upper case.
theorem states_text (es : List Edit) :
    (states (changes es)).map StateName.text =
      ((es.filterMap Edit.stateText?).filter namesState).map Text.upper := by
  have hread : states (changes es) =
      (es.filterMap Edit.stateText?).filterMap (fun raw => (StateName.parse raw).toOption) := by
    rw [states, changes, List.filterMap_filterMap, List.filterMap_filterMap]
    exact congrArg (fun f => es.filterMap f) (funext state?_of_change?)
  rw [hread]
  induction es.filterMap Edit.stateText? with
  | nil => rfl
  | cons raw texts ih =>
    cases hraw : namesState raw with
    | true =>
      obtain ⟨q, hparse, htext⟩ := parse_of_namesState hraw
      simp only [List.filterMap_cons, hparse, List.filter_cons, hraw, List.map_cons, ih, htext,
        if_true]
    | false =>
      have hparse := parse_of_not_namesState hraw
      simp only [List.filterMap_cons, hparse, List.filter_cons, hraw, ih, Bool.false_eq_true,
        if_false]

end History

/-- The machine that edits of the empty machine lead to is a function of their history. The names
that were given decide it: the states by their first mention, symbols and final states as sets, the
initial and the current state by the last name that was given for them, and where a key leads by the
last transition whose names had been given before. What a text names is said by the characters that
it has: one letter or digit names the symbol that it is in upper case, one or more of them a state,
and any other text nothing. A failed edit leaves no trace. -/
theorem Machine.afterAll_empty (es : List Edit) :
    empty.afterAll es = History.machine (History.changes es) ∧
    (∀ (e : Edit) (c : Change), e.change? = some c ↔ e.Asks c) ∧
    (History.states (History.changes es)).map StateName.text =
      ((es.filterMap Edit.stateText?).filter History.namesState).map Text.upper ∧
    (∀ s, s ∈ (empty.afterAll es).symbols ↔ ∃ raw, .addSymbol raw ∈ es ∧ s.SpelledBy raw) ∧
    (∀ q, q ∈ (empty.afterAll es).finals ↔ ∃ raw, .addFinal raw ∈ es ∧ q.SpelledBy raw) ∧
    (∀ s q, (empty.afterAll es).target? s q =
      ((History.entered (History.changes es)).filter (fun t => t.key = ⟨q, s⟩)).getLast?.map
        Transition.target) ∧
    ∀ before e after err, es = before ++ e :: after →
      (empty.afterAll before).edit e = .error err →
      empty.afterAll es = empty.afterAll (before ++ after) := by
  have hmachine : empty.afterAll es = History.machine (History.changes es) :=
    History.afterAll_machine [] es
  refine ⟨hmachine, fun _ _ => Edit.change?_eq_some_iff, History.states_text es, ?_, ?_, ?_, ?_⟩
  · intro s
    rw [hmachine, History.mem_symbols_machine, History.symbol_mem_changes]
    simp only [Symbol.parse_eq_ok_iff]
  · intro q
    rw [hmachine, History.mem_finals_machine, History.final_mem_changes]
    simp only [StateName.parse_eq_ok_iff]
  · rw [hmachine]
    exact History.target?_machine (History.changes es)
  · rintro before e after err rfl herr
    rw [afterAll_append, afterAll_append]
    show ((empty.afterAll before).after e).afterAll after = _
    rw [after_of_error herr]

/-- Edits in both cases, of which some have texts that name nothing, and of which the same
transition is refused at first, entered later, and then overwritten. -/
def muddled : List Edit :=
  [.addTransition "b" "p" "q", .addSymbol "b", .addSymbol "7", .addSymbol "bc", .addSymbol "-",
    .addSymbol "B", .setCurrent "q", .addFinal "p", .addFinal "p-", .addTransition "B" "p" "q",
    .addState "q", .setInitial "r1", .addTransition "b" "P" "R1"]

/-- The premise holds of the transition that is refused, and the names that the other edits give
decide the machine. A text of two characters names no symbol. -/
theorem Machine.afterAll_muddled :
    ((empty.afterAll muddled).symbols.map Symbol.char = ['7', 'B'] ∧
      (empty.afterAll muddled).states.map StateName.text = ["Q", "P", "R1"] ∧
      (empty.afterAll muddled).finals.map StateName.text = ["P"] ∧
      (empty.afterAll muddled).initial.map StateName.text = some "R1" ∧
      (empty.afterAll muddled).transitions.map toString = ["B P R1"]) ∧
    (∀ c, ¬ Edit.Asks (.addSymbol "bc") c) ∧
    empty.afterAll muddled = empty.afterAll muddled.tail := by
  obtain ⟨hmachine, hasks, -, -, -, -, hfailed⟩ := afterAll_empty muddled
  refine ⟨?_, fun c hc => ?_, hfailed [] _ _ _ rfl rfl⟩
  · rw [hmachine]
    decide +kernel
  · cases (hasks _ _).mpr hc

end Statewright
