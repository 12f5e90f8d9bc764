import Statewright.Proofs.History

/-!
# What edits report

On a machine that operations lead to, an edit gives at most one notice, and what is declared by then
decides which. An edit counts as not applied exactly where its notice tells that what it asks for is
there already, and then it changes nothing. There is one more way to change nothing: to assign what
is assigned already. Such an edit counts as applied.
-/

open Statewright.Fallible Statewright.Ascending

namespace Statewright

/-- Whether a notice tells that what an edit asks for was there already. -/
def Notice.tellsRepeat : Notice → Bool
  | symbolDeclared _ | stateDeclared _ | alreadyFinal _ => true
  | stateAdded _ | overridden .. => false

namespace Machine

/-- When an edit is worth a notice, given the machine before and after it. -/
def Warrants (m edited : Machine) (e : Edit) : Notice → Prop
  | .symbolDeclared s => e.change? = some (.symbol s) ∧ s ∈ m.symbols
  | .stateDeclared q => e.change? = some (.state q) ∧ q ∈ m.states
  | .stateAdded q =>
    (e.change? = some (.initial q) ∨ e.change? = some (.current q) ∨
      e.change? = some (.final q)) ∧ q ∉ m.states
  | .alreadyFinal q => e.change? = some (.final q) ∧ q ∈ m.finals
  | .overridden s q previous next =>
    (∃ r, e.change? = some (.transition ⟨s, q, r⟩)) ∧ m.target? s q = some previous ∧
      edited.target? s q = some next ∧ previous ≠ next

/-- Whether a change declares what is declared already. -/
def IsDeclared (m : Machine) : Change → Prop
  | .symbol s => s ∈ m.symbols
  | .state q => q ∈ m.states
  | .final q => q ∈ m.finals
  | _ => False

/-- Whether a change assigns what is assigned already: the initial and current state, the current
state alone, or where a key leads. -/
def IsAssigned (m : Machine) : Change → Prop
  | .initial q => m.initial = some q ∧ m.current = some q
  | .current q => m.current = some q
  | .transition t => m.target? t.symbol t.source = some t.target
  | _ => False

def Reassigns (m : Machine) (e : Edit) : Prop :=
  ∃ c, e.change? = some c ∧ m.IsAssigned c

/-! ## The report on a change -/

/-- The notice on a change, if it is worth one. -/
def notice? (m : Machine) : Change → Option Notice
  | .symbol s => if s ∈ m.symbols then some (.symbolDeclared s) else none
  | .state q => if q ∈ m.states then some (.stateDeclared q) else none
  | .initial q | .current q => if q ∈ m.states then none else some (.stateAdded q)
  | .final q =>
    if q ∈ m.finals then some (.alreadyFinal q)
    else if q ∈ m.states then none
    else some (.stateAdded q)
  | .transition t =>
    match m.target? t.symbol t.source with
    | some previous =>
      if previous = t.target then none
      else some (.overridden t.symbol t.source previous t.target)
    | none => none

variable {m : Machine} {q : StateName}

theorem ensureState_of_mem (hq : q ∈ m.states) : m.ensureState q = (m, .done []) := by
  have hstate : m.hasState q = true := decide_eq_true hq
  rw [ensureState, hstate, if_pos rfl]

theorem ensureState_of_not_mem (hq : q ∉ m.states) :
    m.ensureState q = (m.declare q, .done [.stateAdded q]) := by
  have hstate : m.hasState q = false := decide_eq_false hq
  rw [ensureState, hstate, if_neg Bool.false_ne_true]

theorem change_final_of_not_mem (hfinal : q ∉ m.finals) :
    m.change (.final q) =
      ({ (m.ensureState q).1 with finals := put id q m.finals }, (m.ensureState q).2) := by
  have hfinals : (m.ensureState q).1.finals = m.finals := by
    unfold ensureState
    split
    · rfl
    · exact m.declare_finals q
  have hno : (m.ensureState q).1.isFinal q = false := by
    rw [isFinal, hfinals]
    exact decide_eq_false hfinal
  rw [change]
  dsimp only
  rw [hno, if_neg Bool.false_ne_true, hfinals]

-- A final state is declared, so a change that makes it final again declares nothing.
theorem change_final_of_mem (h : m.WellFormed) (hfinal : q ∈ m.finals) :
    m.change (.final q) = (m, .unchanged (.alreadyFinal q)) := by
  have hyes : m.isFinal q = true := decide_eq_true hfinal
  rw [change, ensureState_of_mem (h.finals_declared q hfinal)]
  dsimp only
  rw [hyes, if_pos rfl]
  rfl

/-- The notice decides the report on a change. -/
theorem change_report (h : m.WellFormed) (c : Change) :
    (m.change c).2 = ⟨!(m.notice? c).any Notice.tellsRepeat, (m.notice? c).toList⟩ := by
  cases c with
  | symbol s =>
    by_cases hs : s ∈ m.symbols
    · simp [change, notice?, hasSymbol, hs, Outcome.unchanged, Notice.tellsRepeat]
    · simp [change, notice?, hasSymbol, hs, Outcome.done]
  | state q =>
    by_cases hq : q ∈ m.states
    · simp [change, notice?, hasState, hq, Outcome.unchanged, Notice.tellsRepeat]
    · simp [change, notice?, hasState, hq, Outcome.done]
  | initial q | current q =>
    by_cases hq : q ∈ m.states
    · simp [change, notice?, ensureState_of_mem hq, hq, Outcome.done]
    · simp [change, notice?, ensureState_of_not_mem hq, hq, Outcome.done, Notice.tellsRepeat]
  | final q =>
    by_cases hfinal : q ∈ m.finals
    · simp [change_final_of_mem h hfinal, notice?, hfinal, Outcome.unchanged, Notice.tellsRepeat]
    · rw [change_final_of_not_mem hfinal, notice?, if_neg hfinal]
      by_cases hq : q ∈ m.states
      · simp [ensureState_of_mem hq, hq, Outcome.done]
      · simp [ensureState_of_not_mem hq, hq, Outcome.done, Notice.tellsRepeat]
  | transition t =>
    rw [change, notice?, setTransition]
    cases m.target? t.symbol t.source with
    | none => rfl
    | some previous =>
      by_cases hprevious : previous = t.target
      · simp [hprevious, Outcome.done]
      · simp [hprevious, Outcome.done, Notice.tellsRepeat]

theorem tellsRepeat_iff {c : Change} :
    (∃ n, m.notice? c = some n ∧ n.tellsRepeat = true) ↔ m.IsDeclared c := by
  rw [← Option.any_eq_true]
  cases c with
  | symbol s =>
    by_cases hs : s ∈ m.symbols
    · simp [notice?, IsDeclared, hs, Notice.tellsRepeat]
    · simp [notice?, IsDeclared, hs]
  | state q =>
    by_cases hq : q ∈ m.states
    · simp [notice?, IsDeclared, hq, Notice.tellsRepeat]
    · simp [notice?, IsDeclared, hq]
  | initial q | current q =>
    by_cases hq : q ∈ m.states
    · simp [notice?, IsDeclared, hq]
    · simp [notice?, IsDeclared, hq, Notice.tellsRepeat]
  | final q =>
    by_cases hfinal : q ∈ m.finals
    · simp [notice?, IsDeclared, hfinal, Notice.tellsRepeat]
    · by_cases hq : q ∈ m.states
      · simp [notice?, IsDeclared, hfinal, hq]
      · simp [notice?, IsDeclared, hfinal, hq, Notice.tellsRepeat]
  | transition t =>
    cases htarget : m.target? t.symbol t.source with
    | none => simp [notice?, IsDeclared, htarget]
    | some previous =>
      by_cases hprevious : previous = t.target
      · simp [notice?, IsDeclared, htarget, hprevious]
      · simp [notice?, IsDeclared, htarget, hprevious, Notice.tellsRepeat]

-- The state that a notice tells to be added is the last one of the states.
theorem states_of_stateAdded {c : Change} (hn : m.notice? c = some (.stateAdded q)) :
    (m.change c).1.states = m.states ++ [q] := by
  cases c with
  | initial r | current r =>
    simp only [notice?, Option.ite_none_left_eq_some, Option.some.injEq, Notice.stateAdded.injEq]
      at hn
    obtain ⟨hr, rfl⟩ := hn
    simp [change, ensureState_of_not_mem hr]
  | final r =>
    by_cases hfinal : r ∈ m.finals
    · simp [notice?, hfinal] at hn
    · simp only [notice?, if_neg hfinal, Option.ite_none_left_eq_some, Option.some.injEq,
        Notice.stateAdded.injEq] at hn
      obtain ⟨hr, rfl⟩ := hn
      simp [change_final_of_not_mem hfinal, ensureState_of_not_mem hr]
  | symbol s => simp [notice?] at hn
  | state r => simp [notice?] at hn
  | transition t =>
    unfold notice? at hn
    dsimp only at hn
    split at hn
    · simp at hn
    · cases hn

theorem target?_change_transition (m : Machine) (t : Transition) :
    (m.change (.transition t)).1.target? t.symbol t.source = some t.target := by
  have hfind : (put Transition.key t m.transitions).find? (fun u => u.key = ⟨t.source, t.symbol⟩) =
      some t := by
    rw [find?_put]
    exact if_pos rfl
  rw [change_transition, target?]
  dsimp only
  rw [hfind, Option.map_some]

theorem warrants_of_notice? {e : Edit} {c : Change} (hc : e.change? = some c) {n : Notice}
    (hn : m.notice? c = some n) : m.Warrants (m.change c).1 e n := by
  cases c with
  | symbol s =>
    simp only [notice?, Option.ite_none_right_eq_some, Option.some.injEq] at hn
    obtain ⟨hs, rfl⟩ := hn
    exact ⟨hc, hs⟩
  | state q =>
    simp only [notice?, Option.ite_none_right_eq_some, Option.some.injEq] at hn
    obtain ⟨hq, rfl⟩ := hn
    exact ⟨hc, hq⟩
  | initial q =>
    simp only [notice?, Option.ite_none_left_eq_some, Option.some.injEq] at hn
    obtain ⟨hq, rfl⟩ := hn
    exact ⟨.inl hc, hq⟩
  | current q =>
    simp only [notice?, Option.ite_none_left_eq_some, Option.some.injEq] at hn
    obtain ⟨hq, rfl⟩ := hn
    exact ⟨.inr (.inl hc), hq⟩
  | final q =>
    by_cases hfinal : q ∈ m.finals
    · simp only [notice?, if_pos hfinal, Option.some.injEq] at hn
      subst hn
      exact ⟨hc, hfinal⟩
    · simp only [notice?, if_neg hfinal, Option.ite_none_left_eq_some, Option.some.injEq] at hn
      obtain ⟨hq, rfl⟩ := hn
      exact ⟨.inr (.inr hc), hq⟩
  | transition t =>
    unfold notice? at hn
    dsimp only at hn
    split at hn
    · next previous hprevious =>
      simp only [Option.ite_none_left_eq_some, Option.some.injEq] at hn
      obtain ⟨hne, rfl⟩ := hn
      exact ⟨⟨t.target, hc⟩, hprevious, m.target?_change_transition t, hne⟩
    · cases hn

theorem notice?_of_warrants (h : m.WellFormed) {e : Edit} {c : Change} (hc : e.change? = some c)
    {n : Notice} (hn : m.Warrants (m.change c).1 e n) : m.notice? c = some n := by
  -- What the notice is about tells which change the edit asks for.
  have hasks : ∀ {d : Change}, e.change? = some d → c = d :=
    fun hd => Option.some.inj (hc.symm.trans hd)
  cases n with
  | symbolDeclared s =>
    obtain ⟨hd, hs⟩ := hn
    rw [hasks hd, notice?, if_pos hs]
  | stateDeclared q =>
    obtain ⟨hd, hq⟩ := hn
    rw [hasks hd, notice?, if_pos hq]
  | stateAdded q =>
    obtain ⟨hd, hq⟩ := hn
    have hfinal : q ∉ m.finals := fun hfinal => hq (h.finals_declared q hfinal)
    rcases hd with hd | hd | hd
    · rw [hasks hd, notice?, if_neg hq]
    · rw [hasks hd, notice?, if_neg hq]
    · rw [hasks hd, notice?, if_neg hfinal, if_neg hq]
  | alreadyFinal q =>
    obtain ⟨hd, hfinal⟩ := hn
    rw [hasks hd, notice?, if_pos hfinal]
  | overridden s q previous next =>
    obtain ⟨⟨r, hd⟩, hprevious, hnext, hne⟩ := hn
    obtain rfl := hasks hd
    have hr : r = next := Option.some.inj ((m.target?_change_transition ⟨s, q, r⟩).symm.trans hnext)
    rw [notice?]
    dsimp only
    rw [hprevious, hr]
    exact if_neg hne

/-! ## Changes that do nothing -/

theorem mem_of_target? {t : Transition} (h : m.target? t.symbol t.source = some t.target) :
    t ∈ m.transitions := by
  obtain ⟨u, hfind, htarget⟩ := Option.map_eq_some_iff.mp h
  have hkey : u.key = ⟨t.source, t.symbol⟩ := by simpa using List.find?_some hfind
  have hu : u = t := by
    cases u
    cases t
    cases hkey
    cases htarget
    rfl
  exact hu ▸ List.mem_of_find?_eq_some hfind

theorem change_of_isDeclared (h : m.WellFormed) {c : Change} (hc : m.IsDeclared c) :
    (m.change c).1 = m := by
  cases c with
  | symbol s => rw [change_symbol h.symbols_ascending, put_eq_self h.symbols_ascending hc]
  | state q => rw [change_state, ensureState_of_mem hc]
  | final q => rw [change_final_of_mem h hc]
  | initial q | current q | transition t => exact hc.elim

theorem change_of_isAssigned (h : m.WellFormed) {c : Change} (hc : m.IsAssigned c) :
    (m.change c).1 = m := by
  cases c with
  | initial q =>
    obtain ⟨hinitial, hcurrent⟩ := hc
    rw [change, ensureState_of_mem (h.initial_declared q hinitial)]
    cases m
    cases hinitial
    cases hcurrent
    rfl
  | current q =>
    have hcurrent : m.current = some q := hc
    rw [change, ensureState_of_mem (h.current_declared q hcurrent), ← hcurrent]
  | transition t =>
    rw [change_transition, put_eq_self h.transitions_ascending (mem_of_target? hc)]
  | symbol s | state q | final q => exact hc.elim

/-- A change does nothing where what it asks for is so already. -/
theorem change_eq_self_iff (h : m.WellFormed) {c : Change} :
    (m.change c).1 = m ↔ m.IsDeclared c ∨ m.IsAssigned c := by
  constructor
  · -- What a change asks for is so after it: if the change does nothing, it was so before.
    intro hsame
    cases c with
    | symbol s =>
      left
      have hsymbols : put id s m.symbols = m.symbols :=
        congrArg Machine.symbols ((change_symbol h.symbols_ascending s).symm.trans hsame)
      have hs : s ∈ put id s m.symbols := mem_put_self
      rwa [hsymbols] at hs
    | state q =>
      left
      have hq := (h.ensureState q).2
      rw [change_state] at hsame
      rwa [hsame] at hq
    | final q =>
      left
      by_cases hfinal : q ∈ m.finals
      · exact hfinal
      · have hfinals : put id q m.finals = m.finals := by
          rw [change_final_of_not_mem hfinal] at hsame
          exact congrArg Machine.finals hsame
        have hq : q ∈ put id q m.finals := mem_put_self
        rwa [hfinals] at hq
    | initial q =>
      right
      exact ⟨congrArg Machine.initial hsame.symm, congrArg Machine.current hsame.symm⟩
    | current q =>
      right
      exact congrArg Machine.current hsame.symm
    | transition t =>
      right
      have htarget := m.target?_change_transition t
      rwa [hsame] at htarget
  · rintro (hc | hc)
    · exact change_of_isDeclared h hc
    · exact change_of_isAssigned h hc

theorem applied_eq_false_iff (h : m.WellFormed) {c : Change} :
    (m.change c).2.applied = false ↔ (m.change c).1 = m ∧ ¬ m.IsAssigned c := by
  have hdisjoint : m.IsDeclared c → ¬ m.IsAssigned c := by
    intro hdeclared hassigned
    cases c with
    | symbol s | state q | final q => exact hassigned
    | initial q | current q | transition t => exact hdeclared
  rw [change_report h, Bool.not_eq_false', Option.any_eq_true, tellsRepeat_iff,
    change_eq_self_iff h]
  constructor
  · intro hdeclared
    exact ⟨.inl hdeclared, hdisjoint hdeclared⟩
  · rintro ⟨hdeclared | hassigned, hno⟩
    · exact hdeclared
    · exact absurd hassigned hno

/-! ## The report on an edit -/

-- An edit that succeeds is the change that it asks for.
theorem exists_change_of_edit {e : Edit} {edited : Machine} {outcome : Outcome}
    (hedit : m.edit e = .ok (edited, outcome)) :
    ∃ c, e.change? = some c ∧ edited = (m.change c).1 ∧ outcome = (m.change c).2 := by
  obtain ⟨c, hread, hchange⟩ := edit_ok_iff.mp hedit
  obtain ⟨hc, -⟩ := readChange_ok_iff.mp hread
  exact ⟨c, hc, congrArg Prod.fst hchange.symm, congrArg Prod.snd hchange.symm⟩

/-- An edit that fails leaves the machine as it is. One that succeeds gives at most one notice: that
a symbol or a state was declared already, that the state it names was not and now stands last, that
a state was final already, or that a key led elsewhere before. After an edit that was told to be a
repeat the machine is as it was. -/
theorem edit_notices (h : m.Reachable) (e : Edit) :
    (∀ err, m.edit e = .error err → m.after e = m) ∧
    ∀ edited outcome, m.edit e = .ok (edited, outcome) →
      outcome.notices.length ≤ 1 ∧
      (∀ n, outcome.notices = [n] ↔ m.Warrants edited e n) ∧
      (∀ q, outcome.notices = [.stateAdded q] → edited.states = m.states ++ [q]) ∧
      ∀ n, outcome.notices = [n] → n.tellsRepeat = true → edited = m := by
  constructor
  · intro err herr
    exact after_of_error herr
  · intro edited outcome hedit
    obtain ⟨c, hc, rfl, rfl⟩ := exists_change_of_edit hedit
    have hnotices : (m.change c).2.notices = (m.notice? c).toList := by
      rw [change_report h.wellFormed]
    have hone : ∀ n, (m.change c).2.notices = [n] ↔ m.notice? c = some n := by
      intro n
      rw [hnotices, Option.toList_eq_singleton_iff]
    refine ⟨?_, ?_, ?_, ?_⟩
    · rw [hnotices]
      exact Option.length_toList_le
    · intro n
      rw [hone]
      exact ⟨warrants_of_notice? hc, notice?_of_warrants h.wellFormed hc⟩
    · intro q hq
      exact states_of_stateAdded ((hone _).mp hq)
    · intro n hn hrepeat
      exact change_of_isDeclared h.wellFormed (tellsRepeat_iff.mp ⟨n, (hone n).mp hn, hrepeat⟩)

theorem reachable_afterAll (es : List Edit) : (empty.afterAll es).Reachable := by
  refine ⟨es.map .edit, ?_⟩
  rw [operateAll, List.foldl_map]
  rfl

theorem exists_notice {α : Type} {f : Notice → α} {e : Edit} {a : α}
    (h : (m.edit e).toOption.map (fun r => r.2.notices.map f) = some [a]) :
    ∃ edited outcome n, m.edit e = .ok (edited, outcome) ∧ outcome.notices = [n] ∧ f n = a := by
  obtain ⟨⟨edited, outcome⟩, hedit, hmap⟩ := Option.map_eq_some_iff.mp h
  obtain ⟨n, hn, rfl⟩ := List.map_eq_singleton_iff.mp hmap
  exact ⟨edited, outcome, n, toOption_eq_some_iff.mp hedit, hn, rfl⟩

/-- Edits of which the same transition is refused at first, entered later, and then overwritten. -/
def tangled : List Edit :=
  [.addTransition "a" "p" "q", .addSymbol "a", .setCurrent "q", .addFinal "p",
    .addTransition "A" "p" "q", .addState "q", .setInitial "r", .addTransition "a" "P" "r"]

/-- The premises hold of edits of one machine: one that fails, one that leads a key elsewhere, and
one that is told to be a repeat. -/
theorem edit_notices_tangled :
    (empty.afterAll tangled).after (.addFinal "?") = empty.afterAll tangled ∧
    (∃ edited outcome n,
      (empty.afterAll tangled).edit (.addTransition "a" "p" "q") = .ok (edited, outcome) ∧
      outcome.notices = [n] ∧ n.message = "Warning: transition <A,P> overridden (R -> Q)" ∧
      (empty.afterAll tangled).Warrants edited (.addTransition "a" "p" "q") n) ∧
    ∃ edited outcome n,
      (empty.afterAll tangled).edit (.addFinal "P") = .ok (edited, outcome) ∧
      outcome.notices = [n] ∧ n.message = "Warning: P was already a final state" ∧
      edited = empty.afterAll tangled := by
  have hnotices := edit_notices (reachable_afterAll tangled)
  refine ⟨(hnotices (.addFinal "?")).1 _ rfl, ?_, ?_⟩
  · obtain ⟨edited, outcome, n, hedit, hn, hmessage⟩ :=
      exists_notice (m := empty.afterAll tangled) (f := Notice.message)
        (e := .addTransition "a" "p" "q")
        (a := "Warning: transition <A,P> overridden (R -> Q)") (by decide +kernel)
    obtain ⟨-, hwarrants, -, -⟩ := (hnotices _).2 edited outcome hedit
    exact ⟨edited, outcome, n, hedit, hn, hmessage, (hwarrants n).mp hn⟩
  · obtain ⟨edited, outcome, n, hedit, hn, htold⟩ :=
      exists_notice (m := empty.afterAll tangled) (f := fun n => (n.message, n.tellsRepeat))
        (e := .addFinal "P") (a := ("Warning: P was already a final state", true))
        (by decide +kernel)
    obtain ⟨hmessage, hrepeat⟩ := Prod.mk.inj htold
    obtain ⟨-, -, -, hsame⟩ := (hnotices _).2 edited outcome hedit
    exact ⟨edited, outcome, n, hedit, hn, hmessage, hsame n hn hrepeat⟩

theorem reassigns_iff {e : Edit} {c : Change} (hc : e.change? = some c) :
    m.Reassigns e ↔ m.IsAssigned c := by
  constructor
  · rintro ⟨d, hd, hassigned⟩
    rwa [Option.some.inj (hc.symm.trans hd)]
  · exact fun hassigned => ⟨c, hc, hassigned⟩

theorem edit_applied (h : m.WellFormed) {e : Edit} {edited : Machine} {outcome : Outcome}
    (hedit : m.edit e = .ok (edited, outcome)) :
    (outcome.applied = false ↔ edited = m ∧ ¬ m.Reassigns e) ∧ (m.Reassigns e → edited = m) := by
  obtain ⟨c, hc, rfl, rfl⟩ := exists_change_of_edit hedit
  rw [reassigns_iff hc]
  exact ⟨applied_eq_false_iff h, change_of_isAssigned h⟩

-- What holds wherever a list is cut before an entry holds before its first entry and behind it.
theorem forall_cut_cons {α : Type} {P : List α → α → Prop} {a : α} {l : List α} :
    (∀ front x back, a :: l = front ++ x :: back → P front x) ↔
      P [] a ∧ ∀ front x back, l = front ++ x :: back → P (a :: front) x := by
  constructor
  · intro h
    refine ⟨h [] a l rfl, ?_⟩
    rintro front x back rfl
    exact h (a :: front) x back rfl
  · rintro ⟨hfirst, hrest⟩ front x back heq
    cases front with
    | nil =>
      cases heq
      exact hfirst
    | cons b front =>
      cases heq
      exact hrest front x back rfl

-- Edits that all succeed are a first one that succeeds and others that do so behind it.
theorem editEach_cons_ok {e : Edit} {es : List Edit} {last : Machine} {outcome : Outcome}
    (h : m.editEach (e :: es) = (last, .ok outcome)) :
    ∃ edited first rest, m.edit e = .ok (edited, first) ∧
      edited.editEach es = (last, .ok rest) ∧ outcome = first.merge rest := by
  rw [editEach] at h
  cases hedit : m.edit e with
  | error err =>
    rw [hedit] at h
    cases h
  | ok r =>
    obtain ⟨edited, first⟩ := r
    rw [hedit] at h
    dsimp only at h
    cases heach : edited.editEach es with
    | mk last' result =>
      rw [heach] at h
      cases result with
      | error err => cases h
      | ok rest =>
        cases h
        exact ⟨edited, first, rest, rfl, heach, rfl⟩

theorem editEach_applied (h : m.WellFormed) {es : List Edit} {last : Machine} {outcome : Outcome}
    (hes : m.editEach es = (last, .ok outcome)) :
    outcome.applied = false ↔ ∀ front e back, es = front ++ e :: back →
      (m.afterAll front).after e = m.afterAll front ∧ ¬ (m.afterAll front).Reassigns e := by
  -- The induction is on the edits to come; the edits before an edit are counted from its start.
  induction es generalizing m last outcome with
  | nil =>
    cases hes
    simp [Outcome.nothing]
  | cons e es ih =>
    obtain ⟨edited, first, rest, hedit, hrest, rfl⟩ := editEach_cons_ok hes
    have hafter : m.after e = edited := after_of_edit hedit
    have hfirst := (edit_applied h hedit).1
    have hwell : edited.WellFormed := hafter ▸ h.after e
    rw [forall_cut_cons, Outcome.merge, Bool.or_eq_false_iff, hfirst, ih hwell hrest]
    simp only [afterAll, List.foldl_nil, List.foldl_cons, hafter]

/-- What edits report, performed one after the other until one fails. -/
def outcomes (m : Machine) : List Edit → Except EditError (List Outcome)
  | [] => .ok []
  | e :: es =>
    match m.edit e with
    | .error err => .error err
    | .ok (edited, first) => (edited.outcomes es).map (first :: ·)

theorem foldl_merge (os : List Outcome) (o : Outcome) :
    os.foldl Outcome.merge o = o.merge (os.foldl Outcome.merge .nothing) := by
  have hassoc : ∀ a b c : Outcome, (a.merge b).merge c = a.merge (b.merge c) := fun a b c => by
    simp only [Outcome.merge, Bool.or_assoc, List.append_assoc]
  have hright : ∀ a : Outcome, a.merge .nothing = a := fun a => by
    simp [Outcome.merge, Outcome.nothing]
  have hleft : ∀ a : Outcome, Outcome.nothing.merge a = a := fun a => by
    simp [Outcome.merge, Outcome.nothing]
  induction os generalizing o with
  | nil => exact (hright o).symm
  | cons first os ih =>
    rw [List.foldl_cons, List.foldl_cons, ih (o.merge first), hassoc, hleft, ih first]

/-- The outcome of several edits is that of all of them, merged from the first on. -/
theorem editEach_outcomes (m : Machine) (es : List Edit) :
    (m.editEach es).2 = (m.outcomes es).map (·.foldl Outcome.merge .nothing) := by
  induction es generalizing m with
  | nil => rfl
  | cons e es ih =>
    rw [editEach, outcomes]
    cases m.edit e with
    | error err => rfl
    | ok r =>
      dsimp only
      rw [ih r.1]
      cases r.1.outcomes es with
      | error err => rfl
      | ok os => exact congrArg Except.ok (foldl_merge os r.2).symm

/-- An edit counts as not applied exactly where it leaves the machine as it was and does not assign
what is assigned already: such an edit leaves the machine as it was as well, and counts as applied.
Edits that are performed one after the other, with their outcomes merged, count as not applied
exactly where this holds of each of them. -/
theorem edit_applied_iff (h : m.Reachable) :
    (∀ e edited outcome, m.edit e = .ok (edited, outcome) →
      (outcome.applied = false ↔ edited = m ∧ ¬ m.Reassigns e) ∧
      (m.Reassigns e → edited = m)) ∧
    ∀ es os, m.outcomes es = .ok os →
      ((os.foldl Outcome.merge .nothing).applied = false ↔ ∀ front e back, es = front ++ e :: back →
        (m.afterAll front).after e = m.afterAll front ∧ ¬ (m.afterAll front).Reassigns e) := by
  constructor
  · intro e edited outcome hedit
    exact edit_applied h.wellFormed hedit
  · intro es os hos
    have heach : (m.editEach es).2 = .ok (os.foldl Outcome.merge .nothing) := by
      rw [editEach_outcomes, hos]
      rfl
    exact editEach_applied h.wellFormed (Prod.ext rfl heach)

/-- The premises hold of edits that are all told to be repeats, and of one that reassigns: nothing
is changed by any of them, and the last one counts as applied. -/
theorem edit_applied_iff_tangled :
    (∃ os, (empty.afterAll tangled).outcomes [.addFinal "p", .addSymbol "A"] = .ok os ∧
      (os.foldl Outcome.merge .nothing).applied = false ∧
      (empty.afterAll tangled).after (.addFinal "p") = empty.afterAll tangled) ∧
    ∃ edited outcome,
      (empty.afterAll tangled).edit (.setInitial "r") = .ok (edited, outcome) ∧
      outcome.applied = true ∧ (empty.afterAll tangled).Reassigns (.setInitial "r") ∧
      edited = empty.afterAll tangled := by
  obtain ⟨hedits, hlists⟩ := edit_applied_iff (reachable_afterAll tangled)
  constructor
  · obtain ⟨os, hos, happlied⟩ : ∃ os,
        (empty.afterAll tangled).outcomes [.addFinal "p", .addSymbol "A"] = .ok os ∧
        (os.foldl Outcome.merge .nothing).applied = false := ⟨_, rfl, rfl⟩
    obtain ⟨hsame, -⟩ := (hlists _ os hos).mp happlied [] _ _ rfl
    exact ⟨os, hos, happlied, hsame⟩
  · obtain ⟨edited, outcome, hedit, happlied, hre⟩ : ∃ edited outcome,
        (empty.afterAll tangled).edit (.setInitial "r") = .ok (edited, outcome) ∧
        outcome.applied = true ∧ (empty.afterAll tangled).Reassigns (.setInitial "r") :=
      ⟨_, _, rfl, rfl, _, rfl, rfl, rfl⟩
    exact ⟨edited, outcome, hedit, happlied, hre, (hedits _ edited outcome hedit).2 hre⟩

end Machine

end Statewright
