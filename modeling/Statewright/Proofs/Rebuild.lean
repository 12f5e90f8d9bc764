import Statewright.Proofs.WellFormed

/-!
# Rebuilding a machine

A snapshot whose data is consistent is rebuilt by changes that give no notice, and the machine it
becomes can be said in one line. Symbols, final states and transitions may come in any order; the
captured snapshot of a machine has them in the order of the machine, and gives it back.
-/

open Statewright.Fallible Statewright.Ascending

namespace Statewright

namespace Machine

/-- Changes that are all made without a notice, one after the other. -/
inductive Quietly : Machine → List Change → Machine → Prop where
  | nil (m : Machine) : Quietly m [] m
  | cons {m next last : Machine} {c : Change} {cs : List Change} (admits : m.Admits c)
      (quiet : m.change c = (next, .done [])) (rest : Quietly next cs last) :
      Quietly m (c :: cs) last

namespace Quietly

variable {m next last : Machine} {cs ds : List Change}

theorem append (h : Quietly m cs next) (hrest : Quietly next ds last) :
    Quietly m (cs ++ ds) last := by
  induction h with
  | nil => exact hrest
  | cons admits quiet _ ih => exact cons admits quiet (ih hrest)

theorem single {c : Change} (admits : m.Admits c) (quiet : m.change c = (next, .done [])) :
    Quietly m [c] next :=
  cons admits quiet (nil next)

theorem editEach (h : Quietly m cs next) :
    ∃ applied, m.editEach (cs.map Change.written) = (next, .ok ⟨applied, []⟩) := by
  induction h with
  | nil m => exact ⟨false, rfl⟩
  | @cons m next last c cs admits quiet _ ih =>
    obtain ⟨applied, ih⟩ := ih
    have hedit := edit_written admits
    rw [quiet] at hedit
    refine ⟨true, ?_⟩
    rw [List.map_cons, Machine.editEach, hedit]
    dsimp only
    rw [ih]
    rfl

theorem editAll (h : Quietly m cs next) :
    ∃ applied, m.editAll (cs.map Change.written) = .ok (next, ⟨applied, []⟩) := by
  obtain ⟨applied, heach⟩ := h.editEach
  refine ⟨applied, ?_⟩
  unfold Machine.editAll
  rw [heach]

/-! ## The sections of a definition -/

theorem symbols {ss : List Symbol} (hnodup : ss.Nodup) (hnew : ∀ s ∈ ss, s ∉ m.symbols) :
    Quietly m (ss.map .symbol) { m with symbols := putAll id ss m.symbols } := by
  induction ss generalizing m with
  | nil => exact nil m
  | cons s ss ih =>
    obtain ⟨hs, hnodup⟩ := List.nodup_cons.mp hnodup
    have hquiet : m.change (.symbol s) =
        ({ m with symbols := put id s m.symbols }, .done []) := by
      have habsent : m.hasSymbol s = false := decide_eq_false (hnew s List.mem_cons_self)
      rw [change, habsent, if_neg Bool.false_ne_true]
    -- What is entered by now is not entered again, because the entries differ.
    have hrest : ∀ u ∈ ss, u ∉ put id s m.symbols := by
      intro u hu hmem
      rcases mem_put hmem with rfl | hmem
      · exact hs hu
      · exact hnew u (List.mem_cons_of_mem s hu) hmem
    exact cons trivial hquiet (ih (m := { m with symbols := put id s m.symbols }) hnodup hrest)

theorem states {qs : List StateName} (hnodup : qs.Nodup) (hnew : ∀ q ∈ qs, q ∉ m.states) :
    Quietly m (qs.map .state) (qs.foldl Machine.declare m) := by
  induction qs generalizing m with
  | nil => exact nil m
  | cons q qs ih =>
    obtain ⟨hq, hnodup⟩ := List.nodup_cons.mp hnodup
    have hquiet : m.change (.state q) = (m.declare q, .done []) := by
      have habsent : m.hasState q = false := decide_eq_false (hnew q List.mem_cons_self)
      rw [change, habsent, if_neg Bool.false_ne_true]
    have hrest : ∀ r ∈ qs, r ∉ (m.declare q).states := by
      intro r hr hmem
      rw [declare_states, List.mem_append, List.mem_singleton] at hmem
      rcases hmem with hmem | rfl
      · exact hnew r (List.mem_cons_of_mem q hr) hmem
      · exact hq hr
    exact cons trivial hquiet (ih hnodup hrest)

theorem initial {q : StateName} (hq : q ∈ m.states) :
    Quietly m [.initial q] { m with initial := some q, current := some q } := by
  refine single (c := .initial q) trivial ?_
  have hstate : m.hasState q = true := decide_eq_true hq
  rw [change, ensureState, hstate, if_pos rfl]

theorem current {q : StateName} (hq : q ∈ m.states) :
    Quietly m [.current q] { m with current := some q } := by
  refine single (c := .current q) trivial ?_
  have hstate : m.hasState q = true := decide_eq_true hq
  rw [change, ensureState, hstate, if_pos rfl]

theorem finals {qs : List StateName} (hnodup : qs.Nodup) (hnew : ∀ q ∈ qs, q ∉ m.finals)
    (hdeclared : ∀ q ∈ qs, q ∈ m.states) :
    Quietly m (qs.map .final) { m with finals := putAll id qs m.finals } := by
  induction qs generalizing m with
  | nil => exact nil m
  | cons q qs ih =>
    obtain ⟨hq, hnodup⟩ := List.nodup_cons.mp hnodup
    have hquiet : m.change (.final q) = ({ m with finals := put id q m.finals }, .done []) := by
      have hstate : m.hasState q = true := decide_eq_true (hdeclared q List.mem_cons_self)
      have habsent : m.isFinal q = false := decide_eq_false (hnew q List.mem_cons_self)
      rw [change, ensureState, hstate, if_pos rfl]
      dsimp only
      rw [habsent, if_neg Bool.false_ne_true]
    have hrest : ∀ r ∈ qs, r ∉ put id q m.finals := by
      intro r hr hmem
      rcases mem_put hmem with rfl | hmem
      · exact hq hr
      · exact hnew r (List.mem_cons_of_mem q hr) hmem
    exact cons trivial hquiet (ih (m := { m with finals := put id q m.finals }) hnodup hrest
      (fun r hr => hdeclared r (List.mem_cons_of_mem q hr)))

theorem target_eq_none {t : Transition} (hnew : t.key ∉ m.transitions.map Transition.key) :
    m.target? t.symbol t.source = none := by
  unfold target?
  rw [Option.map_eq_none_iff, List.find?_eq_none]
  intro u hu heq
  apply hnew
  rw [List.mem_map]
  exact ⟨u, hu, of_decide_eq_true heq⟩

theorem transitions {ts : List Transition} (hnodup : (ts.map Transition.key).Nodup)
    (hnew : ∀ t ∈ ts, t.key ∉ m.transitions.map Transition.key)
    (hdeclared : ∀ t ∈ ts, m.Declares t) :
    Quietly m (ts.map .transition)
      { m with transitions := putAll Transition.key ts m.transitions } := by
  induction ts generalizing m with
  | nil => exact nil m
  | cons t ts ih =>
    obtain ⟨ht, hnodup⟩ := List.nodup_cons.mp hnodup
    have hquiet : m.change (.transition t) =
        ({ m with transitions := put Transition.key t m.transitions }, .done []) := by
      rw [change, setTransition, target_eq_none (hnew t List.mem_cons_self)]
    -- Here the keys differ, which is more than that the transitions differ.
    have hrest : ∀ u ∈ ts, u.key ∉ (put Transition.key t m.transitions).map Transition.key := by
      intro u hu hmem
      obtain ⟨v, hv, hkey⟩ := List.mem_map.mp hmem
      rcases mem_put hv with rfl | hv
      · exact ht (hkey ▸ List.mem_map_of_mem hu)
      · exact hnew u (List.mem_cons_of_mem t hu) (hkey ▸ List.mem_map_of_mem hv)
    exact cons (hdeclared t List.mem_cons_self) hquiet
      (ih (m := { m with transitions := put Transition.key t m.transitions }) hnodup hrest
        (fun u hu => hdeclared u (List.mem_cons_of_mem t hu)))

end Quietly

theorem foldl_declare_of_initial {m : Machine} {i : StateName} (hi : m.initial = some i)
    (qs : List StateName) :
    qs.foldl declare m = { m with states := m.states ++ qs } := by
  induction qs generalizing m with
  | nil => rw [List.foldl_nil, List.append_nil]
  | cons q qs ih =>
    have hdeclare : m.declare q = { m with states := m.states ++ [q] } := by
      unfold declare
      rw [hi]
    rw [List.foldl_cons, hdeclare, ih (m := { m with states := m.states ++ [q] }) hi,
      List.append_assoc, List.singleton_append]

-- The first of the states that are declared becomes the initial and the current one.
theorem foldl_declare {m : Machine} (hinitial : m.initial = none) (hcurrent : m.current = none)
    (qs : List StateName) :
    qs.foldl declare m =
      { m with states := m.states ++ qs, initial := qs.head?, current := qs.head? } := by
  cases qs with
  | nil =>
    rw [List.foldl_nil, List.append_nil, List.head?_nil]
    cases m
    subst hinitial hcurrent
    rfl
  | cons q qs =>
    have hdeclare : m.declare q =
        { m with states := m.states ++ [q], initial := some q, current := some q } := by
      unfold declare
      rw [hinitial]
    rw [List.foldl_cons, hdeclare, foldl_declare_of_initial rfl, List.append_assoc,
      List.singleton_append, List.head?_cons]

end Machine

namespace Snapshot

/-- The data is a machine: nothing is listed twice, and what is mentioned is declared. -/
structure Consistent (c : Snapshot) : Prop where
  symbols_nodup : c.symbols.Nodup
  states_nodup : c.states.Nodup
  finals_nodup : c.finals.Nodup
  keys_nodup : (c.transitions.map Transition.key).Nodup
  states_declared : ∀ q ∈ c.mentionedStates, q ∈ c.states
  symbols_declared : ∀ t ∈ c.transitions, t.symbol ∈ c.symbols

theorem firstRepeated_eq_none_iff {α : Type} [DecidableEq α] {seen l : List α} :
    firstRepeated? seen l = none ↔ l.Nodup ∧ ∀ a ∈ l, a ∉ seen := by
  induction l generalizing seen with
  | nil => simp [firstRepeated?]
  | cons a l ih =>
    rw [firstRepeated?]
    by_cases ha : a ∈ seen
    · rw [if_pos ha]
      constructor
      · intro h
        cases h
      · rintro ⟨_, hseen⟩
        exact absurd ha (hseen a List.mem_cons_self)
    · rw [if_neg ha, ih, List.nodup_cons]
      constructor
      · rintro ⟨hnodup, hseen⟩
        have hmem : a ∉ l := fun hmem => hseen a hmem List.mem_cons_self
        refine ⟨⟨hmem, hnodup⟩, fun b hb => ?_⟩
        rcases List.mem_cons.mp hb with rfl | hb
        · exact ha
        · exact fun hmem => hseen b hb (List.mem_cons_of_mem a hmem)
      · rintro ⟨⟨hmem, hnodup⟩, hseen⟩
        refine ⟨hnodup, fun b hb hcons => ?_⟩
        rcases List.mem_cons.mp hcons with rfl | hcons
        · exact hmem hb
        · exact hseen b (List.mem_cons_of_mem a hb) hcons

theorem inconsistency_eq_none_iff {c : Snapshot} : c.inconsistency? = none ↔ c.Consistent := by
  simp only [inconsistency?, Option.orElse_eq_orElse, Option.orElse_eq_or, Option.or_eq_none_iff,
    Option.map_eq_none_iff, firstRepeated_eq_none_iff, List.find?_eq_none, decide_eq_true_eq,
    Classical.not_not, List.not_mem_nil, not_false_eq_true, implies_true, and_true, List.mem_map,
    forall_exists_index, and_imp, forall_apply_eq_imp_iff₂]
  constructor
  · rintro ⟨hsymbols, hstates, hfinals, hkeys, hmentioned, hread⟩
    exact ⟨hsymbols, hstates, hfinals, hkeys, hmentioned, hread⟩
  · rintro ⟨hsymbols, hstates, hfinals, hkeys, hmentioned, hread⟩
    exact ⟨hsymbols, hstates, hfinals, hkeys, hmentioned, hread⟩

/-- The machine that consistent data describes. A missing initial state is the first one, a missing
current state the initial one. -/
def machine (c : Snapshot) : Machine where
  symbols := sorted c.symbols
  states := c.states
  finals := sorted c.finals
  initial := c.initial.or c.states.head?
  current := c.current.or (c.initial.or c.states.head?)
  transitions := putAll Transition.key c.transitions []

/-- The changes that rebuild the machine from the empty one. -/
def changes (c : Snapshot) : List Change :=
  c.symbols.map .symbol ++ c.states.map .state ++ c.initial.toList.map .initial ++
    c.finals.map .final ++ c.transitions.map .transition ++ c.current.toList.map .current

theorem edits_eq (c : Snapshot) : c.edits = c.changes.map Change.written := by
  simp only [edits, changes, List.map_append, List.map_map]
  rfl

namespace Consistent

variable {c : Snapshot}

theorem initial_declared (h : c.Consistent) {q : StateName} (hq : c.initial = some q) :
    q ∈ c.states := by
  apply h.states_declared
  simp [mentionedStates, hq]

theorem current_declared (h : c.Consistent) {q : StateName} (hq : c.current = some q) :
    q ∈ c.states := by
  apply h.states_declared
  simp [mentionedStates, hq]

theorem final_declared (h : c.Consistent) {q : StateName} (hq : q ∈ c.finals) : q ∈ c.states := by
  apply h.states_declared
  simp [mentionedStates, hq]

theorem source_declared (h : c.Consistent) {t : Transition} (ht : t ∈ c.transitions) :
    t.source ∈ c.states := by
  apply h.states_declared
  simp only [mentionedStates, List.mem_append, List.mem_flatMap]
  exact Or.inr ⟨t, ht, List.mem_cons_self⟩

theorem target_declared (h : c.Consistent) {t : Transition} (ht : t ∈ c.transitions) :
    t.target ∈ c.states := by
  apply h.states_declared
  simp only [mentionedStates, List.mem_append, List.mem_flatMap]
  exact Or.inr ⟨t, ht, List.mem_cons_of_mem _ List.mem_cons_self⟩

/-- The changes of consistent data lead to its machine, and none of them gives a notice. -/
theorem quietly (h : c.Consistent) : Machine.empty.Quietly c.changes c.machine := by
  -- Each section is made on top of the machine that the sections before it lead to.
  have hsymbols : Machine.empty.Quietly (c.symbols.map .symbol)
      ⟨sorted c.symbols, [], [], none, none, []⟩ :=
    Machine.Quietly.symbols (m := .empty) h.symbols_nodup (fun _ _ => List.not_mem_nil)
  have hstates : Machine.Quietly ⟨sorted c.symbols, [], [], none, none, []⟩ (c.states.map .state)
      ⟨sorted c.symbols, c.states, [], c.states.head?, c.states.head?, []⟩ := by
    have hphase := Machine.Quietly.states (m := ⟨sorted c.symbols, [], [], none, none, []⟩)
      h.states_nodup (fun _ _ => List.not_mem_nil)
    rw [Machine.foldl_declare rfl rfl, List.nil_append] at hphase
    exact hphase
  have hinitial : Machine.Quietly
      ⟨sorted c.symbols, c.states, [], c.states.head?, c.states.head?, []⟩
      (c.initial.toList.map .initial)
      ⟨sorted c.symbols, c.states, [], c.initial.or c.states.head?, c.initial.or c.states.head?,
        []⟩ := by
    cases hi : c.initial with
    | none => exact Machine.Quietly.nil _
    | some q => exact Machine.Quietly.initial (h.initial_declared hi)
  have hfinals : Machine.Quietly
      ⟨sorted c.symbols, c.states, [], c.initial.or c.states.head?, c.initial.or c.states.head?, []⟩
      (c.finals.map .final)
      ⟨sorted c.symbols, c.states, sorted c.finals, c.initial.or c.states.head?,
        c.initial.or c.states.head?, []⟩ :=
    Machine.Quietly.finals (m := ⟨_, _, [], _, _, _⟩) h.finals_nodup
      (fun _ _ => List.not_mem_nil) (fun _ hq => h.final_declared hq)
  have htransitions : Machine.Quietly
      ⟨sorted c.symbols, c.states, sorted c.finals, c.initial.or c.states.head?,
        c.initial.or c.states.head?, []⟩
      (c.transitions.map .transition)
      ⟨sorted c.symbols, c.states, sorted c.finals, c.initial.or c.states.head?,
        c.initial.or c.states.head?, putAll Transition.key c.transitions []⟩ :=
    Machine.Quietly.transitions (m := ⟨sorted c.symbols, c.states, _, _, _, []⟩) h.keys_nodup
      (fun _ _ => List.not_mem_nil)
      (fun t ht => ⟨mem_sorted_iff.mpr (h.symbols_declared t ht), h.source_declared ht,
        h.target_declared ht⟩)
  have hcurrent : Machine.Quietly
      ⟨sorted c.symbols, c.states, sorted c.finals, c.initial.or c.states.head?,
        c.initial.or c.states.head?, putAll Transition.key c.transitions []⟩
      (c.current.toList.map .current) c.machine := by
    unfold machine
    cases hq : c.current with
    | none => exact Machine.Quietly.nil _
    | some q => exact Machine.Quietly.current (h.current_declared hq)
  exact ((((hsymbols.append hstates).append hinitial).append hfinals).append htransitions).append
    hcurrent

end Consistent

theorem restore_of_consistent {c : Snapshot} (hversion : c.version = supportedVersion)
    (h : c.Consistent) : c.restore = .ok c.machine := by
  obtain ⟨applied, hall⟩ := h.quietly.editAll
  rw [← edits_eq] at hall
  unfold restore
  rw [if_neg (fun hne => hne hversion), inconsistency_eq_none_iff.mpr h]
  dsimp only
  rw [hall]

/-! ## Captured snapshots -/

variable {m : Machine} (stamp : Stamp)

theorem capture_consistent (h : m.WellFormed) : (capture stamp m).Consistent where
  symbols_nodup := by
    have hkeys := h.symbols_ascending.nodup_keys
    rw [List.map_id] at hkeys
    exact hkeys
  states_nodup := h.states_nodup
  finals_nodup := by
    have hkeys := h.finals_ascending.nodup_keys
    rw [List.map_id] at hkeys
    exact hkeys
  keys_nodup := h.transitions_ascending.nodup_keys
  states_declared := by
    intro q hq
    simp only [mentionedStates, capture, List.mem_append, Option.mem_toList,
      List.mem_flatMap] at hq
    rcases hq with ((hinitial | hcurrent) | hfinal) | ⟨t, ht, hq⟩
    · exact h.initial_declared q hinitial
    · exact h.current_declared q hcurrent
    · exact h.finals_declared q hfinal
    · obtain ⟨-, hsource, htarget⟩ := h.transitions_declared t ht
      rcases List.mem_cons.mp hq with rfl | hq
      · exact hsource
      · rw [List.mem_singleton.mp hq]
        exact htarget
  symbols_declared := fun t ht => (h.transitions_declared t ht).1

theorem capture_machine (h : m.WellFormed) : (capture stamp m).machine = m := by
  -- A machine has an initial and a current state unless it has no state at all.
  have hinitial : m.initial.or m.states.head? = m.initial := by
    cases hi : m.initial with
    | none => rw [h.initial_none.mp hi, List.head?_nil, Option.or_none]
    | some q => rfl
  have hcurrent : m.current.or m.initial = m.current := by
    cases hq : m.current with
    | none => rw [h.initial_none.mpr (h.current_none.mp hq), Option.or_none]
    | some q => rfl
  unfold machine capture
  rw [hinitial, hcurrent, sorted_of_isAscending h.symbols_ascending,
    sorted_of_isAscending h.finals_ascending, putAll_nil_of_isAscending h.transitions_ascending]

-- Without a current state, the data leads to the same machine in its initial state.
theorem quietly_definition (stamp : Stamp) (h : m.WellFormed) :
    Machine.empty.Quietly
      (m.symbols.map .symbol ++ m.states.map .state ++ m.initial.toList.map .initial ++
        m.finals.map .final ++ m.transitions.map .transition)
      { m with current := m.initial } := by
  have hall := capture_consistent stamp h
  have hmachine : machine { capture stamp m with current := none } =
      { (capture stamp m).machine with current := (capture stamp m).machine.initial } := rfl
  have hconsistent : Consistent { capture stamp m with current := none } := by
    refine ⟨hall.symbols_nodup, hall.states_nodup, hall.finals_nodup, hall.keys_nodup, ?_,
      hall.symbols_declared⟩
    intro q hq
    -- Without the current state there is less to declare.
    apply hall.states_declared q
    simp only [mentionedStates, List.mem_append, Option.toList_none, List.not_mem_nil, or_false,
      capture] at hq ⊢
    rcases hq with (hq | hq) | hq
    · exact .inl (.inl (.inl hq))
    · exact .inl (.inr hq)
    · exact .inr hq
  have hquiet := hconsistent.quietly
  rw [hmachine, capture_machine stamp h] at hquiet
  unfold changes at hquiet
  rw [Option.toList_none, List.map_nil, List.append_nil] at hquiet
  exact hquiet

/-- A well-formed machine is restored from what was captured of it, in all its fields. -/
theorem restore_capture (h : m.WellFormed) : (capture stamp m).restore = .ok m := by
  rw [restore_of_consistent rfl (capture_consistent stamp h), capture_machine stamp h]

end Snapshot

end Statewright
