import Mathlib.Data.List.Sort
import Statewright.Proofs.Outcomes
import Statewright.Proofs.Printed

/-!
# The order of edits

Edits that touch no state enter symbols, final states and transitions into lists in ascending order.
What such a list holds does not tell in which order its entries came, if no two of them compete for
a key. So these edits can be performed in any order in which they succeed, and lead to one machine.
-/

open Statewright.Fallible Statewright.Ascending

namespace Statewright

/-! ## Lists in ascending order -/

namespace Ascending

variable {α κ : Type} [Ord κ] [Std.TransOrd κ] {key : α → κ} {l : List α}

-- An ascending list is determined by its entries.
theorem IsAscending.eq_of_mem_iff {l' : List α} (h : IsAscending key l) (h' : IsAscending key l')
    (hmem : ∀ a, a ∈ l ↔ a ∈ l') : l = l' := by
  have hirrefl : Std.Irrefl (fun a b => compare (key a) (key b) = .lt) := by
    refine ⟨fun a hlt => ?_⟩
    rw [Std.ReflOrd.compare_self] at hlt
    cases hlt
  have hantisymm : Std.Antisymm (fun a b => compare (key a) (key b) = .lt) :=
    ⟨fun a b hab hba => absurd hba (Std.OrientedCmp.not_lt_of_lt hab)⟩
  exact List.Pairwise.eq_of_mem_iff h h' hmem

variable [Std.LawfulEqOrd κ]

theorem mem_put_iff (h : IsAscending key l) {a b : α} :
    b ∈ put key a l ↔ b = a ∨ (b ∈ l ∧ key a ≠ key b) := by
  constructor
  · intro hb
    by_cases hkey : key a = key b
    · -- Only one entry has the key, and the one that is put does.
      left
      exact List.inj_on_of_nodup_map (h.put a).nodup_keys hb mem_put_self hkey.symm
    · exact (mem_put hb).imp id (fun hb => ⟨hb, hkey⟩)
  · rintro (rfl | ⟨hb, hkey⟩)
    · exact mem_put_self
    · exact mem_put_of_mem hb hkey

/-- Entries that do not compete for a key are all there after they were put, beside those that were
there before and have other keys. -/
theorem mem_putAll_iff {entries : List α} (h : IsAscending key l)
    (hagree : ∀ a ∈ entries, ∀ b ∈ entries, key a = key b → a = b) {a : α} :
    a ∈ putAll key entries l ↔ a ∈ entries ∨ (a ∈ l ∧ ∀ b ∈ entries, key b ≠ key a) := by
  induction entries generalizing l with
  | nil =>
    show a ∈ l ↔ _
    simp
  | cons c entries ih =>
    have hrest : ∀ a ∈ entries, ∀ b ∈ entries, key a = key b → a = b := fun a ha b hb =>
      hagree a (List.mem_cons_of_mem c ha) b (List.mem_cons_of_mem c hb)
    have hfirst : ∀ b ∈ entries, key b = key c → c ∈ entries := fun b hb hkey =>
      hagree b (List.mem_cons_of_mem c hb) c List.mem_cons_self hkey ▸ hb
    rw [putAll, List.foldl_cons, ← putAll, ih (h.put c) hrest, mem_put_iff h, List.forall_mem_cons,
      List.mem_cons]
    constructor
    · rintro (ha | ⟨rfl | ⟨ha, hc⟩, hothers⟩)
      · exact .inl (.inr ha)
      · exact .inl (.inl rfl)
      · exact .inr ⟨ha, hc, hothers⟩
    · rintro ((rfl | ha) | ⟨ha, hc, hothers⟩)
      · by_cases hmem : a ∈ entries
        · exact .inl hmem
        · exact .inr ⟨.inl rfl, fun b hb hkey => hmem (hfirst b hb hkey)⟩
      · exact .inl ha
      · exact .inr ⟨.inr ⟨ha, hc⟩, hothers⟩

theorem putAll_eq_of_perm {entries entries' : List α} (h : IsAscending key l)
    (hperm : entries.Perm entries')
    (hagree : ∀ a ∈ entries, ∀ b ∈ entries, key a = key b → a = b) :
    putAll key entries l = putAll key entries' l := by
  have hagree' : ∀ a ∈ entries', ∀ b ∈ entries', key a = key b → a = b := fun a ha b hb =>
    hagree a (hperm.mem_iff.mpr ha) b (hperm.mem_iff.mpr hb)
  apply (h.putAll entries).eq_of_mem_iff (h.putAll entries')
  intro a
  rw [mem_putAll_iff h hagree, mem_putAll_iff h hagree']
  simp only [hperm.mem_iff]

end Ascending

/-! ## Edits that touch no state -/

def Change.transition? : Change → Option Transition
  | transition t => some t
  | _ => none

/-- The key that an edit leads somewhere. -/
def Edit.key? (e : Edit) : Option Transition.Key :=
  (e.change?.bind Change.transition?).map Transition.key

def History.transitions (cs : List Change) : List Transition :=
  cs.filterMap Change.transition?

theorem History.mem_transitions_iff {cs : List Change} {t : Transition} :
    t ∈ transitions cs ↔ .transition t ∈ cs := by
  have hread : ∀ c : Change, c.transition? = some t ↔ c = .transition t := by
    intro c
    cases c with
    | transition u => simp [Change.transition?]
    | _ => simp [Change.transition?]
  rw [transitions, List.mem_filterMap]
  simp only [hread, exists_eq_right]

namespace Machine

/-- Whether an edit touches no state: it declares a symbol, makes a declared state final, or enters
a transition. -/
def SparesStates (m : Machine) : Edit → Prop
  | .addSymbol _ | .addTransition .. => True
  | .addFinal raw => ∃ q ∈ m.states, StateName.parse raw = .ok q
  | .addState _ | .setInitial _ | .setCurrent _ => False

/-- The machine with what changes enter, each entry in its place. -/
def entering (m : Machine) (cs : List Change) : Machine :=
  { m with
    symbols := putAll id (History.symbols cs) m.symbols
    finals := putAll id (History.finals cs) m.finals
    transitions := putAll Transition.key (History.transitions cs) m.transitions }

variable {m : Machine}

theorem change_entering (h : m.WellFormed) {e : Edit} {c : Change} (he : m.SparesStates e)
    (hc : e.change? = some c) : (m.change c).1 = m.entering [c] := by
  cases e with
  | addSymbol raw =>
    obtain ⟨s, -, rfl⟩ := Option.map_eq_some_iff.mp hc
    exact change_symbol h.symbols_ascending s
  | addFinal raw =>
    obtain ⟨q, hparse, rfl⟩ := Option.map_eq_some_iff.mp hc
    obtain ⟨q', hq, hparse'⟩ := he
    rw [hparse'] at hparse
    cases hparse
    have hensured : m.ensureState q = (m, .done []) := ensureState_of_mem hq
    have hfinals : IsAscending id (m.ensureState q).1.finals := by
      rw [hensured]
      exact h.finals_ascending
    rw [change_final hfinals, hensured]
    rfl
  | addTransition symbol source target =>
    simp only [Edit.change?, Option.bind_eq_bind, Option.bind_eq_some_iff, Option.pure_def,
      Option.some.injEq] at hc
    obtain ⟨s, -, q, -, r, -, rfl⟩ := hc
    exact change_transition m ⟨s, q, r⟩
  | addState raw | setInitial raw | setCurrent raw => exact he.elim

theorem entering_append (m : Machine) (cs ds : List Change) :
    m.entering (cs ++ ds) = (m.entering cs).entering ds := by
  simp only [entering, History.symbols, History.finals, History.transitions, putAll,
    List.filterMap_append, List.foldl_append]

/-- Edits that touch no state enter what they ask for. -/
theorem editEach_entering (h : m.WellFormed) {es : List Edit} {last : Machine} {outcome : Outcome}
    (heach : m.editEach es = (last, .ok outcome)) (hes : ∀ e ∈ es, m.SparesStates e) :
    last = m.entering (History.changes es) := by
  induction es generalizing m last outcome with
  | nil =>
    cases heach
    rfl
  | cons e es ih =>
    obtain ⟨edited, first, rest, hedit, hrest, -⟩ := editEach_cons_ok heach
    obtain ⟨c, hc, hchange, -⟩ := exists_change_of_edit hedit
    have hfirst : edited = m.entering [c] :=
      hchange.trans (change_entering h (hes e List.mem_cons_self) hc)
    have hwell : edited.WellFormed := by
      have hafter : m.after e = edited := after_of_edit hedit
      exact hafter ▸ h.after e
    -- The states stay, so the edits to come touch none either.
    have hspares : ∀ e' ∈ es, edited.SparesStates e' := by
      rw [hfirst]
      exact fun e' he' => hes e' (List.mem_cons_of_mem e he')
    have hchanges : History.changes (e :: es) = [c] ++ History.changes es := by
      rw [History.changes, List.filterMap_cons, hc]
      rfl
    rw [ih hwell hrest hspares, hfirst, hchanges, entering_append]

theorem keys_eq (es : List Edit) :
    es.filterMap Edit.key? = (History.transitions (History.changes es)).map Transition.key := by
  rw [History.transitions, History.changes, List.filterMap_filterMap, List.map_filterMap]
  rfl

theorem entering_eq_of_perm (h : m.WellFormed) {es fs : List Edit} (hperm : es.Perm fs)
    (hkeys : (es.filterMap Edit.key?).Nodup) :
    m.entering (History.changes es) = m.entering (History.changes fs) := by
  have hchanges : (History.changes es).Perm (History.changes fs) := hperm.filterMap Edit.change?
  have hsymbols : putAll id (History.symbols (History.changes es)) m.symbols =
      putAll id (History.symbols (History.changes fs)) m.symbols :=
    putAll_eq_of_perm h.symbols_ascending (hchanges.filterMap Change.symbol?)
      (fun _ _ _ _ hab => hab)
  have hfinals : putAll id (History.finals (History.changes es)) m.finals =
      putAll id (History.finals (History.changes fs)) m.finals :=
    putAll_eq_of_perm h.finals_ascending (hchanges.filterMap Change.final?)
      (fun _ _ _ _ hab => hab)
  have htransitions :
      putAll Transition.key (History.transitions (History.changes es)) m.transitions =
        putAll Transition.key (History.transitions (History.changes fs)) m.transitions := by
    rw [keys_eq] at hkeys
    exact putAll_eq_of_perm h.transitions_ascending (hchanges.filterMap Change.transition?)
      (fun a ha b hb hab => List.inj_on_of_nodup_map hkeys ha hb hab)
  rw [entering, entering, hsymbols, hfinals, htransitions]

end Machine

namespace Machine

variable {m : Machine}

/-- Edits that touch no state and of which no two lead the same key somewhere come to the same in
every order in which they succeed: one machine, and so one script, one description, one listing of
each kind, and one snapshot of each format. It holds what was there and what was entered, in the
order of bytes and each once; only the transitions whose keys were entered anew are replaced. In the
same order, and each once, the entries are printed in the script, the listings and the snapshots. -/
theorem editEach_perm (h : m.Reachable) {es fs : List Edit} (hperm : es.Perm fs)
    (hspares : ∀ e ∈ es, m.SparesStates e) (hkeys : (es.filterMap Edit.key?).Nodup)
    {last last' : Machine} {outcome outcome' : Outcome}
    (hes : m.editEach es = (last, .ok outcome)) (hfs : m.editEach fs = (last', .ok outcome')) :
    last = last' ∧
    last.script = last'.script ∧ Session.description last = Session.description last' ∧
    Session.listing last.symbols = Session.listing last'.symbols ∧
    Session.listing last.finals = Session.listing last'.finals ∧
    Session.listing last.transitions = Session.listing last'.transitions ∧
    (∀ stamp format,
      (Snapshot.capture stamp last).encode format = (Snapshot.capture stamp last').encode format) ∧
    last.InByteOrder ∧
    (∀ stamp, last.PrintsAs stamp (Snapshot.capture stamp last).spelling ∧
      (Snapshot.capture stamp last).spelling.InByteOrder) ∧
    (∀ s, s ∈ last.symbols ↔
      s ∈ m.symbols ∨ ∃ raw, .addSymbol raw ∈ es ∧ Symbol.parse raw = .ok s) ∧
    (∀ q, q ∈ last.finals ↔
      q ∈ m.finals ∨ ∃ raw, .addFinal raw ∈ es ∧ StateName.parse raw = .ok q) ∧
    ∀ t, t ∈ last.transitions ↔
      (∃ e ∈ es, e.change? = some (.transition t)) ∨
        (t ∈ m.transitions ∧ t.key ∉ es.filterMap Edit.key?) := by
  have hlast := editEach_entering h.wellFormed hes hspares
  have hspares' : ∀ e ∈ fs, m.SparesStates e := fun e he => hspares e (hperm.mem_iff.mpr he)
  have hlast' := editEach_entering h.wellFormed hfs hspares'
  have heq : last = last' := by
    rw [hlast, hlast', entering_eq_of_perm h.wellFormed hperm hkeys]
  have hwell : last.WellFormed := by
    have heach := h.wellFormed.editEach es
    rwa [hes] at heach
  subst heq
  have horder : last.InByteOrder := hwell.inByteOrder
  refine ⟨rfl, rfl, rfl, rfl, rfl, rfl, fun _ _ => rfl, horder,
    fun stamp => ⟨last.printsAs stamp, horder.spelling stamp⟩, ?_, ?_, ?_⟩
  · intro s
    rw [hlast, ← History.symbol_mem_changes, ← History.mem_symbols_iff, or_comm]
    exact mem_putAll_id_iff
  · intro q
    rw [hlast, ← History.final_mem_changes, ← History.mem_finals_iff, or_comm]
    exact mem_putAll_id_iff
  · intro t
    rw [keys_eq] at hkeys ⊢
    have hmem : t ∈ History.transitions (History.changes es) ↔
        ∃ e ∈ es, e.change? = some (.transition t) := by
      rw [History.mem_transitions_iff, History.changes, List.mem_filterMap]
    have hother : (∀ u ∈ History.transitions (History.changes es), u.key ≠ t.key) ↔
        t.key ∉ (History.transitions (History.changes es)).map Transition.key := by
      simp
    rw [← hmem, ← hother, hlast]
    exact mem_putAll_iff h.wellFormed.transitions_ascending
      (fun a ha b hb hab => List.inj_on_of_nodup_map hkeys ha hb hab)

/-- Edits that touch no state, in an order in which they succeed. -/
def complements : List Edit :=
  [.addTransition "a" "q" "p", .addSymbol "b", .addFinal "r", .addTransition "b" "P" "q",
    .addSymbol "0", .addFinal "P"]

def complementsReordered : List Edit :=
  [.addSymbol "0", .addSymbol "b", .addTransition "b" "P" "q", .addFinal "P", .addFinal "r",
    .addTransition "a" "q" "p"]

/-- The premises hold of two orders of edits that enter something of each kind. -/
theorem editEach_perm_complements :
    complements.Perm complementsReordered ∧
    ∃ last outcome outcome',
      (empty.afterAll tangled).editEach complements = (last, .ok outcome) ∧
      (empty.afterAll tangled).editEach complementsReordered = (last, .ok outcome') ∧
      last.InByteOrder ∧ Session.listing last.transitions = "[A P R, B P Q, A Q P]" ∧
      ∀ stamp, ∃ r, last.PrintsAs stamp r ∧ r.InByteOrder ∧ r.symbols = ['0', 'A', 'B'] ∧
        r.finals = ["P", "R"] := by
  have hperm : complements.Perm complementsReordered := by decide
  have hdeclared : ∀ raw ∈ ["r", "P"], ∃ q ∈ (empty.afterAll tangled).states,
      StateName.parse raw = .ok q := by
    intro raw hraw
    rcases List.mem_pair.mp hraw with rfl | rfl
    · exact ⟨_, by decide +kernel, rfl⟩
    · exact ⟨_, by decide +kernel, rfl⟩
  have hspares : ∀ e ∈ complements, (empty.afterAll tangled).SparesStates e := by
    simp only [complements, List.forall_mem_cons]
    exact ⟨trivial, trivial, hdeclared "r" (by decide), trivial, trivial, hdeclared "P" (by decide),
      fun e he => absurd he List.not_mem_nil⟩
  obtain ⟨last, outcome, hes, hlisting, hsymbols, hfinals⟩ : ∃ last outcome,
      (empty.afterAll tangled).editEach complements = (last, .ok outcome) ∧
      Session.listing last.transitions = "[A P R, B P Q, A Q P]" ∧
      last.symbols.map Symbol.char = ['0', 'A', 'B'] ∧
      last.finals.map StateName.text = ["P", "R"] :=
    ⟨_, _, rfl, by decide +kernel⟩
  obtain ⟨last', outcome', hfs⟩ : ∃ last' outcome',
      (empty.afterAll tangled).editEach complementsReordered = (last', .ok outcome') := ⟨_, _, rfl⟩
  obtain ⟨rfl, -, -, -, -, -, -, horder, hprints, -⟩ :=
    editEach_perm (reachable_afterAll tangled) hperm hspares (by decide +kernel) hes hfs
  refine ⟨hperm, last, outcome, outcome', hes, hfs, horder, hlisting, fun stamp => ?_⟩
  exact ⟨_, (hprints stamp).1, (hprints stamp).2, hsymbols, hfinals⟩

end Machine

end Statewright
