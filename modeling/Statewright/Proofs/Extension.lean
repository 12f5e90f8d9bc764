import Statewright.Proofs.Traces

/-!
# Extending a machine

Edits that do not move the initial state, and under which no key comes to lead elsewhere, extend the
machine: it keeps what its runs rest on, and may gain more. So each run takes its old way as far as
that led. A run that read its whole input visits the same states as before, and only its verdict can
change, when its last state became final.
-/

open Statewright.Ascending

namespace Statewright

/-- Whether an edit leaves the initial state of a machine where it is, if there is one. -/
def Edit.KeepsInitial : Edit → Prop
  | .setInitial _ => False
  | _ => True

instance : DecidablePred Edit.KeepsInitial := fun e =>
  match e with
  | .setInitial _ => inferInstanceAs (Decidable False)
  | .addSymbol _ | .addState _ | .setCurrent _ | .addFinal _ | .addTransition .. =>
    inferInstanceAs (Decidable True)

namespace Machine

/-- What a machine keeps when it is extended: every run can still do what it could. -/
structure Extends (n m : Machine) : Prop where
  initial (q : StateName) : m.initial = some q → n.initial = some q
  symbols : m.symbols ⊆ n.symbols
  target (s : Symbol) (q r : StateName) : m.target? s q = some r → n.target? s q = some r
  finals : m.finals ⊆ n.finals

/-- Whether an edit leaves every key that is mapped where it leads. -/
def KeepsTargets (m : Machine) (e : Edit) : Prop :=
  ∀ s q r, m.target? s q = some r → (m.after e).target? s q = some r

/-- Whether edits, one after the other, leave every key where it leads once it is mapped. -/
def NeverRedirects (m : Machine) : List Edit → Prop
  | [] => True
  | e :: es => m.KeepsTargets e ∧ (m.after e).NeverRedirects es

-- A key that is mapped is the key of an entry, and there are finitely many of these.
theorem keepsTargets_iff {m : Machine} {e : Edit} : m.KeepsTargets e ↔
    ∀ t ∈ m.transitions, m.target? t.symbol t.source = some t.target →
      (m.after e).target? t.symbol t.source = some t.target := by
  constructor
  · exact fun h t _ ht => h _ _ _ ht
  · intro h s q r hr
    have hfound := hr
    unfold target? at hfound
    obtain ⟨t, ht, rfl⟩ := Option.map_eq_some_iff.mp hfound
    have hkey : t.key = ⟨q, s⟩ := by simpa using List.find?_some ht
    cases hkey
    exact h t (List.mem_of_find?_eq_some ht) hr

instance (m : Machine) (e : Edit) : Decidable (m.KeepsTargets e) :=
  decidable_of_iff _ keepsTargets_iff.symm

instance decidableNeverRedirects (m : Machine) : (es : List Edit) → Decidable (m.NeverRedirects es)
  | [] => inferInstanceAs (Decidable True)
  | e :: es =>
    have := decidableNeverRedirects (m.after e) es
    inferInstanceAs (Decidable (m.KeepsTargets e ∧ (m.after e).NeverRedirects es))

variable {m n k : Machine} {q r : StateName} {c : Char} {cs : List Char} {visited : List StateName}

namespace Extends

theorem refl (m : Machine) : m.Extends m :=
  ⟨fun _ h => h, List.Subset.refl _, fun _ _ _ h => h, List.Subset.refl _⟩

theorem trans (h : k.Extends n) (h' : n.Extends m) : k.Extends m where
  initial q hq := h.initial q (h'.initial q hq)
  symbols _ hs := h.symbols (h'.symbols hs)
  target s q r hr := h.target s q r (h'.target s q r hr)
  finals _ hq := h.finals (h'.finals hq)

/-! ## Runs -/

theorem reads (h : n.Extends m) (hreads : m.Reads q c r) : n.Reads q c r := by
  obtain ⟨s, hs, hchar, htarget⟩ := hreads
  exact ⟨s, h.symbols hs, hchar, h.target s q r htarget⟩

theorem path (h : n.Extends m) (hpath : m.Path q cs visited) : n.Path q cs visited := by
  induction hpath with
  | nil q => exact .nil q
  | cons hreads _ ih => exact .cons (h.reads hreads) ih

-- The walk takes its old way as far as that led.
theorem walk_isPrefix (h : n.Extends m) (q : StateName) (cs : List Char) :
    (m.walk q cs).1 <+: (n.walk q cs).1 := by
  have hprefix :=
    (h.path (m.walk_path q cs)).isPrefix (cs.drop (m.walk q cs).1.length)
  rwa [List.take_append_drop] at hprefix

theorem walk_of_none (h : n.Extends m) (hnone : (m.walk q cs).2 = none) :
    n.walk q cs = m.walk q cs := by
  have hprefix := h.walk_isPrefix q cs
  have hall : (m.walk q cs).1.length = cs.length := by
    rcases m.walk_halt q cs with ⟨-, hlength⟩ | ⟨c, halt, -, -, hsome⟩
    · exact hlength
    · rw [hnone] at hsome
      cases hsome
  have hmost : (n.walk q cs).1.length ≤ cs.length := (n.isGreatest_walk q cs).1.1
  have hlength : (m.walk q cs).1.length = (n.walk q cs).1.length := by
    have := hprefix.length_le
    omega
  have hstates : (m.walk q cs).1 = (n.walk q cs).1 := hprefix.eq_of_length hlength
  have hnone' : (n.walk q cs).2 = none := by
    rcases n.walk_halt q cs with ⟨hnone', -⟩ | ⟨c, halt, hnext, -, -⟩
    · exact hnone'
    -- There is no character left to halt at.
    · rw [← hlength, hall, List.getElem?_length] at hnext
      cases hnext
  exact Prod.ext hstates.symm (hnone'.trans hnone.symm)

end Extends

/-! ## Edits -/

-- Declaring moves the initial state of no machine that has one.
theorem extends_declare (h : m.initial = some q) (r : StateName) : (m.declare r).Extends m := by
  have hdeclare : m.declare r = { m with states := m.states ++ [r] } := by
    unfold declare
    rw [h]
  rw [hdeclare]
  exact { Extends.refl m with }

theorem extends_ensureState (h : m.initial = some q) (r : StateName) :
    (m.ensureState r).1.Extends m := by
  unfold ensureState
  split
  · exact .refl m
  · exact extends_declare h r

theorem extends_change {c : Change} (h : m.initial = some q) (hc : ∀ r, c ≠ .initial r)
    (hkeeps : ∀ s q r, m.target? s q = some r → (m.change c).1.target? s q = some r) :
    (m.change c).1.Extends m := by
  cases c with
  | symbol s =>
    unfold change
    dsimp only
    split
    · exact .refl m
    · exact { Extends.refl m with symbols := fun a ha => mem_put_id_iff.mpr (.inr ha) }
  | state r =>
    rw [change_state]
    exact extends_ensureState h r
  | initial r => exact absurd rfl (hc r)
  | current r => exact { extends_ensureState h r with }
  | final r =>
    have hensured := extends_ensureState h r
    unfold change
    dsimp only
    split
    · exact hensured
    · exact { hensured with finals := fun a ha => mem_put_id_iff.mpr (.inr (hensured.finals ha)) }
  | transition t =>
    rw [change_transition] at hkeeps ⊢
    exact { Extends.refl m with target := hkeeps }

/-- An edit extends a machine that has an initial state, unless it moves that state or leads a key
elsewhere. -/
theorem extends_after {e : Edit} (h : m.initial = some q) (he : e.KeepsInitial)
    (hkeeps : m.KeepsTargets e) : (m.after e).Extends m := by
  unfold KeepsTargets at hkeeps
  cases hedit : m.edit e with
  | error err =>
    rw [after_of_error hedit]
    exact .refl m
  | ok r =>
    obtain ⟨c, hread, rfl⟩ := edit_ok_iff.mp hedit
    rw [after_of_edit hedit] at hkeeps ⊢
    refine extends_change h ?_ hkeeps
    -- Only an edit that sets the initial state asks for such a change.
    rintro r rfl
    obtain ⟨hasks, -⟩ := readChange_ok_iff.mp hread
    cases e with
    | setInitial raw => exact he
    | _ => simp [Edit.change?, Option.bind_eq_some_iff] at hasks

theorem extends_afterAll {es : List Edit} (h : m.initial = some q)
    (hes : ∀ e ∈ es, e.KeepsInitial) (hkeeps : m.NeverRedirects es) :
    (m.afterAll es).Extends m := by
  induction es generalizing m with
  | nil => exact .refl m
  | cons e es ih =>
    obtain ⟨hfirst, hrest⟩ := hkeeps
    have hafter := extends_after h (hes e List.mem_cons_self) hfirst
    exact (ih (hafter.initial q h) (fun e' he' => hes e' (List.mem_cons_of_mem e he')) hrest).trans
      hafter

/-! ## What becomes final -/

theorem mem_finals_change {c : Change} :
    r ∈ (m.change c).1.finals ↔ r ∈ m.finals ∨ c = .final r := by
  have hensured : ∀ q : StateName, (m.ensureState q).1.finals = m.finals := by
    intro q
    unfold ensureState
    split
    · rfl
    · exact m.declare_finals q
  cases c with
  | symbol s =>
    unfold change
    dsimp only
    split
    · simp
    · simp
  | state q => simp [change_state, hensured]
  | initial q => simp [change, hensured]
  | current q => simp [change, hensured]
  | final q =>
    unfold change isFinal
    dsimp only
    rw [hensured, Change.final.injEq]
    split
    · next hq =>
      rw [hensured]
      constructor
      · exact .inl
      · rintro (hr | rfl)
        · exact hr
        · exact of_decide_eq_true hq
    · rw [mem_put_id_iff, or_comm, eq_comm]
  | transition t => simp [change_transition]

theorem mem_finals_after (m : Machine) (e : Edit) :
    r ∈ (m.after e).finals ↔ r ∈ m.finals ∨ e.change? = some (.final r) := by
  by_cases h : ∃ c, e.change? = some c ∧ m.Admits c
  · obtain ⟨c, hc, hadmits⟩ := h
    rw [after_of_admits hc hadmits, mem_finals_change, hc, Option.some.injEq]
  · have hno : ∀ c, e.change? = some c → ¬ m.Admits c := fun c hc hadmits => h ⟨c, hc, hadmits⟩
    rw [after_of_not_admits hno]
    exact (or_iff_left (fun hc => hno (.final r) hc trivial)).symm

theorem mem_finals_afterAll (m : Machine) (es : List Edit) :
    r ∈ (m.afterAll es).finals ↔
      r ∈ m.finals ∨ ∃ raw, .addFinal raw ∈ es ∧ StateName.parse raw = .ok r := by
  rw [← History.final_mem_changes, History.changes, List.mem_filterMap]
  induction es generalizing m with
  | nil => simp [afterAll]
  | cons e es ih =>
    show r ∈ ((m.after e).afterAll es).finals ↔ _
    rw [ih, mem_finals_after]
    simp [or_assoc]

/-! ## Runs on the extended machine -/

theorem verdictAt_eq_reject_iff : m.verdictAt q = .reject ↔ q ∉ m.finals := by
  rw [← verdictAt_eq_accept_iff]
  cases m.verdictAt q with
  | accept => simp
  | reject => simp

/-- Edits that do not move the initial state, some of which may fail, and none of which leads a key
elsewhere that is mapped, take nothing away from any run: the states that it visited are the first
that it visits now. If it read its whole input, then it visits these and no others, does not halt,
and keeps accepting what it accepted. What it rejected it accepts now exactly if its last state is
one that the edits made final. -/
theorem trace_extended (h : m.initial = some q) (es : List Edit)
    (hes : ∀ e ∈ es, e.KeepsInitial) (hkeeps : m.NeverRedirects es) (input : String) :
    (m.trace input).states <+: ((m.afterAll es).trace input).states ∧
    ((m.trace input).halt = none →
      ((m.afterAll es).trace input).states = (m.trace input).states ∧
      ((m.afterAll es).trace input).halt = none ∧
      ((m.trace input).verdict = .accept → ((m.afterAll es).trace input).verdict = .accept) ∧
      (((m.afterAll es).trace input).verdict ≠ (m.trace input).verdict ↔
        ∃ last, (m.trace input).last? = some last ∧ last ∉ m.finals ∧
          ∃ raw, .addFinal raw ∈ es ∧ StateName.parse raw = .ok last)) := by
  have hextends := extends_afterAll h hes hkeeps
  have hlast := last_trace h input
  rw [trace_eq h] at hlast ⊢
  rw [trace_eq (hextends.initial q h)]
  dsimp only
  constructor
  · exact (List.prefix_cons_inj q).mpr (hextends.walk_isPrefix q input.toList)
  · intro hnone
    rw [hextends.walk_of_none hnone]
    refine ⟨rfl, hnone, ?_, ?_⟩
    · rw [verdictAt_eq_accept_iff, verdictAt_eq_accept_iff]
      exact fun hfinal => hextends.finals hfinal
    · rw [hlast]
      generalize (m.walk q input.toList).1.getLastD q = last
      have hmade := m.mem_finals_afterAll (r := last) es
      by_cases hfinal : last ∈ m.finals
      · rw [verdictAt_eq_accept_iff.mpr hfinal,
          verdictAt_eq_accept_iff.mpr (hextends.finals hfinal)]
        simp [hfinal]
      · rw [verdictAt_eq_reject_iff.mpr hfinal, ne_eq, verdictAt_eq_reject_iff, hmade]
        simp [hfinal]

/-- Edits that lead on from the end of a run and make its beginning final; some of them fail. -/
def furthered : List Edit :=
  [.addTransition "b" "q" "p", .addSymbol "b", .addTransition "B" "q" "P", .addFinal "p",
    .addTransition "a" "P" "q", .setCurrent "z", .addState "?"]

/-- The premises hold of the edits: a run goes on where it halted, and one that ends in the state
which became final is accepted now. -/
theorem trace_extended_furthered :
    (readsOnce.trace "ab").states <+: ((readsOnce.afterAll furthered).trace "ab").states ∧
    ((readsOnce.afterAll furthered).trace "ab").text = "P Q P YES" ∧
    ∃ last, (readsOnce.trace "").last? = some last ∧ last ∉ readsOnce.finals ∧
      ∃ raw, .addFinal raw ∈ furthered ∧ StateName.parse raw = .ok last := by
  obtain ⟨q, hinitial⟩ : ∃ q, readsOnce.initial = some q :=
    Option.isSome_iff_exists.mp (by decide +kernel)
  have hextended := trace_extended hinitial furthered (by decide +kernel) (by decide +kernel)
  obtain ⟨-, -, -, hverdict⟩ := (hextended "").2 (by decide +kernel)
  exact ⟨(hextended "ab").1, by decide +kernel, hverdict.mp (by decide +kernel)⟩

end Machine

end Statewright
