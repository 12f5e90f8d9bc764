import Statewright.Proofs.Pieces
import Statewright.Proofs.Script

/-!
# Machines that are rewritten

A machine that is built by the commands of a session alone can always be written as a script and
read back: none of its states is named like a keyword, and it is in its initial state. Only a
snapshot can bring in another machine.
-/

open Statewright.Text Statewright.Fallible

namespace Statewright

/-- What a session makes without snapshots: a machine that its script rebuilds. -/
structure Machine.Rewritable (m : Machine) : Prop where
  wellFormed : m.WellFormed
  no_keyword : ∀ q ∈ m.states, Keyword.ofWord? q.text = none
  at_start : m.current = m.initial

/-! ## Changes -/

/-- Whether a change names no state like a keyword, and does not move the machine. -/
def Change.IsPlain : Change → Prop
  | symbol _ => True
  | state q => Keyword.ofWord? q.text = none
  | initial q => Keyword.ofWord? q.text = none
  | current _ => False
  | final q => Keyword.ofWord? q.text = none
  | transition _ => True

namespace Machine.Rewritable

variable {m : Machine}

theorem empty : Machine.empty.Rewritable :=
  ⟨.empty, fun _ hq => absurd hq List.not_mem_nil, rfl⟩

theorem declare (h : m.Rewritable) {q : StateName} (hq : q ∉ m.states)
    (hfree : Keyword.ofWord? q.text = none) : (m.declare q).Rewritable := by
  refine ⟨h.wellFormed.declare hq, fun r hr => ?_, ?_⟩
  · rw [declare_states] at hr
    rcases List.mem_append.mp hr with hr | hr
    · exact h.no_keyword r hr
    · rw [List.mem_singleton.mp hr]
      exact hfree
  · unfold Machine.declare
    split
    · exact h.at_start
    · rfl

theorem ensureState (h : m.Rewritable) {q : StateName} (hfree : Keyword.ofWord? q.text = none) :
    (m.ensureState q).1.Rewritable := by
  unfold Machine.ensureState Machine.hasState
  split
  · exact h
  · next hq => exact h.declare (fun hmem => hq (decide_eq_true hmem)) hfree

theorem change (h : m.Rewritable) {c : Change} (hc : m.Admits c) (hplain : c.IsPlain) :
    (m.change c).1.Rewritable := by
  have hwellFormed := h.wellFormed.change hc
  cases c with
  | symbol s =>
    show (if m.hasSymbol s = true then _ else _ : Machine × Outcome).1.Rewritable
    split
    · exact h
    · exact ⟨h.wellFormed.putSymbol s, h.no_keyword, h.at_start⟩
  | state q =>
    show (if m.hasState q = true then _ else _ : Machine × Outcome).1.Rewritable
    split
    · exact h
    · next hq => exact h.declare (fun hmem => hq (decide_eq_true hmem)) hplain
  | initial q => exact ⟨hwellFormed, (h.ensureState hplain).no_keyword, rfl⟩
  | current q => exact hplain.elim
  | final q =>
    have hensured := h.ensureState hplain
    show (if (m.ensureState q).1.isFinal q = true then _ else _ : Machine × Outcome).1.Rewritable
    split
    · exact hensured
    · exact ⟨hensured.wellFormed.putFinal (h.wellFormed.ensureState q).2, hensured.no_keyword,
        hensured.at_start⟩
  | transition t =>
    -- A transition is entered whatever is to be noticed about it.
    have hentered : (m.setTransition t).1 =
        { m with transitions := Ascending.put Transition.key t m.transitions } := by
      unfold Machine.setTransition
      split
      · split
        · rfl
        · rfl
      · rfl
    refine ⟨hwellFormed, ?_, ?_⟩
    · show ∀ q ∈ (m.setTransition t).1.states, _
      rw [hentered]
      exact h.no_keyword
    · show (m.setTransition t).1.current = (m.setTransition t).1.initial
      rw [hentered]
      exact h.at_start

end Machine.Rewritable

/-! ## Edits -/

/-- Whether an edit names no state by a keyword, and does not move the machine. -/
def Edit.IsPlain : Edit → Prop
  | addSymbol _ => True
  | addState raw => Keyword.ofWord? raw = none
  | setInitial raw => Keyword.ofWord? raw = none
  | setCurrent _ => False
  | addFinal raw => Keyword.ofWord? raw = none
  | addTransition _ _ _ => True

-- The name that a text is read as is a keyword only if the text is.
theorem Machine.no_keyword_of_readState {raw : String} {q : StateName} (h : readState raw = .ok q)
    (hraw : Keyword.ofWord? raw = none) : Keyword.ofWord? q.text = none := by
  have htext : q.text = upper raw := by
    have hparse := mapError_eq_ok_iff.mp h
    unfold StateName.parse at hparse
    split at hparse
    · cases hparse
      rfl
    · cases hparse
  have hupper : upper (upper raw) = upper raw := by
    rw [← htext]
    exact upper_of_isNameChar q.canonical
  rw [← hraw, htext]
  unfold Keyword.ofWord? sameWord
  rw [hupper]

theorem Edit.IsPlain.readChange {m : Machine} {e : Edit} {c : Change} (h : e.IsPlain)
    (hread : m.readChange e = .ok c) : c.IsPlain := by
  cases e with
  | addSymbol raw | addTransition symbol source target =>
    obtain ⟨a, -, rfl⟩ := map_eq_ok_iff.mp hread
    trivial
  | addState raw | setInitial raw | addFinal raw =>
    obtain ⟨q, hq, rfl⟩ := map_eq_ok_iff.mp hread
    exact Machine.no_keyword_of_readState hq h
  | setCurrent raw => exact h.elim

namespace Machine.Rewritable

variable {m : Machine}

theorem edit (h : m.Rewritable) {e : Edit} (he : e.IsPlain) {r : Machine × Outcome}
    (hedit : m.edit e = .ok r) : r.1.Rewritable := by
  obtain ⟨c, hread, rfl⟩ := edit_ok_iff.mp hedit
  exact h.change (admits_of_readChange hread) (he.readChange hread)

theorem editEachAlone (h : m.Rewritable) {es : List Edit} (hes : ∀ e ∈ es, e.IsPlain) :
    (Session.editEachAlone m es).1.Rewritable := by
  induction es generalizing m with
  | nil => exact h
  | cons e es ih =>
    obtain ⟨he, hes⟩ := List.forall_mem_cons.mp hes
    rw [Session.editEachAlone]
    cases hedit : m.edit e with
    | error err => exact ih h hes
    | ok r => exact ih (h.edit he hedit) hes

theorem editEach (h : m.Rewritable) {es : List Edit} (hes : ∀ e ∈ es, e.IsPlain) :
    (m.editEach es).1.Rewritable := by
  induction es generalizing m with
  | nil => exact h
  | cons e es ih =>
    obtain ⟨he, hes⟩ := List.forall_mem_cons.mp hes
    rw [Machine.editEach]
    cases hedit : m.edit e with
    | error err => exact h
    | ok r => exact ih (h.edit he hedit) hes

end Machine.Rewritable

/-! ## Commands -/

/-- Whether an exchange is no LOAD of a snapshot that succeeded. A script that was run is answered
with silence. -/
def Exchange.BringsNone (x : Exchange) : Prop :=
  ∀ path response, Command.parse x.piece = .ok (.load path) → x.reply ≠ .ok (some response)

def Exchange.bringsOne (x : Exchange) : Bool :=
  match Command.parse x.piece, x.reply with
  | .ok (.load _), .ok (some _) => true
  | _, _ => false

theorem Exchange.bringsNone_iff (x : Exchange) : x.BringsNone ↔ x.bringsOne = false := by
  unfold BringsNone bringsOne
  split
  · next hparse hreply => exact iff_of_false (fun h => h _ _ hparse hreply) (by decide)
  · next hother => exact iff_of_true (fun path response hparse => hother path response hparse) rfl

instance : DecidablePred Exchange.BringsNone := fun x =>
  decidable_of_iff' _ x.bringsNone_iff

namespace Session

variable {s : Session}

theorem declare_rewritable (h : s.machine.Rewritable) {edits : List Edit}
    (hedits : ∀ e ∈ edits, e.IsPlain) : (s.declare edits).1.machine.Rewritable :=
  h.editEachAlone hedits

theorem editAll_rewritable (h : s.machine.Rewritable) {edits : List Edit}
    (hedits : ∀ e ∈ edits, e.IsPlain) : (s.editAll edits).1.machine.Rewritable := by
  have heach := h.editEach hedits
  unfold editAll Machine.editAll
  generalize s.machine.editEach edits = r at heach
  obtain ⟨m, e | outcome⟩ := r
  · exact h
  · exact heach

-- LOAD that runs no script changes the machine only if it says so.
theorem loadAtOnce_rewritable (h : s.machine.Rewritable) {path : String}
    (hreply : ∀ response, (s.loadAtOnce path).2 ≠ .ok (some response)) :
    (s.loadAtOnce path).1.machine.Rewritable := by
  revert hreply
  unfold loadAtOnce load
  cases Format.ofPath? path s.settings.compiledExtension with
  | none =>
    intro _
    unfold runScript
    cases s.files.openRead path with
    | error e => exact h
    | ok opened =>
      obtain ⟨location, handle⟩ := opened
      dsimp only
      split
      · exact h
      · exact h
  | some format =>
    dsimp only
    cases Snapshot.loadMachine s.files path format with
    | error e => exact fun _ => h
    | ok m => exact fun hreply => absurd rfl (hreply _)

theorem isPlain_map {f : String → Edit} {names : List String}
    (hf : ∀ w, Keyword.ofWord? w = none → (f w).IsPlain)
    (hnames : ∀ w ∈ names, Keyword.ofWord? w = none) : ∀ e ∈ names.map f, e.IsPlain := by
  intro e he
  obtain ⟨w, hw, rfl⟩ := List.mem_map.mp he
  exact hf w (hnames w hw)

/-- A command that runs no script keeps the machine rewritable, if it takes no keyword for a name
and is no LOAD of a snapshot that succeeds. -/
theorem perform_rewritable (h : s.machine.Rewritable) {c : Command} {p : Session × Reply}
    (hperform : s.perform (fun _ _ => none) c = some p)
    (hfree : c.keyword ≠ .transitions → c.keyword ≠ .execute →
      ∀ w ∈ c.arguments, Keyword.ofWord? w = none)
    (hload : ∀ path response, c = .load path → p.2 ≠ .ok (some response)) :
    p.1.machine.Rewritable := by
  cases c with
  | symbols names =>
    cases names with
    | nil =>
      cases hperform
      exact h
    | cons name names =>
      cases hperform
      exact declare_rewritable h (fun e he => by
        obtain ⟨w, -, rfl⟩ := List.mem_map.mp he
        trivial)
  | states names | finalStates names =>
    have hnames := hfree (fun heq => by cases heq) (fun heq => by cases heq)
    cases names with
    | nil =>
      cases hperform
      exact h
    | cons name names =>
      cases hperform
      exact declare_rewritable h (isPlain_map (fun w hw => hw) hnames)
  | initialState name =>
    have hname := hfree (fun heq => by cases heq) (fun heq => by cases heq)
    cases hperform
    exact editAll_rewritable h (isPlain_map (f := .setInitial) (fun w hw => hw) hname)
  | transitions triples =>
    cases triples with
    | nil =>
      cases hperform
      exact h
    | cons triple triples =>
      cases hperform
      exact editAll_rewritable h (fun e he => by
        obtain ⟨t, -, rfl⟩ := List.mem_map.mp he
        trivial)
  | print path =>
    cases path with
    | none =>
      cases hperform
      exact h
    | some path =>
      cases hperform
      rw [printTo_eq]
      exact h
  | compile path =>
    cases hperform
    rw [compile_eq]
    exact h
  | load path =>
    have hatOnce : s.loadAtOnce path = p := by
      unfold loadAtOnce
      rw [show s.load (fun _ _ => none) path = some p from hperform]
      rfl
    rw [← hatOnce] at hload ⊢
    exact loadAtOnce_rewritable h (fun response => hload path response rfl)
  | execute input =>
    cases hperform
    exact h
  | clear =>
    cases hperform
    exact .empty
  | log path =>
    cases path with
    | none =>
      cases hperform
      exact h
    | some path =>
      cases hperform
      rw [startLog_eq]
      exact h
  | exit =>
    cases hperform
    exact h

theorem performAtOnce_rewritable (h : s.machine.Rewritable) {piece head : String}
    {arguments : List String} (hpiece : IsPiece piece head arguments)
    (hload : Exchange.BringsNone ⟨piece, (s.performAtOnce piece).2⟩) :
    (s.performAtOnce piece).1.machine.Rewritable := by
  cases hparse : Command.parse piece with
  | error e =>
    unfold performAtOnce performPiece
    rw [hparse]
    exact h
  | ok c =>
    cases hperform : s.perform (fun _ _ => none) c with
    | none =>
      unfold performAtOnce performPiece
      rw [hparse]
      dsimp only
      rw [hperform]
      exact h
    | some p =>
      have hatOnce : s.performAtOnce piece = p := by
        unfold performAtOnce performPiece
        rw [hparse]
        dsimp only
        rw [hperform]
        rfl
      rw [hatOnce] at hload ⊢
      refine perform_rewritable h hperform (hpiece.no_keyword_of_parse hparse) ?_
      rintro path response rfl
      exact hload path response hparse

end Session

/-! ## Runs -/

namespace Moment

variable {m n : Moment}

/-- Whether a step keeps the machine, and everything that was completed before. -/
def LeavesMachine (m n : Moment) : Prop :=
  n.session.machine = m.session.machine ∧ m.done <+: n.done

/-- Whether a step performs a piece that runs no script. -/
def Performs (m n : Moment) : Prop :=
  ∃ piece, ∃ s : Session, m.upcoming? = some piece ∧ s.machine = m.session.machine ∧
    n.session.machine = (s.performAtOnce piece).1.machine ∧
    n.done = m.done ++ [⟨piece, (s.performAtOnce piece).2⟩]

theorem leavesMachine_read {mode : Mode} {source : Source} {reader : Reader} {rest : List Task} :
    m.LeavesMachine (m.work (.read mode source reader) rest) := by
  obtain ⟨items, hitems⟩ := m.session.prompt_wrote mode
  unfold work
  dsimp only
  rw [hitems]
  split
  · exact ⟨rfl, List.prefix_rfl⟩
  · exact ⟨rfl, List.prefix_rfl⟩
  · exact ⟨rfl, List.prefix_rfl⟩
  · exact ⟨rfl, List.prefix_rfl⟩

theorem leavesMachine_findings {mode : Mode} {findings : List Finding} {rest : List Task} :
    m.LeavesMachine (m.work (.findings mode findings) rest) := by
  match findings with
  | [] => exact ⟨rfl, List.prefix_rfl⟩
  | .remark line r :: findings => exact ⟨rfl, List.prefix_rfl⟩
  | .statement st :: findings => exact ⟨rfl, List.prefix_rfl⟩

theorem leavesMachine_leave {caller : Caller} {script : Script} {rest : List Task} :
    m.LeavesMachine (m.work (.leave caller script) rest) := by
  refine ⟨?_, List.prefix_append _ _⟩
  show (m.session.leave.replyTo caller _).machine = _
  rw [Session.replyTo_eq]
  rfl

theorem work_pieces {mode : Mode} {line : Nat} {isFirst : Bool} {pieces : List String}
    {rest : List Task} (h : m.agenda = .pieces mode line isFirst pieces :: rest)
    (hrunning : m.session.running = true) :
    m.LeavesMachine (m.work (.pieces mode line isFirst pieces) rest) ∨
      m.Performs (m.work (.pieces mode line isFirst pieces) rest) := by
  cases pieces with
  | nil => exact .inl ⟨rfl, List.prefix_rfl⟩
  | cons piece pieces =>
    have hpiece : m.upcoming? = some piece := by
      unfold upcoming?
      rw [h]
      exact if_pos hrunning
    have hmachine : (m.session.announce mode line isFirst piece).machine = m.session.machine := by
      rw [Session.announce_eq]
    unfold work begin
    dsimp only
    cases (m.session.announce mode line isFirst piece).script? piece with
    | some script => exact .inl ⟨hmachine, List.prefix_rfl⟩
    | none =>
      refine .inr ⟨piece, _, hpiece, hmachine, ?_, rfl⟩
      show (Session.replyTo _ (.piece line piece) _).machine = _
      rw [Session.replyTo_eq]

/-- A step that loads no file outside of any statement keeps the machine, or performs a piece. -/
theorem leavesMachine_or_performs (h : m.next = some n)
    (hload : ∀ path rest, m.agenda ≠ .load path :: rest) : m.LeavesMachine n ∨ m.Performs n := by
  cases hagenda : m.agenda with
  | nil =>
    rw [next_eq_none_iff.mpr hagenda] at h
    cases h
  | cons task rest =>
    have hdropped : m.LeavesMachine { m with agenda := rest } := ⟨rfl, List.prefix_rfl⟩
    unfold next at h
    rw [hagenda] at h
    cases task with
    | load path => exact absurd hagenda (hload path rest)
    | leave caller script =>
      cases h
      exact .inl leavesMachine_leave
    | read mode source reader =>
      cases h
      split
      · exact .inl leavesMachine_read
      · exact .inl hdropped
    | findings mode findings =>
      cases h
      split
      · exact .inl leavesMachine_findings
      · exact .inl hdropped
    | pieces mode line isFirst pieces =>
      cases h
      split
      · next hrunning => exact work_pieces hagenda hrunning
      · exact .inl hdropped

end Moment

/-- The machine of a session is rewritable at every moment of its runs, if it is at first and no
snapshot is loaded. -/
theorem Moment.rewritable_of_leads {s : Session} (hs : s.machine.Rewritable)
    {inputs : List (Mode × List UInt8)} {m : Moment}
    (hm : (start s (inputs.map (fun (mode, input) => .run mode input))).Leads m)
    (hnone : ∀ x ∈ m.done, x.BringsNone) : m.session.machine.Rewritable := by
  induction hm with
  | refl => exact hs
  | tail hleads hnext ih =>
    rename_i k n
    have htasks := fromInput_of_leads hleads
    have hload : ∀ path rest, k.agenda ≠ .load path :: rest := by
      intro path rest hagenda
      exact htasks (.load path) (hagenda ▸ List.mem_cons_self)
    rcases leavesMachine_or_performs hnext hload with ⟨hmachine, hdone⟩ | hperforms
    · rw [hmachine]
      exact ih (fun x hx => hnone x (hdone.subset hx))
    · obtain ⟨piece, t, hpiece, ht, hmachine, hdone⟩ := hperforms
      rw [hdone] at hnone
      have hk := ih (fun x hx => hnone x (List.mem_append_left _ hx))
      obtain ⟨-, mode, line, isFirst, pieces, rest, hagenda⟩ := upcoming?_eq_some hpiece
      have hheld : Task.FromInput (.pieces mode line isFirst (piece :: pieces)) :=
        htasks _ (hagenda ▸ List.mem_cons_self)
      obtain ⟨head, arguments, hpieces⟩ := hheld piece List.mem_cons_self
      rw [hmachine]
      refine Session.performAtOnce_rewritable (ht ▸ hk) hpieces (hnone _ ?_)
      exact List.mem_append_right _ List.mem_cons_self

namespace Session

/-- Whatever inputs are run in a session with an empty machine, and whatever scripts they load: as
long as no snapshot is loaded, no state is named like a keyword and the current state is the initial
one. So the script of the machine runs in silence in a new session and rebuilds the machine. -/
theorem script_of_runs {s : Session} (hempty : s.machine = .empty)
    {inputs : List (Mode × List UInt8)} {m : Moment}
    (hm : (Moment.start s (inputs.map (fun (mode, input) => .run mode input))).Leads m)
    (hnone : ∀ x ∈ m.done, ∀ path response,
      Command.parse x.piece = .ok (.load path) → x.reply ≠ .ok (some response)) :
    (∀ q ∈ m.session.machine.states, Keyword.ofWord? q.text = none) ∧
    m.session.machine.current = m.session.machine.initial ∧
    ∀ settings : Settings, settings.echoScript = false → ∀ stamp files fuel, 5 < fuel →
      ∃ t, (start settings stamp files).run fuel .script
          (Utf8.encode m.session.machine.script.toList) = some (t, .ok ()) ∧
        t.output = [] ∧ t.machine = m.session.machine ∧
        t.machine.script = m.session.machine.script := by
  have h : m.session.machine.Rewritable :=
    Moment.rewritable_of_leads (hempty ▸ .empty) hm hnone
  refine ⟨h.no_keyword, h.at_start, fun settings hecho stamp files fuel hfuel => ?_⟩
  have hready : (start settings stamp files).Ready := ⟨rfl, rfl, hecho⟩
  have hsame : { m.session.machine with current := m.session.machine.initial } =
      m.session.machine := by
    rw [← h.at_start]
  have hrun := Machine.run_script h.wellFormed h.no_keyword hready rfl hfuel
  rw [hsame] at hrun
  exact ⟨_, hrun, rfl, rfl, rfl⟩

/-- A session with a script in which keywords stand where names are expected. -/
def tempting : Session :=
  start Machine.withoutEcho ⟨.zero, .epoch⟩
    ((FileTree.empty ["home"]).addFile ["home", "inner"]
      (Utf8.encode
        "STATES a print b\nEXECUTE load; FINAL-STATES b; TRANSITIONS x,clear b;\n".toList))

def temptations : List (Mode × List UInt8) :=
  [(.script, Utf8.encode "SYMBOLS x; LOAD inner;\n".toList),
    (.interactive, Utf8.encode "TRANSITIONS x a b; INITIAL-STATE b; STATES load\n".toList)]

/-- The keywords become no states, and the machine is rewritten. -/
theorem script_of_runs_tempting :
    let m := (Moment.start tempting
      (temptations.map (fun (mode, input) => .run mode input))).advance 45
    m.session.machine.states.map toString = ["A", "B"] ∧
      ∃ t, (start Machine.withoutEcho ⟨.zero, .epoch⟩ (.empty [])).run 6 .script
          (Utf8.encode m.session.machine.script.toList) = some (t, .ok ()) ∧
        t.output = [] ∧ t.machine = m.session.machine := by
  intro m
  have hnone : ∀ x ∈ m.done, x.BringsNone := by decide +kernel
  obtain ⟨-, -, hscript⟩ := script_of_runs (s := tempting) rfl (Moment.leads_advance 45 _) hnone
  obtain ⟨t, hrun, houtput, hmachine, -⟩ :=
    hscript Machine.withoutEcho rfl ⟨.zero, .epoch⟩ (.empty []) 6 (by decide)
  exact ⟨by decide +kernel, t, hrun, houtput, hmachine⟩

end Session

end Statewright
