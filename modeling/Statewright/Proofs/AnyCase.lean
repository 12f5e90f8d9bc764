import Statewright.Proofs.Capitals
import Statewright.Proofs.Lockstep
import Statewright.Proofs.Messages
import Statewright.Session.Mention

/-!
# Inputs in any case

Two inputs that have the same capitals do the same. As long as no file is asked for, whose path
would be taken as it is written, each piece of the one is answered as that of the other is: both
succeed or both fail, the machine stays the same, and the responses are the same texts, except for
lines that quote a name which could not be read.
-/

open Statewright.Text Statewright.Fallible

namespace Statewright

/-! ## Answers -/

/-- Whether a word asks for no file, as LOAD, COMPILE, PRINT and LOG do. -/
def AsksNoFile (word : String) : Prop :=
  (Keyword.ofWord? word).map Keyword.takesPath ≠ some true

instance : DecidablePred AsksNoFile := fun word =>
  inferInstanceAs (Decidable ((Keyword.ofWord? word).map Keyword.takesPath ≠ some true))

/-- Whether two lines are the same, or tell of the same failure and have the same capitals. -/
def SameLine (line line' : String) : Prop :=
  line = line' ∨ ∃ told told', line = "Error: " ++ told ∧ line' = "Error: " ++ told' ∧
    Text.upper told = Text.upper told'

/-- Whether two responses are made of the same lines, up to what lines quote that tell a failure. -/
def SameLines (response response' : String) : Prop :=
  ∃ lines lines' : List String, (∀ line ∈ lines, IsLine line) ∧ (∀ line ∈ lines', IsLine line) ∧
    response = "\n".intercalate lines ∧ response' = "\n".intercalate lines' ∧
    List.Forall₂ SameLine lines lines'

/-- Whether a command declares names, and tells of each one on its own. -/
def Command.Declares : Command → Prop
  | symbols names | states names | finalStates names => names ≠ []
  | _ => False

/-- Whether a piece is answered as the same piece is in other letters. -/
inductive Reply.SameAs (piece : String) : Reply → Reply → Prop
  | same (response : Option String) : SameAs piece (.ok response) (.ok response)
  | declared {c : Command} {response response' : String} :
      Command.parse piece = .ok c → c.Declares → SameLines response response' →
      SameAs piece (.ok (some response)) (.ok (some response'))
  | failed {e e' : Failure} :
      Text.upper e.message = Text.upper e'.message → SameAs piece (.error e) (.error e')

theorem Reply.SameAs.refl (piece : String) (reply : Reply) : SameAs piece reply reply := by
  cases reply with
  | error e => exact .failed rfl
  | ok response => exact .same response

/-- Whether two pieces have the same capitals and are answered alike. -/
structure Exchange.SameAs (x y : Exchange) : Prop where
  piece : Text.upper x.piece = Text.upper y.piece
  reply : Reply.SameAs x.piece x.reply y.reply

/-- Whether two items are the same, up to what they quote of a piece. -/
inductive Item.SameAs : Item → Item → Prop
  | same (item : Item) : SameAs item item
  | response {response response' : String} :
      SameLines response response' → SameAs (.response response) (.response response')
  | failed (line : Nat) {e e' : Failure} :
      Text.upper e.message = Text.upper e'.message → SameAs (.failed line e) (.failed line e')

/-- Whether an item is anything but the remark that the log could not be written. -/
def Item.isNotOfLog : Item → Bool
  | logFailed _ => false
  | _ => true

/-- Whether two sessions have the same machine, go on as each other, and wrote the same, apart from
what lines quote that tell a failure, and from whether the log could be written. -/
structure Session.SameAs (s t : Session) : Prop where
  machine : t.machine = s.machine
  running : t.running = s.running
  settings : t.settings = s.settings
  output : List.Forall₂ Item.SameAs (s.output.filter Item.isNotOfLog)
    (t.output.filter Item.isNotOfLog)

theorem Notice.isLine_message (notice : Notice) : IsLine notice.message := by
  cases notice
  all_goals
    unfold message
    simp +decide [StateName.isLine_toString, Symbol.isLine_toString]

/-! ## Declarations -/

section Declarations

variable {m : Machine} {es es' : List Edit}

theorem isLine_editEachAlone (m : Machine) (h : ∀ e ∈ es, ∀ raw ∈ e.texts, IsLine raw) :
    ∀ line ∈ (Session.editEachAlone m es).2, IsLine line := by
  induction es generalizing m with
  | nil => exact fun line hline => absurd hline List.not_mem_nil
  | cons e es ih =>
    obtain ⟨he, hes⟩ := List.forall_mem_cons.mp h
    rw [Session.editEachAlone]
    cases hedit : m.edit e with
    | error err =>
      have hmessage := Machine.isLine_of_edit hedit he
      exact List.forall_mem_cons.mpr ⟨isLine_append.mpr ⟨by decide, hmessage⟩, ih m hes⟩
    | ok r =>
      obtain ⟨edited, outcome⟩ := r
      intro line hline
      rcases List.mem_append.mp hline with hline | hline
      · obtain ⟨notice, -, rfl⟩ := List.mem_map.mp hline
        exact notice.isLine_message
      · exact ih edited hes line hline

theorem editEachAlone_sameAs (h : es.map Edit.upper = es'.map Edit.upper) :
    (Session.editEachAlone m es').1 = (Session.editEachAlone m es).1 ∧
    List.Forall₂ SameLine (Session.editEachAlone m es).2 (Session.editEachAlone m es').2 := by
  induction es generalizing es' m with
  | nil =>
    cases List.map_eq_nil_iff.mp h.symm
    exact ⟨rfl, .nil⟩
  | cons e es ih =>
    obtain ⟨e', es', rfl, he, hes⟩ := List.map_eq_cons_iff.mp h.symm
    have hedit : (m.edit e).mapError EditError.upper = (m.edit e').mapError EditError.upper := by
      rw [← m.edit_upper, ← m.edit_upper, he]
    rw [Session.editEachAlone, Session.editEachAlone]
    rcases mapError_eq_mapError hedit with ⟨r, hr, hr'⟩ | ⟨err, err', herr, herr', hsame⟩
    · rw [hr, hr']
      obtain ⟨edited, outcome⟩ := r
      obtain ⟨hmachine, hlines⟩ := ih (m := edited) hes.symm
      refine ⟨hmachine, List.rel_append ?_ hlines⟩
      exact List.forall₂_same.mpr (fun line _ => .inl rfl)
    · rw [herr, herr']
      obtain ⟨hmachine, hlines⟩ := ih (m := m) hes.symm
      refine ⟨hmachine, .cons (.inr ⟨_, _, rfl, rfl, ?_⟩) hlines⟩
      rw [← err.upper_message, ← err'.upper_message, hsame]

end Declarations

namespace Session

/-! ## Performing -/

variable {s t : Session}

namespace SameAs

theorem withMachine (h : s.SameAs t) (m : Machine) :
    SameAs { s with machine := m } { t with machine := m } :=
  ⟨rfl, h.running, h.settings, h.output⟩

-- Both declare the same names, and what the lines quote of the others has the same capitals.
theorem declare (h : s.SameAs t) {es es' : List Edit}
    (hsame : es.map Edit.upper = es'.map Edit.upper)
    (hes : ∀ e ∈ es, ∀ raw ∈ e.texts, IsLine raw) (hes' : ∀ e ∈ es', ∀ raw ∈ e.texts, IsLine raw)
    {piece : String} {c : Command} (hparse : Command.parse piece = .ok c) (hc : c.Declares) :
    (s.declare es).1.SameAs (t.declare es').1 ∧
    Reply.SameAs piece (s.declare es).2 (t.declare es').2 := by
  obtain ⟨hmachine, hlines⟩ := editEachAlone_sameAs (m := s.machine) hsame
  have hone := isLine_editEachAlone s.machine hes
  have hother := isLine_editEachAlone s.machine hes'
  unfold Session.declare
  rw [h.machine]
  generalize editEachAlone s.machine es = x at hmachine hlines hone ⊢
  generalize editEachAlone s.machine es' = y at hmachine hlines hother ⊢
  obtain ⟨m, lines⟩ := x
  obtain ⟨m', lines'⟩ := y
  obtain rfl : m' = m := hmachine
  refine ⟨h.withMachine m', ?_⟩
  dsimp only at hlines
  cases hlines with
  | nil => exact .same none
  | cons hline hrest =>
    exact .declared hparse hc ⟨_, _, hone, hother, rfl, rfl, .cons hline hrest⟩

theorem editAll (h : s.SameAs t) {es es' : List Edit}
    (hsame : es.map Edit.upper = es'.map Edit.upper) (piece : String) :
    (s.editAll es).1.SameAs (t.editAll es').1 ∧
    Reply.SameAs piece (s.editAll es).2 (t.editAll es').2 := by
  have hedit : (s.machine.editAll es).mapError EditError.upper =
      (s.machine.editAll es').mapError EditError.upper := by
    rw [← Machine.editAll_map, ← Machine.editAll_map, hsame]
  unfold Session.editAll
  rw [h.machine]
  rcases mapError_eq_mapError hedit with ⟨r, hr, hr'⟩ | ⟨e, e', he, he', hupper⟩
  · rw [hr, hr']
    exact ⟨h.withMachine r.1, .same _⟩
  · rw [he, he']
    refine ⟨h, .failed ?_⟩
    show Text.upper e.message = Text.upper e'.message
    rw [← e.upper_message, ← e'.upper_message, hupper]

theorem declareAll (h : s.SameAs t) {f : String → Edit}
    (hupper : ∀ raw, (f raw).upper = f (Text.upper raw)) (htexts : ∀ raw, (f raw).texts = [raw])
    {names names' : List String} (hnames : names.map Text.upper = names'.map Text.upper)
    (hline : ∀ w ∈ names, IsLine w) (hline' : ∀ w ∈ names', IsLine w)
    {piece : String} {c : Command} (hparse : Command.parse piece = .ok c) (hc : c.Declares) :
    (s.declare (names.map f)).1.SameAs (t.declare (names'.map f)).1 ∧
    Reply.SameAs piece (s.declare (names.map f)).2 (t.declare (names'.map f)).2 := by
  have hmap : ∀ names : List String, (names.map f).map Edit.upper =
      (names.map Text.upper).map f := by
    intro names
    rw [List.map_map, List.map_map]
    exact List.map_congr_left (fun raw _ => hupper raw)
  have hquoted : ∀ names : List String, (∀ w ∈ names, IsLine w) →
      ∀ e ∈ names.map f, ∀ raw ∈ e.texts, IsLine raw := by
    intro names hline e he raw hraw
    obtain ⟨name, hname, rfl⟩ := List.mem_map.mp he
    rw [htexts, List.mem_singleton] at hraw
    rw [hraw]
    exact hline name hname
  exact h.declare (by rw [hmap, hmap, hnames]) (hquoted names hline) (hquoted names' hline')
    hparse hc

end SameAs

theorem runReply_eq {m : Machine} {input input' : String}
    (h : Text.upper input = Text.upper input') : runReply m input' = runReply m input := by
  unfold runReply
  rw [← m.trace_upper input', ← h, m.trace_upper]

-- A command that takes names is a query if it has none, and declares them otherwise.
theorem SameAs.names (h : s.SameAs t) (command : List String → Command) (f : String → Edit)
    (list : Machine → String)
    (hquery : ∀ u : Session, u.perform (fun _ _ => none) (command []) =
      some (u, .ok (some (list u.machine))))
    (hdeclare : ∀ (u : Session) name names, u.perform (fun _ _ => none) (command (name :: names)) =
      some (u.declare ((name :: names).map f)))
    (hupper : ∀ raw, (f raw).upper = f (Text.upper raw)) (htexts : ∀ raw, (f raw).texts = [raw])
    {names names' : List String} (hnames : names.map Text.upper = names'.map Text.upper)
    (hline : ∀ w ∈ names, IsLine w) (hline' : ∀ w ∈ names', IsLine w) {piece : String}
    (hparse : Command.parse piece = .ok (command names))
    (hdeclares : names ≠ [] → (command names).Declares) :
    ∃ p p', s.perform (fun _ _ => none) (command names) = some p ∧
      t.perform (fun _ _ => none) (command names') = some p' ∧
      p.1.SameAs p'.1 ∧ Reply.SameAs piece p.2 p'.2 := by
  cases names with
  | nil =>
    cases List.map_eq_nil_iff.mp hnames.symm
    refine ⟨_, _, hquery s, hquery t, h, ?_⟩
    rw [h.machine]
    exact .same _
  | cons name names =>
    obtain ⟨name', names', rfl, -, -⟩ := List.map_eq_cons_iff.mp hnames.symm
    exact ⟨_, _, hdeclare s name names, hdeclare t name' names',
      h.declareAll hupper htexts hnames hline hline' hparse (hdeclares (List.cons_ne_nil _ _))⟩

/-- A command that asks for no file does the same with arguments in other letters. -/
theorem SameAs.perform (h : s.SameAs t) {c c' : Command} (hc : c.upper = c'.upper)
    (hfree : c.keyword.takesPath = false) (hline : ∀ w ∈ c.arguments, IsLine w)
    (hline' : ∀ w ∈ c'.arguments, IsLine w) {piece : String}
    (hparse : Command.parse piece = .ok c) :
    ∃ p p', s.perform (fun _ _ => none) c = some p ∧ t.perform (fun _ _ => none) c' = some p' ∧
      p.1.SameAs p'.1 ∧ Reply.SameAs piece p.2 p'.2 := by
  cases c with
  | symbols names =>
    cases c' with
    | symbols names' =>
      exact h.names .symbols .addSymbol (fun m => listing m.symbols) (fun _ => rfl)
        (fun _ _ _ => rfl) (fun _ => rfl) (fun _ => rfl) (Command.symbols.inj hc) hline hline'
        hparse id
    | _ => cases hc
  | states names =>
    cases c' with
    | states names' =>
      exact h.names .states .addState (fun m => listing m.states) (fun _ => rfl)
        (fun _ _ _ => rfl) (fun _ => rfl) (fun _ => rfl) (Command.states.inj hc) hline hline'
        hparse id
    | _ => cases hc
  | finalStates names =>
    cases c' with
    | finalStates names' =>
      exact h.names .finalStates .addFinal (fun m => listing m.finals) (fun _ => rfl)
        (fun _ _ _ => rfl) (fun _ => rfl) (fun _ => rfl) (Command.finalStates.inj hc) hline hline'
        hparse id
    | _ => cases hc
  | initialState name =>
    cases c' with
    | initialState name' =>
      have hname : Text.upper name = Text.upper name' := Command.initialState.inj hc
      refine ⟨_, _, rfl, rfl, h.editAll ?_ piece⟩
      exact congrArg (fun raw => [Edit.setInitial raw]) hname
    | _ => cases hc
  | transitions triples =>
    cases c' with
    | transitions triples' =>
      have htriples := Command.transitions.inj hc
      cases triples with
      | nil =>
        cases List.map_eq_nil_iff.mp htriples.symm
        refine ⟨_, _, rfl, rfl, h, ?_⟩
        rw [h.machine]
        exact .same _
      | cons triple triples =>
        have hedits := congrArg (List.map (fun t : Triple =>
          Edit.addTransition t.symbol t.source t.target)) htriples
        obtain ⟨triple', triples', rfl, -, -⟩ := List.map_eq_cons_iff.mp htriples.symm
        refine ⟨_, _, rfl, rfl, h.editAll ?_ piece⟩
        rw [List.map_map, List.map_map] at hedits ⊢
        exact hedits
    | _ => cases hc
  | execute input =>
    cases c' with
    | execute input' =>
      refine ⟨_, _, rfl, rfl, h, ?_⟩
      dsimp only
      rw [h.machine, runReply_eq (Command.execute.inj hc)]
      exact .refl piece _
    | _ => cases hc
  | clear =>
    cases c' with
    | clear => exact ⟨_, _, rfl, rfl, h.withMachine .empty, .same _⟩
    | _ => cases hc
  | exit =>
    cases c' with
    | exit => exact ⟨_, _, rfl, rfl, ⟨h.machine, rfl, h.settings, h.output⟩, .same _⟩
    | _ => cases hc
  | print | compile | load | log => cases hfree

theorem script?_eq_none {c : Command} {piece : String} (hparse : Command.parse piece = .ok c)
    (hfree : c.keyword.takesPath = false) (s : Session) : s.script? piece = none := by
  unfold script?
  rw [hparse]
  cases c with
  | load path => cases hfree
  | _ => rfl

theorem performAtOnce_eq {s : Session} {c : Command} {piece : String} {p : Session × Reply}
    (hparse : Command.parse piece = .ok c) (h : s.perform (fun _ _ => none) c = some p) :
    s.performAtOnce piece = p := by
  unfold performAtOnce performPiece
  rw [hparse]
  dsimp only
  rw [h]
  rfl

/-- A piece that asks for no file runs no script, and is answered as it is in other letters. -/
theorem SameAs.performAtOnce (h : s.SameAs t) {piece piece' : String}
    (hsame : Text.upper piece = Text.upper piece') (hfree : ∀ w ∈ words piece, AsksNoFile w) :
    s.script? piece = none ∧ t.script? piece' = none ∧
    (s.performAtOnce piece).1.SameAs (t.performAtOnce piece').1 ∧
    Reply.SameAs piece (s.performAtOnce piece).2 (t.performAtOnce piece').2 := by
  have hparse : ((Command.parse piece).map Command.upper).mapError CommandError.upper =
      ((Command.parse piece').map Command.upper).mapError CommandError.upper := by
    rw [← Command.parse_upper, ← Command.parse_upper, hsame]
  rcases same_of_images hparse with ⟨c, c', hc, hc', hcommand⟩ | ⟨e, e', he, he', herror⟩
  · have hkeyword : c.keyword.takesPath = false := by
      obtain ⟨head, arguments, hwords, hhead, -⟩ := Command.words_of_parse hc
      have hno := hfree head (by rw [hwords]; exact List.mem_cons_self)
      rw [AsksNoFile, hhead, Option.map_some, ne_eq, Option.some.injEq, Bool.not_eq_true] at hno
      exact hno
    have hkeyword' : c'.keyword = c.keyword := by
      have hupper : ∀ c : Command, c.upper.keyword = c.keyword := by
        intro c
        cases c
        all_goals rfl
      rw [← hupper, ← hcommand, hupper]
    obtain ⟨p, p', hp, hp', hsession, hreply⟩ :=
      h.perform hcommand hkeyword (Command.isLine_arguments hc) (Command.isLine_arguments hc') hc
    rw [performAtOnce_eq hc hp, performAtOnce_eq hc' hp']
    exact ⟨script?_eq_none hc hkeyword s, script?_eq_none hc' (hkeyword'.symm ▸ hkeyword) t,
      hsession, hreply⟩
  · unfold script? Session.performAtOnce performPiece
    rw [he, he']
    refine ⟨rfl, rfl, h, .failed ?_⟩
    show Text.upper e.message = Text.upper e'.message
    rw [← e.upper_message, ← e'.upper_message, herror]

/-! ## Writing -/

theorem answer_output (line : Nat) (piece : String) (s : Session) (reply : Reply) :
    (s.answer line piece reply).output.filter Item.isNotOfLog =
      s.output.filter Item.isNotOfLog ++ (told line reply).filter Item.isNotOfLog := by
  obtain ⟨items, hitems, hanswer⟩ := answer_shown line piece s reply
  have hself := congrArg Session.output (hanswer s.settings s.output 0)
  have houtput : (s.answer line piece reply).output = s.output ++ told line reply ++ items := hself
  have hnone : items.filter Item.isNotOfLog = [] := by
    refine List.filter_eq_nil_iff.mpr (fun item hitem => ?_)
    obtain ⟨e, rfl⟩ := hitems item hitem
    exact Bool.false_ne_true
  rw [houtput, List.filter_append, List.filter_append, hnone, List.append_nil]

namespace SameAs

theorem wrote (h : s.SameAs t) (items : List Item) : (s.wrote items).SameAs (t.wrote items) := by
  refine ⟨h.machine, h.running, h.settings, ?_⟩
  show List.Forall₂ _ ((s.output ++ items).filter _) ((t.output ++ items).filter _)
  rw [List.filter_append, List.filter_append]
  exact List.rel_append h.output (List.forall₂_same.mpr (fun item _ => .same item))

theorem prompt (h : s.SameAs t) (mode : Mode) : (s.prompt mode).SameAs (t.prompt mode) := by
  rw [prompt_eq_wrote, prompt_eq_wrote, h.settings]
  exact h.wrote _

-- The keyword in front of which a semicolon is missing is told in capitals.
theorem announce (h : s.SameAs t) (hsilent : s.settings.echoScript = false) (mode : Mode)
    (line : Nat) (isFirst : Bool) {piece piece' : String}
    (hsame : Text.upper piece = Text.upper piece') :
    (s.announce mode line isFirst piece).SameAs (t.announce mode line isFirst piece') := by
  have hhead : Text.upper ((words piece).headD "") = Text.upper ((words piece').headD "") := by
    have hwords : (words piece).map Text.upper = (words piece').map Text.upper := by
      rw [← words_upper, ← words_upper, hsame]
    have hfirst : ∀ ws : List String, Text.upper (ws.headD "") = (ws.map Text.upper).headD "" := by
      intro ws
      cases ws with
      | nil => rfl
      | cons w ws => rfl
    rw [hfirst, hwords, ← hfirst]
  have hitems : t.announcement mode line isFirst piece' =
      s.announcement mode line isFirst piece := by
    unfold announcement
    rw [h.settings, hsilent, hhead, Bool.and_false, if_neg Bool.false_ne_true,
      if_neg Bool.false_ne_true]
  rw [announce_wrote, announce_wrote, hitems]
  exact h.wrote _

theorem answer (h : s.SameAs t) (line : Nat) {piece piece' : String} {reply reply' : Reply}
    (hreply : Reply.SameAs piece reply reply') :
    (s.answer line piece reply).SameAs (t.answer line piece' reply') := by
  have htold : List.Forall₂ Item.SameAs ((told line reply).filter Item.isNotOfLog)
      ((told line reply').filter Item.isNotOfLog) := by
    cases hreply with
    | same response =>
      cases response with
      | none => exact .nil
      | some response => exact .cons (.same _) .nil
    | declared _ _ hlines => exact .cons (.response hlines) .nil
    | failed he => exact .cons (.failed line he) .nil
  refine ⟨?_, ?_, ?_, ?_⟩
  · rw [answer_eq, answer_eq line piece s]
    exact h.machine
  · rw [answer_running, answer_running]
    exact h.running
  · rw [answer_eq, answer_eq line piece s]
    exact h.settings
  · rw [answer_output, answer_output]
    exact List.rel_append h.output htold

end SameAs

end Session

/-! ## Moments -/

/-- Whether a task is not done anymore after EXIT. -/
def Task.IsDropped : Task → Prop
  | load _ | leave _ _ => False
  | _ => True

theorem Task.IsDropped.next {task : Task} (h : task.IsDropped) {m : Moment} {rest : List Task}
    (hm : m.agenda = task :: rest) (hrunning : m.session.running = false) :
    m.next = some { m with agenda := rest } := by
  cases task with
  | load path => exact h.elim
  | leave caller script => exact h.elim
  | read mode source reader | findings mode findings | pieces mode line isFirst pieces =>
    exact Moment.next_stopped hm hrunning (fun _ heq => by cases heq) rfl

namespace Moment

/-- Whether two moments came to be alike: the same pieces were completed with the same answers. -/
structure Alike (m n : Moment) : Prop where
  session : m.session.SameAs n.session
  silent : m.session.settings.echoScript = false
  done : List.Forall₂ Exchange.SameAs m.done n.done

/-- Whether two moments come to be alike when such tasks are left. -/
def ComeAlike (m n : Moment) (rest rest' : List Task) : Prop :=
  ∃ k l, m.Leads k ∧ n.Leads l ∧ k.agenda = rest ∧ l.agenda = rest' ∧ k.Alike l

variable {m n : Moment} {rest rest' : List Task} {mode : Mode}

theorem ComeAlike.of_next {k l : Moment} (hk : m.next = some k) (hl : n.next = some l)
    (h : k.ComeAlike l rest rest') : m.ComeAlike n rest rest' := by
  obtain ⟨k', l', hk', hl', hrest⟩ := h
  exact ⟨k', l', leads_of_next hk hk', leads_of_next hl hl', hrest⟩

-- One task after the other.
theorem ComeAlike.andThen {middle middle' : List Task} (h : m.ComeAlike n middle middle')
    (hrest : ∀ k l : Moment, k.agenda = middle → l.agenda = middle' → k.Alike l →
      k.ComeAlike l rest rest') : m.ComeAlike n rest rest' := by
  obtain ⟨k, l, hk, hl, hmiddle, hmiddle', halike⟩ := h
  obtain ⟨k', l', hk', hl', hends⟩ := hrest k l hmiddle hmiddle' halike
  exact ⟨k', l', hk.trans hk', hl.trans hl', hends⟩

theorem Alike.dropped (h : m.Alike n) (rest rest' : List Task) :
    ComeAlike { m with agenda := rest } { n with agenda := rest' } rest rest' :=
  ⟨_, _, .refl _, .refl _, rfl, rfl, h.session, h.silent, h.done⟩

-- A task is dropped by both, or done by both.
theorem Alike.comeAlike (h : m.Alike n) {task task' : Task} (hm : m.agenda = task :: rest)
    (hn : n.agenda = task' :: rest') (hdropped : task.IsDropped) (hdropped' : task'.IsDropped)
    (hwork : (m.work task rest).ComeAlike (n.work task' rest') rest rest') :
    m.ComeAlike n rest rest' := by
  cases hrunning : m.session.running with
  | false =>
    have hrunning' : n.session.running = false := h.session.running.trans hrunning
    exact .of_next (hdropped.next hm hrunning) (hdropped'.next hn hrunning') (h.dropped rest rest')
  | true =>
    have hrunning' : n.session.running = true := h.session.running.trans hrunning
    exact .of_next (next_running hm hrunning) (next_running hn hrunning') hwork

theorem comeAlike_pieces {pieces pieces' : List String} {line : Nat} {isFirst : Bool}
    (h : m.Alike n) (hsame : pieces.map Text.upper = pieces'.map Text.upper)
    (hfree : ∀ piece ∈ pieces, ∀ w ∈ words piece, AsksNoFile w)
    (hm : m.agenda = .pieces mode line isFirst pieces :: rest)
    (hn : n.agenda = .pieces mode line isFirst pieces' :: rest') :
    m.ComeAlike n rest rest' := by
  induction pieces generalizing pieces' isFirst m n with
  | nil =>
    cases List.map_eq_nil_iff.mp hsame.symm
    exact h.comeAlike hm hn trivial trivial (h.dropped rest rest')
  | cons piece pieces ih =>
    obtain ⟨piece', pieces', rfl, hpiece, hpieces⟩ := List.map_eq_cons_iff.mp hsame.symm
    obtain ⟨hfirst, hothers⟩ := List.forall_mem_cons.mp hfree
    have hannounce := h.session.announce h.silent mode line isFirst hpiece.symm
    have hsilent : (m.session.announce mode line isFirst piece).settings.echoScript = false := by
      rw [Session.announce_eq]
      exact h.silent
    refine h.comeAlike hm hn trivial trivial ?_
    obtain ⟨hscript, hscript', hperform, hreply⟩ := hannounce.performAtOnce hpiece.symm hfirst
    have hframe := (m.session.announce mode line isFirst piece).performAtOnce_frame piece
    unfold work begin
    dsimp only
    rw [hscript, hscript']
    refine ih ⟨hperform.answer line hreply, ?_, ?_⟩ hpieces.symm hothers rfl rfl
    · show (Session.answer line piece _ _).settings.echoScript = false
      rw [Session.answer_eq, hframe]
      exact hsilent
    · exact List.rel_append h.done (.cons ⟨hpiece.symm, hreply⟩ .nil)

end Moment

/-! ## Reading -/

namespace Language

/-- The pieces of a statement have no words but those of the statement. -/
theorem mem_words_of_mem_piece {text piece w : String} (hpiece : piece ∈ splitStatement text)
    (hw : w ∈ words piece) : w ∈ words text := by
  obtain ⟨ws, hws, rfl⟩ := List.mem_map.mp hpiece
  have hmem : ∀ v ∈ ws, v ∈ words text := by
    intro v hv
    rw [← pieces_flatten (words text)]
    exact List.mem_flatten.mpr ⟨ws, hws, hv⟩
  have hwords : words (unwords ws) = ws :=
    wordsIn_unwords (fun v hv => isWord_of_mem (show v ∈ wordsIn text.toList from hmem v hv))
  rw [hwords] at hw
  exact hmem w hw

end Language

/-- Whether nothing that is found asks for a file. -/
def Finding.NeedsNoFile : Finding → Prop
  | statement st => ∀ w ∈ words st.text, AsksNoFile w
  | remark _ _ => True

namespace Reader

/-- Whether no word that waits asks for a file. -/
def NeedsNoFile (r : Reader) : Prop :=
  ∀ w ∈ r.pending, IsWord w ∧ AsksNoFile w

variable {r : Reader}

theorem needsNoFile_of_close {g : List String} (h : ∀ w ∈ g, IsWord w ∧ AsksNoFile w) (line : Nat)
    (terminated : Bool) : ∀ f ∈ close g line terminated, f.NeedsNoFile := by
  cases g with
  | nil => exact fun f hf => absurd hf List.not_mem_nil
  | cons v vs =>
    intro f hf
    rw [List.mem_singleton.mp hf]
    intro w hw
    have hwords : words (unwords (v :: vs)) = v :: vs := wordsIn_unwords (fun w hw => (h w hw).1)
    rw [hwords] at hw
    exact (h w hw).2

theorem NeedsNoFile.groups (h : r.NeedsNoFile) {cs : List Char}
    (hcs : ∀ w ∈ (between ';' cs).flatten, AsksNoFile w) :
    ∀ g ∈ r.groups cs, ∀ w ∈ g, IsWord w ∧ AsksNoFile w := by
  intro g hg w hw
  have hmem : w ∈ (r.groups cs).flatten := List.mem_flatten.mpr ⟨g, hg, hw⟩
  rw [Reader.groups, flatten_splice _ (between_ne_nil ';' cs), List.flatten_singleton] at hmem
  rcases List.mem_append.mp hmem with hmem | hmem
  · exact h w hmem
  · obtain ⟨words, hwords, hw⟩ := List.mem_flatten.mp hmem
    obtain ⟨part, -, rfl⟩ := List.mem_map.mp hwords
    exact ⟨isWord_of_mem hw, hcs w hmem⟩

-- A line without such words adds none, and closes no statement that has any.
theorem NeedsNoFile.push (h : r.NeedsNoFile) {text : String}
    (htext : ∀ w ∈ (between ';' text.toList).flatten, AsksNoFile w) :
    (r.push text).1.NeedsNoFile ∧ ∀ f ∈ (r.push text).2, f.NeedsNoFile := by
  cases hskips : r.skips text.toList with
  | true =>
    rw [push_of_skips hskips]
    exact ⟨h, fun f hf => absurd hf List.not_mem_nil⟩
  | false =>
    rw [push_of_not_skips hskips]
    have hgroups := h.groups htext
    have hne := r.groups_ne_nil text.toList
    generalize r.groups text.toList = groups at hgroups hne
    refine ⟨?_, fun f hf => ?_⟩
    · show ∀ w ∈ groups.getLastD [], _
      rw [List.getLastD_eq_getLast?, List.getLast?_eq_some_getLast hne]
      exact hgroups _ (List.getLast_mem hne)
    · rcases List.mem_append.mp hf with hf | hf
      · obtain ⟨g, hg, hf⟩ := List.mem_flatMap.mp hf
        exact needsNoFile_of_close (hgroups g (List.mem_of_mem_dropLast hg)) _ _ f hf
      · split at hf
        · rw [List.mem_singleton.mp hf]
          trivial
        · cases hf

theorem NeedsNoFile.finish (h : r.NeedsNoFile) : ∀ f ∈ r.finish.2, f.NeedsNoFile := by
  unfold Reader.finish
  split
  · exact List.forall_mem_cons.mpr ⟨trivial, needsNoFile_of_close h _ _⟩
  · exact fun f hf => absurd hf List.not_mem_nil

end Reader

namespace Moment

variable {m n : Moment} {rest rest' : List Task} {mode : Mode}

theorem comeAlike_findings {fs fs' : List Finding} (h : m.Alike n)
    (hsame : fs.map Finding.upper = fs'.map Finding.upper) (hfree : ∀ f ∈ fs, f.NeedsNoFile)
    (hm : m.agenda = .findings mode fs :: rest) (hn : n.agenda = .findings mode fs' :: rest') :
    m.ComeAlike n rest rest' := by
  induction fs generalizing fs' m n with
  | nil =>
    cases List.map_eq_nil_iff.mp hsame.symm
    exact h.comeAlike hm hn trivial trivial (h.dropped rest rest')
  | cons f fs ih =>
    obtain ⟨f', fs', rfl, hf, hfs⟩ := List.map_eq_cons_iff.mp hsame.symm
    obtain ⟨hfirst, hothers⟩ := List.forall_mem_cons.mp hfree
    refine h.comeAlike hm hn trivial trivial ?_
    cases f with
    | remark line remark =>
      cases f' with
      | statement st => cases hf
      | remark line' remark' =>
        cases hf
        exact ih ⟨h.session.wrote [.remark line remark], h.silent, h.done⟩ hfs.symm hothers rfl rfl
    | statement st =>
      cases f' with
      | remark line remark => cases hf
      | statement st' =>
        have hst : st'.upper = st.upper := Finding.statement.inj hf
        have htext : Text.upper st.text = Text.upper st'.text :=
          (congrArg Statement.text hst).symm
        have hline : st'.upper.line = st.upper.line := congrArg Statement.line hst
        have hpieces : (Language.splitStatement st.text).map Text.upper =
            (Language.splitStatement st'.text).map Text.upper := by
          rw [← Language.splitStatement_upper, ← Language.splitStatement_upper, htext]
        unfold work
        dsimp only
        rw [show st'.line = st.line from hline]
        refine ComeAlike.andThen (comeAlike_pieces ⟨h.session, h.silent, h.done⟩ hpieces
          (fun piece hpiece w hw => hfirst w (Language.mem_words_of_mem_piece hpiece hw))
          rfl rfl) ?_
        exact fun k l hk hl halike => ih halike hfs.symm hothers hk hl

theorem work_read_line {bytes more : List UInt8} {line : List Char} (hne : line ≠ [])
    (hcut : Source.cutLine bytes = (Utf8.encode line, more)) (m : Moment) (mode : Mode)
    (reader : Reader) (rest : List Task) :
    let found := reader.push (String.ofList line)
    m.work (.read mode (.bytes bytes) reader) rest = { m with
      session := m.session.prompt mode
      agenda := .findings mode found.2 :: .read mode (.bytes more) found.1 :: rest } := by
  have htext := Utf8.decodeLossy_encode line
  unfold work
  dsimp only [Source.nextLine]
  rw [hcut]
  cases hbytes : Utf8.encode line with
  | nil => exact absurd hbytes (Utf8.encode_ne_nil hne)
  | cons b bytes =>
    rw [hbytes] at htext
    dsimp only
    rw [htext]

section Reading

variable {cs ds : List Char} {r r' : Reader}

theorem Alike.prompt (h : m.Alike n) (mode : Mode) (tasks tasks' : List Task) :
    Alike { m with session := m.session.prompt mode, agenda := tasks }
      { n with session := n.session.prompt mode, agenda := tasks' } := by
  refine ⟨h.session.prompt mode, ?_, h.done⟩
  show (m.session.prompt mode).settings.echoScript = false
  rw [Session.prompt_eq_wrote]
  exact h.silent

-- One line of each, and then what is left of the sources.
theorem comeAlike_line {bytes bytes' more more' : List UInt8} (h : m.Alike n)
    (hreader : r.upper = r'.upper) (hr : r.NeedsNoFile)
    (hsame : cs.map Char.toUpper = ds.map Char.toUpper) (hne : cs ≠ [])
    (hfree : ∀ w ∈ (between ';' cs).flatten, AsksNoFile w)
    (hcut : Source.cutLine bytes = (Utf8.encode cs, more))
    (hcut' : Source.cutLine bytes' = (Utf8.encode ds, more'))
    (hm : m.agenda = .read mode (.bytes bytes) r :: rest)
    (hn : n.agenda = .read mode (.bytes bytes') r' :: rest')
    (hmore : ∀ {k l : Moment} {reader reader' : Reader}, k.Alike l →
      reader.upper = reader'.upper → reader.NeedsNoFile →
      k.agenda = .read mode (.bytes more) reader :: rest →
      l.agenda = .read mode (.bytes more') reader' :: rest' → k.ComeAlike l rest rest') :
    m.ComeAlike n rest rest' := by
  have hne' : ds ≠ [] := by
    rintro rfl
    exact hne (List.map_eq_nil_iff.mp hsame)
  have htext : Text.upper (String.ofList cs) = Text.upper (String.ofList ds) := by
    rw [upper_ofList, upper_ofList, hsame]
  have hpush : r.upper.push (Text.upper (String.ofList cs)) =
      r'.upper.push (Text.upper (String.ofList ds)) := by
    rw [hreader, htext]
  rw [Reader.push_upper, Reader.push_upper] at hpush
  obtain ⟨hnext, hfound⟩ := Prod.mk.inj hpush
  have hwords : ∀ w ∈ (between ';' (String.ofList cs).toList).flatten, AsksNoFile w := by
    rw [String.toList_ofList]
    exact hfree
  obtain ⟨hpending, hfindings⟩ := hr.push hwords
  refine h.comeAlike hm hn trivial trivial ?_
  rw [work_read_line hne hcut, work_read_line hne' hcut']
  refine ComeAlike.andThen (comeAlike_findings (h.prompt mode _ _) hfound hfindings rfl rfl) ?_
  exact fun k l hk hl halike => hmore halike hnext hpending hk hl

theorem comeAlike_end (h : m.Alike n) (hreader : r.upper = r'.upper) (hr : r.NeedsNoFile)
    (hm : m.agenda = .read mode (.bytes []) r :: rest)
    (hn : n.agenda = .read mode (.bytes []) r' :: rest') : m.ComeAlike n rest rest' := by
  have hfinish : r.finish.2.map Finding.upper = r'.finish.2.map Finding.upper := by
    have heq := congrArg Reader.finish hreader
    rw [Reader.finish_upper, Reader.finish_upper] at heq
    exact (Prod.mk.inj heq).2
  refine h.comeAlike hm hn trivial trivial ?_
  exact comeAlike_findings (h.prompt mode _ _) hfinish hr.finish rfl rfl

theorem lineBreak_mem_map_iff : '\n' ∈ cs.map Char.toUpper ↔ '\n' ∈ cs := by
  rw [List.mem_map]
  constructor
  · rintro ⟨c, hc, hbreak⟩
    have hsame : decide (c.toUpper = '\n') = decide (c = '\n') := separates_toUpper rfl c
    rw [hbreak, decide_eq_true rfl] at hsame
    exact of_decide_eq_true hsame.symm ▸ hc
  · exact fun h => ⟨'\n', h, rfl⟩

-- The texts have their lines at the same places.
theorem comeAlike_read (h : m.Alike n) (hreader : r.upper = r'.upper) (hr : r.NeedsNoFile)
    (hsame : cs.map Char.toUpper = ds.map Char.toUpper)
    (hfree : ∀ w ∈ (between ';' cs).flatten, AsksNoFile w)
    (hm : m.agenda = .read mode (.bytes (Utf8.encode cs)) r :: rest)
    (hn : n.agenda = .read mode (.bytes (Utf8.encode ds)) r' :: rest') :
    m.ComeAlike n rest rest' := by
  have hbreaks : ∀ {part part' : List Char}, (∀ c ∈ part, decide (c = '\n') = false) →
      part.map Char.toUpper = part'.map Char.toUpper → '\n' ∉ part ∧ '\n' ∉ part' := by
    intro part part' hpart hsame
    have hno : '\n' ∉ part := fun hmem => absurd rfl (of_decide_eq_false (hpart '\n' hmem))
    exact ⟨hno, fun hmem => hno (lineBreak_mem_map_iff.mp (hsame ▸ lineBreak_mem_map_iff.mpr hmem))⟩
  induction cs using cut_induction (p := (· = '\n')) generalizing ds m n r r' with
  | last part hpart =>
    obtain ⟨hno, hno'⟩ := hbreaks hpart hsame
    by_cases hne : part = []
    · subst hne
      cases List.map_eq_nil_iff.mp hsame.symm
      exact comeAlike_end h hreader hr hm hn
    · exact comeAlike_line h hreader hr hsame hne hfree
        (Source.cutLine_of_no_break (Source.lineBreak_not_mem hno))
        (Source.cutLine_of_no_break (Source.lineBreak_not_mem hno')) hm hn
        (fun halike hreaders hpending hk hl => comeAlike_end halike hreaders hpending hk hl)
  | cons part s more hpart hs ih =>
    obtain rfl : s = '\n' := of_decide_eq_true hs
    rw [List.map_append, List.map_cons] at hsame
    obtain ⟨part', _, rfl, hpart', hmap⟩ := List.map_eq_append_iff.mp hsame.symm
    obtain ⟨s', more', rfl, hs', hmore⟩ := List.map_eq_cons_iff.mp hmap
    obtain ⟨hno, hno'⟩ := hbreaks hpart hpart'.symm
    obtain rfl : s' = '\n' := by
      have hbreak : '\n' ∈ [s'].map Char.toUpper := List.mem_singleton.mpr hs'.symm
      exact (List.mem_singleton.mp (lineBreak_mem_map_iff.mp hbreak)).symm
    rw [between_append_blank rfl (by decide), flatten_splice _ (between_ne_nil ';' more)] at hfree
    obtain ⟨hfirst, hothers⟩ := List.forall_mem_append.mp hfree
    have hline : ∀ w ∈ (between ';' (part ++ ['\n'])).flatten, AsksNoFile w := by
      rw [between_append_blank rfl (by decide), flatten_splice _ (between_ne_nil ';' []),
        between_of_not_mem List.not_mem_nil]
      exact List.forall_mem_append.mpr ⟨hfirst, fun w hw => absurd hw List.not_mem_nil⟩
    have hlines : (part ++ ['\n']).map Char.toUpper = (part' ++ ['\n']).map Char.toUpper := by
      rw [List.map_append, List.map_append, hpart']
    exact comeAlike_line h hreader hr hlines (List.append_ne_nil_of_right_ne_nil _ (by simp)) hline
      (Source.cutLine_encode hno more) (Source.cutLine_encode hno' more') hm hn
      (fun halike hreaders hpending => ih halike hreaders hpending hmore.symm hothers)

end Reading

end Moment

/-! ## Whole runs -/

namespace Session

/-- Two inputs that have the same capitals do the same in a session without echoes, if no word of
them asks for a file: both runs end, with the same machine, and one was stopped if the other was.
The same pieces are completed, and answered with the same texts or with failures that tell the same
in capitals. Only a declaration answers with lines of its own that quote what it could not read.
What is written is the same as well, but for these quotes and for what befell the log. A run of a
machine does not ask for the case of its input either. -/
theorem run_anyCase {s : Session} (hsilent : s.settings.echoScript = false) (mode : Mode)
    {a b : String} (hsame : Text.upper a = Text.upper b)
    (hfree : ∀ w ∈ (between ';' a.toList).flatten, AsksNoFile w) :
    (∃ m n : Moment,
      (∃ fuel, s.run fuel mode (Utf8.encode a.toList) = some (m.session, .ok ())) ∧
      (Moment.start s [.run mode (Utf8.encode a.toList)]).Leads m ∧ m.agenda = [] ∧
      (∃ fuel, s.run fuel mode (Utf8.encode b.toList) = some (n.session, .ok ())) ∧
      (Moment.start s [.run mode (Utf8.encode b.toList)]).Leads n ∧ n.agenda = [] ∧
      n.session.machine = m.session.machine ∧ n.session.running = m.session.running ∧
      List.Forall₂ Exchange.SameAs m.done n.done ∧
      List.Forall₂ Item.SameAs (m.session.output.filter Item.isNotOfLog)
        (n.session.output.filter Item.isNotOfLog)) ∧
    ∀ (machine : Machine) (x : String), machine.trace (Text.upper x) = machine.trace x := by
  refine ⟨?_, fun machine x => machine.trace_upper x⟩
  have hchars : a.toList.map Char.toUpper = b.toList.map Char.toUpper := by
    rw [← toList_upper, ← toList_upper, hsame]
  have hself : s.SameAs s := ⟨rfl, rfl, rfl, List.forall₂_same.mpr (fun item _ => .same item)⟩
  obtain ⟨m, n, hm, hn, hmlast, hnlast, hsession, -, hdone⟩ :=
    Moment.comeAlike_read (m := Moment.start s [.run mode (Utf8.encode a.toList)])
      (n := Moment.start s [.run mode (Utf8.encode b.toList)])
      ⟨hself, hsilent, .nil⟩ rfl (fun w hw => absurd hw List.not_mem_nil) hchars hfree rfl rfl
  have hends : ∀ {bytes : List UInt8} {k : Moment}, (Moment.start s [.run mode bytes]).Leads k →
      k.agenda = [] → ∃ fuel, s.run fuel mode bytes = some (k.session, .ok ()) := by
    intro bytes k hleads hlast
    obtain ⟨t, done, tasks, result⟩ := k
    cases hlast
    obtain ⟨fuel, hfuel⟩ := Moment.run_iff.mpr ⟨done, hleads⟩
    exact ⟨fuel, result_of_run hfuel ▸ hfuel⟩
  exact ⟨m, n, hends hm hmlast, hm, hmlast, hends hn hnlast, hn, hnlast, hsession.machine,
    hsession.running, hdone, hsession.output⟩

/-- A session without a machine and without echoes. -/
def mute : Session :=
  start { Settings.default with echoScript := false } ⟨.zero, .epoch⟩ (.empty [])

/-- The premises hold of an input with a name that cannot be read, which is quoted in the letters
in which it is written. -/
theorem run_anyCase_mute :
    ∃ fuel fuel' t u,
      mute.run fuel .script (Utf8.encode "Symbols a ab; states p;\nmelt; execute aA;\n".toList) =
        some (t, .ok ()) ∧
      mute.run fuel' .script (Utf8.encode "SYMBOLS A AB; States P;\nMelt; EXECUTE Aa;\n".toList) =
        some (u, .ok ()) ∧
      u.machine = t.machine ∧
      t.output =
        [.response "Error: Invalid symbol 'ab': a symbol must be a single alphanumeric character",
          .failed 2 (.command (.unknownKeyword "melt")),
          .response "P NO\nHalted: no transition for <A,P>"] ∧
      u.output =
        [.response "Error: Invalid symbol 'AB': a symbol must be a single alphanumeric character",
          .failed 2 (.command (.unknownKeyword "Melt")),
          .response "P NO\nHalted: no transition for <A,P>"] := by
  obtain ⟨⟨m, n, ⟨fuel, hfuel⟩, hm, hmlast, ⟨fuel', hfuel'⟩, hn, hnlast, hmachine, -⟩, -⟩ :=
    run_anyCase (s := mute) rfl .script
      (a := "Symbols a ab; states p;\nmelt; execute aA;\n")
      (b := "SYMBOLS A AB; States P;\nMelt; EXECUTE Aa;\n") (by decide +kernel) (by decide +kernel)
  have hone := hm.last_unique (Moment.leads_advance 40 _) (Moment.next_eq_none_iff.mpr hmlast)
    (Moment.next_eq_none_iff.mpr (List.length_eq_zero_iff.mp (by decide +kernel)))
  have hother := hn.last_unique (Moment.leads_advance 40 _) (Moment.next_eq_none_iff.mpr hnlast)
    (Moment.next_eq_none_iff.mpr (List.length_eq_zero_iff.mp (by decide +kernel)))
  refine ⟨fuel, fuel', _, _, hfuel, hfuel', hmachine, ?_, ?_⟩
  · rw [hone]
    decide +kernel
  · rw [hother]
    decide +kernel

end Session

end Statewright
