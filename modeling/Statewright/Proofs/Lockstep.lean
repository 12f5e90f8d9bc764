import Statewright.Proofs.Shown

/-!
# Runs in lockstep

How a run is shown does not matter to what it does. Two runs of the same input that differ in mode,
prompt and echo, or in the numbers that their lines are counted by, take the same steps: after each
of them the machine, the log and the files are the same, and so is what was written, up to prompts
and echoes and to the numbers of the lines.
-/

namespace Statewright

/-! ## Two ways to show a run -/

/-- What is written before a line is read. -/
def Mode.prompts (mode : Mode) (settings : Settings) : List Item :=
  if mode = .interactive then [.prompt settings.prompt] else []

/-- What is written before a piece is performed, apart from remarks. -/
def Mode.echoes (mode : Mode) (settings : Settings) (piece : String) : List Item :=
  if mode = .script && settings.echoScript then [.echo piece] else []

theorem Session.prompt_eq_wrote (mode : Mode) (s : Session) :
    s.prompt mode = s.wrote (mode.prompts s.settings) := by
  unfold prompt Mode.prompts
  split
  · rfl
  · exact s.wrote_nil.symm

/-- Whether prompts and echoes are the same in two modes and settings, as far as items are
compared. -/
structure SameShown (keep : Item → Bool) (mode : Mode) (settings : Settings) (mode' : Mode)
    (settings' : Settings) : Prop where
  prompts : (mode'.prompts settings').filter keep = (mode.prompts settings).filter keep
  echoes (piece : String) :
    (mode'.echoes settings' piece).filter keep = (mode.echoes settings piece).filter keep

/-- How a second run differs from a first one in what it shows. -/
structure Presentation where
  settings : Settings
  settings' : Settings
  extension : settings'.compiledExtension = settings.compiledExtension
  /-- The mode of the second run for a mode of the first, outside of scripts. -/
  mode : Mode → Mode
  /-- By how much the lines outside of scripts are numbered higher in the second run. -/
  ahead : Nat
  /-- The items that are compared. -/
  keep : Item → Bool
  keep_shift (n : Nat) (item : Item) : keep (item.shift n) = keep item
  outside (m : Mode) : SameShown keep m settings (mode m) settings'
  inside (m : Mode) : SameShown keep m settings m settings'

namespace Presentation

/-- Scripts are run in the same mode and their lines are counted the same. -/
def inner (p : Presentation) : Presentation :=
  { p with mode := id, ahead := 0, outside := p.inside }

/-- The task of the second run for one of the first. -/
def task (p : Presentation) : Task → Task
  | .read mode source reader => .read (p.mode mode) source (reader.shift p.ahead)
  | .findings mode findings => .findings (p.mode mode) (findings.map (Finding.shift p.ahead))
  | .pieces mode line isFirst pieces => .pieces (p.mode mode) (line + p.ahead) isFirst pieces
  | .load path => .load path
  | .leave caller script => .leave (caller.shift p.ahead) script

/-- How a task is shown with others behind it: within a script if one of them leaves it. -/
def before (p : Presentation) (rest : List Task) : Presentation :=
  if rest.any (fun task => task.script?.isSome) then p.inner else p

def agenda (p : Presentation) : List Task → List Task
  | [] => []
  | task :: rest => (p.before rest).task task :: p.agenda rest

variable (p : Presentation) {rest : List Task}

theorem inner_task (task : Task) : p.inner.task task = task := by
  cases task with
  | read mode source reader => rfl
  | findings mode findings =>
    show Task.findings mode (findings.map (Finding.shift 0)) = _
    rw [List.map_congr_left (g := id) (fun finding _ => finding.shift_zero), List.map_id]
  | pieces mode line isFirst pieces => rfl
  | load path => rfl
  | leave caller script => exact congrArg (Task.leave · script) caller.shift_zero

theorem before_eq_or (rest : List Task) : p.before rest = p ∨ p.before rest = p.inner := by
  unfold before
  split
  · exact .inr rfl
  · exact .inl rfl

@[simp]
theorem before_settings : (p.before rest).settings = p.settings := by
  rcases p.before_eq_or rest with h | h
  · rw [h]
  · rw [h]
    rfl

@[simp]
theorem before_settings' : (p.before rest).settings' = p.settings' := by
  rcases p.before_eq_or rest with h | h
  · rw [h]
  · rw [h]
    rfl

@[simp]
theorem before_keep : (p.before rest).keep = p.keep := by
  rcases p.before_eq_or rest with h | h
  · rw [h]
  · rw [h]
    rfl

-- Before a task that leaves a script is the script.
theorem agenda_cons_leave (front : Task) (caller : Caller) (script : Script) :
    p.agenda (front :: .leave caller script :: rest) =
      front :: p.agenda (.leave caller script :: rest) := by
  have hbefore : p.before (.leave caller script :: rest) = p.inner := rfl
  rw [agenda, hbefore, inner_task]

theorem agenda_cons_of_plain {task : Task} (h : task.script? = none) (front : Task) :
    p.agenda (front :: task :: rest) = (p.before rest).task front :: p.agenda (task :: rest) := by
  have hbefore : p.before (task :: rest) = p.before rest := by
    unfold before
    rw [List.any_cons, h, Option.isSome_none, Bool.false_or]
  rw [agenda, hbefore]

/-- Whether two moments are the same but for what is shown. -/
structure Abreast (p : Presentation) (m m' : Moment) : Prop where
  settings : m.session.settings = p.settings
  session : ∃ output, m'.session = m.session.shown p.settings' output
  agenda : m'.agenda = p.agenda m.agenda
  result : m'.result = m.result

/-- Whether what was written is the same, as far as items are compared. -/
def Matches (p : Presentation) (items items' : List Item) : Prop :=
  items'.filter p.keep = (items.filter p.keep).map (Item.shift p.ahead)

end Presentation


/-! ## A step of both runs -/

namespace Presentation

variable {q : Presentation} {items items' : List Item}

theorem matches_nil (q : Presentation) : q.Matches [] [] :=
  rfl

theorem Matches.append {others others' : List Item} (h : q.Matches items items')
    (hothers : q.Matches others others') : q.Matches (items ++ others) (items' ++ others') := by
  unfold Matches at *
  rw [List.filter_append, List.filter_append, List.map_append, h, hothers]

/-- Items that are written by both runs, but for the numbers of the lines. -/
theorem matches_shift (q : Presentation) (items : List Item) :
    q.Matches items (items.map (Item.shift q.ahead)) := by
  unfold Matches
  rw [List.filter_map]
  exact congrArg _ (List.filter_congr (fun item _ => q.keep_shift q.ahead item))

-- Items that name no line are compared as they are.
theorem matches_of_filter_eq (hfixed : ∀ item ∈ items, item.shift q.ahead = item)
    (h : items'.filter q.keep = items.filter q.keep) : q.Matches items items' := by
  unfold Matches
  rw [h]
  refine (List.map_id _).symm.trans (List.map_congr_left (fun item hitem => ?_))
  exact (hfixed item (List.mem_filter.mp hitem).1).symm

theorem matches_prompts (q : Presentation) (mode : Mode) :
    q.Matches (mode.prompts q.settings) ((q.mode mode).prompts q.settings') := by
  refine matches_of_filter_eq ?_ (q.outside mode).prompts
  intro item hitem
  unfold Mode.prompts at hitem
  split at hitem
  · rw [List.mem_singleton.mp hitem]
    rfl
  · cases hitem

theorem matches_echoes (q : Presentation) (mode : Mode) (piece : String) :
    q.Matches (mode.echoes q.settings piece) ((q.mode mode).echoes q.settings' piece) := by
  refine matches_of_filter_eq ?_ ((q.outside mode).echoes piece)
  intro item hitem
  unfold Mode.echoes at hitem
  split at hitem
  · rw [List.mem_singleton.mp hitem]
    rfl
  · cases hitem

theorem matches_announcement (q : Presentation) (mode : Mode) (line : Nat) (isFirst : Bool)
    {s s' : Session} (h : s.settings = q.settings) (h' : s'.settings = q.settings')
    (piece : String) :
    q.Matches (s.announcement mode line isFirst piece)
      (s'.announcement (q.mode mode) (line + q.ahead) isFirst piece) := by
  unfold Session.announcement
  rw [h, h']
  refine Matches.append ?_ (q.matches_echoes mode piece)
  cases isFirst with
  | true => exact q.matches_nil
  | false => exact q.matches_shift [_]

/-- What both runs do in one step: they are the same again, and what they wrote is. -/
structure Pace (p q : Presentation) (m m' k k' : Moment) : Prop where
  abreast : p.Abreast k k'
  written : ∃ items items', k.session.output = m.session.output ++ items ∧
    k'.session.output = m'.session.output ++ items' ∧ q.Matches items items'

variable {p : Presentation} {m m' : Moment} {rest : List Task}

theorem Abreast.running (h : p.Abreast m m') : m'.session.running = m.session.running := by
  obtain ⟨output, hsession⟩ := h.session
  rw [hsession]
  rfl

theorem Abreast.settings' (h : p.Abreast m m') : m'.session.settings = p.settings' := by
  obtain ⟨output, hsession⟩ := h.session
  rw [hsession]
  rfl

-- Both runs only write something, and have others to do.
theorem Abreast.wrote (h : p.Abreast m m') (hmatches : q.Matches items items') {k k' : Moment}
    (hsession : k.session = m.session.wrote items)
    (hsession' : k'.session = m'.session.wrote items')
    (hagenda : k'.agenda = p.agenda k.agenda) (hresult : k'.result = k.result) :
    p.Pace q m m' k k' := by
  obtain ⟨output, houtput⟩ := h.session
  refine ⟨⟨?_, ⟨output ++ items', ?_⟩, hagenda, hresult⟩, items, items', ?_, ?_, hmatches⟩
  · rw [hsession]
    exact h.settings
  · rw [hsession', houtput, hsession]
    rfl
  · rw [hsession]
    rfl
  · rw [hsession']
    rfl

theorem Abreast.read (h : p.Abreast m m') (mode : Mode) (source : Source) (reader : Reader) :
    p.Pace (p.before rest) m m' (m.work (.read mode source reader) rest)
      (m'.work ((p.before rest).task (.read mode source reader)) (p.agenda rest)) := by
  have hfiles : ∀ mode mode', (m'.session.prompt mode').files = (m.session.prompt mode).files := by
    intro mode mode'
    obtain ⟨output, houtput⟩ := h.session
    rw [Session.prompt_eq_wrote, Session.prompt_eq_wrote, houtput]
    rfl
  have hmatches := (p.before rest).matches_prompts mode
  rw [before_settings, before_settings', ← h.settings, ← h.settings'] at hmatches
  have hprompt := m.session.prompt_eq_wrote mode
  have hprompt' := m'.session.prompt_eq_wrote ((p.before rest).mode mode)
  unfold task Moment.work
  dsimp only
  rw [hfiles mode]
  match source.nextLine (m.session.prompt mode).files with
  | none => exact h.wrote hmatches hprompt hprompt' rfl h.result
  | some (.error e) => exact h.wrote hmatches hprompt hprompt' rfl rfl
  | some (.ok ([], source)) =>
    refine h.wrote hmatches hprompt hprompt' ?_ h.result
    rw [Reader.finish_shift]
    rfl
  | some (.ok (b :: line, source)) =>
    refine h.wrote hmatches hprompt hprompt' ?_ h.result
    dsimp only
    rw [Reader.push_shift, p.agenda_cons_of_plain rfl]
    rfl

theorem Abreast.findings (h : p.Abreast m m') (mode : Mode) (findings : List Finding) :
    p.Pace (p.before rest) m m' (m.work (.findings mode findings) rest)
      (m'.work ((p.before rest).task (.findings mode findings)) (p.agenda rest)) := by
  cases findings with
  | nil =>
    exact h.wrote (matches_nil _) m.session.wrote_nil.symm m'.session.wrote_nil.symm rfl h.result
  | cons finding findings =>
    cases finding with
    | remark line r =>
      exact h.wrote ((p.before rest).matches_shift [.remark line r]) rfl rfl rfl h.result
    | statement st =>
      refine h.wrote (matches_nil _) m.session.wrote_nil.symm m'.session.wrote_nil.symm ?_ h.result
      show _ = p.agenda (.pieces mode st.line true _ :: .findings mode findings :: rest)
      rw [p.agenda_cons_of_plain rfl]
      rfl

-- Both runs complete a command with the same answer.
theorem pace_complete (hmatches : q.Matches items items')
    {t : Session} (ht : t.settings = p.settings) (houtput : t.output = m.session.output ++ items)
    (caller : Caller) (reply : Reply) (rest : List Task) :
    p.Pace q m m' (m.complete caller t reply rest)
      (m'.complete (caller.shift q.ahead)
        (t.shown p.settings' (m'.session.output ++ items')) reply (p.agenda rest)) := by
  obtain ⟨others, hothers, hshown⟩ := t.replyTo_shown caller reply
  refine ⟨⟨?_, ⟨_, hshown _ _ _⟩, rfl, rfl⟩, items ++ others, _, ?_, ?_,
    hmatches.append (q.matches_shift others)⟩
  · show (t.replyTo caller reply).settings = _
    rw [Session.replyTo_eq]
    exact ht
  · show (t.replyTo caller reply).output = _
    rw [hothers, houtput, List.append_assoc]
  · show Session.output (Session.replyTo _ _ _) = _
    rw [hshown, List.append_assoc]
    rfl

-- Both runs begin the same command: they enter the same script, or complete it at once.
theorem Abreast.begin (h : p.Abreast m m') (rest : List Task)
    (hmatches : (p.before rest).Matches items items') (caller : Caller) (script? : Option Script)
    (atOnce : Session × Reply) (hsettings : atOnce.1.settings = p.settings)
    (houtput : atOnce.1.output = m.session.output ++ items) :
    p.Pace (p.before rest) m m'
      (m.begin caller (m.session.wrote items) script? atOnce rest)
      (m'.begin (caller.shift (p.before rest).ahead) (m'.session.wrote items') script?
        (atOnce.1.shown p.settings' (m'.session.output ++ items'), atOnce.2) (p.agenda rest)) := by
  cases script? with
  | none => exact pace_complete hmatches hsettings houtput caller atOnce.2 rest
  | some script =>
    obtain ⟨output, hsession⟩ := h.session
    refine ⟨⟨h.settings, ⟨output ++ items', ?_⟩, ?_, h.result⟩, items, items', rfl, rfl,
      hmatches⟩
    · show ((m'.session.wrote items').enter script) = _
      rw [hsession]
      rfl
    · exact (p.agenda_cons_leave _ caller script).symm

theorem Abreast.pieces (h : p.Abreast m m') (mode : Mode) (line : Nat) (isFirst : Bool)
    (pieces : List String) :
    p.Pace (p.before rest) m m' (m.work (.pieces mode line isFirst pieces) rest)
      (m'.work ((p.before rest).task (.pieces mode line isFirst pieces)) (p.agenda rest)) := by
  cases pieces with
  | nil =>
    exact h.wrote (matches_nil _) m.session.wrote_nil.symm m'.session.wrote_nil.symm rfl h.result
  | cons piece pieces =>
    have hmatches := (p.before rest).matches_announcement mode line isFirst
      (h.settings.trans p.before_settings.symm) (h.settings'.trans p.before_settings'.symm) piece
    have hannounce := m.session.announce_wrote mode line isFirst piece
    have hannounce' := m'.session.announce_wrote ((p.before rest).mode mode)
      (line + (p.before rest).ahead) isFirst piece
    generalize m.session.announcement mode line isFirst piece = items at hmatches hannounce
    generalize m'.session.announcement _ _ _ _ = items' at hmatches hannounce'
    -- The second session is the first one, but for what it wrote.
    have hshown : m'.session.wrote items' =
        (m.session.wrote items).shown p.settings' (m'.session.output ++ items') := by
      obtain ⟨output, hsession⟩ := h.session
      rw [hsession]
      rfl
    have hextension : p.settings'.compiledExtension =
        (m.session.wrote items).settings.compiledExtension :=
      p.extension.trans (congrArg Settings.compiledExtension h.settings.symm)
    have hframe := (m.session.wrote items).performAtOnce_frame piece
    have hbegin := h.begin (.pieces mode line false pieces :: rest) hmatches (.piece line piece)
      ((m.session.wrote items).script? piece) ((m.session.wrote items).performAtOnce piece)
      (hframe ▸ h.settings) (hframe ▸ rfl)
    unfold task Moment.work
    dsimp only
    rw [hannounce, hannounce', hshown, Session.script?_shown hextension,
      Session.performAtOnce_shown hextension, ← hshown]
    exact hbegin

theorem Abreast.load (h : p.Abreast m m') (path : String) :
    p.Pace (p.before rest) m m' (m.work (.load path) rest)
      (m'.work (.load path) (p.agenda rest)) := by
  have hshown : m'.session = m.session.shown p.settings' m'.session.output := by
    obtain ⟨output, hsession⟩ := h.session
    rw [hsession]
    rfl
  have hextension : p.settings'.compiledExtension = m.session.settings.compiledExtension :=
    p.extension.trans (congrArg Settings.compiledExtension h.settings.symm)
  have hframe := (m.session.loadAtOnce_effect path).frame
  have hbegin := h.begin rest (matches_nil _) .outside (m.session.scriptAt? path)
    (m.session.loadAtOnce path) (hframe ▸ h.settings) (hframe ▸ (List.append_nil _).symm)
  rw [Session.wrote_nil, Session.wrote_nil, List.append_nil] at hbegin
  unfold Moment.work
  dsimp only
  rw [show m'.session.scriptAt? path = m.session.scriptAt? path by
      rw [hshown, Session.scriptAt?_shown hextension],
    show m'.session.loadAtOnce path = ((m.session.loadAtOnce path).1.shown p.settings'
        m'.session.output, (m.session.loadAtOnce path).2) by
      rw [hshown, Session.loadAtOnce_shown hextension]
      rfl]
  exact hbegin

theorem Abreast.leave (h : p.Abreast m m') (caller : Caller) (script : Script) :
    p.Pace (p.before rest) m m' (m.work (.leave caller script) rest)
      (m'.work ((p.before rest).task (.leave caller script)) (p.agenda rest)) := by
  have hcomplete : p.Pace (p.before rest) m m' _ _ :=
    pace_complete (t := m.session.leave) (matches_nil (p.before rest)) h.settings
      (List.append_nil _).symm caller (script.reply m.result) rest
  rw [List.append_nil] at hcomplete
  obtain ⟨output, hsession⟩ := h.session
  unfold task Moment.work
  dsimp only
  rw [h.result]
  rw [show m'.session.leave = m.session.leave.shown p.settings' m'.session.output by
    rw [hsession]; rfl]
  exact hcomplete

/-- Runs that are the same but for what is shown take the same step, or both are over. -/
theorem Abreast.next (h : p.Abreast m m') {k : Moment} (hnext : m.next = some k) :
    ∃ k', m'.next = some k' ∧ p.Pace (p.before m.agenda.tail) m m' k k' := by
  cases hagenda : m.agenda with
  | nil =>
    rw [Moment.next_eq_none_iff.mpr hagenda] at hnext
    cases hnext
  | cons task rest =>
    have hagenda' := h.agenda
    rw [hagenda] at hagenda'
    -- A task that is dropped is dropped by both runs.
    have hdropped : p.Pace (p.before rest) m m' { m with agenda := rest }
        { m' with agenda := p.agenda rest } :=
      h.wrote (matches_nil _) m.session.wrote_nil.symm m'.session.wrote_nil.symm rfl h.result
    have hrunning := h.running
    unfold Moment.next at hnext ⊢
    rw [hagenda] at hnext
    rw [hagenda']
    cases task with
    | load path =>
      cases hnext
      exact ⟨_, rfl, h.load path⟩
    | leave caller script =>
      cases hnext
      exact ⟨_, rfl, h.leave caller script⟩
    | read mode source reader =>
      refine ⟨_, rfl, ?_⟩
      cases hnext
      rw [hrunning]
      split
      · exact h.read mode source reader
      · exact hdropped
    | findings mode findings =>
      refine ⟨_, rfl, ?_⟩
      cases hnext
      rw [hrunning]
      split
      · exact h.findings mode findings
      · exact hdropped
    | pieces mode line isFirst pieces =>
      refine ⟨_, rfl, ?_⟩
      cases hnext
      rw [hrunning]
      split
      · exact h.pieces mode line isFirst pieces
      · exact hdropped
end Presentation

/-! ## Many steps of both runs -/

namespace Moment

/-- Whether the next task is one outside of scripts. -/
def isOutside (m : Moment) : Bool :=
  !m.agenda.tail.any (fun task => task.script?.isSome)

/-- What is written in so many steps, each item with whether it is written outside of scripts. -/
def written : Nat → Moment → List (Bool × Item)
  | 0, _ => []
  | n + 1, m =>
    match m.next with
    | none => []
    | some k =>
      (k.session.output.drop m.session.output.length).map (m.isOutside, ·) ++ k.written n

theorem written_succ {m k : Moment} (h : m.next = some k) {items : List Item}
    (houtput : k.session.output = m.session.output ++ items) (n : Nat) :
    m.written (n + 1) = items.map (m.isOutside, ·) ++ k.written n := by
  rw [written, h]
  dsimp only
  rw [houtput, List.drop_left]

theorem output_advance (n : Nat) (m : Moment) :
    (m.advance n).session.output = m.session.output ++ (m.written n).map Prod.snd := by
  induction n generalizing m with
  | zero => exact (List.append_nil _).symm
  | succ n ih =>
    cases hnext : m.next with
    | none =>
      rw [advance, written, hnext]
      exact (List.append_nil _).symm
    | some k =>
      obtain ⟨items, hitems⟩ := (turn_of_next hnext).output
      rw [advance_succ hnext, ih, written_succ hnext hitems.symm, ← hitems, List.map_append,
        List.map_map, List.append_assoc]
      exact congrArg (fun l => _ ++ (l ++ _)) (List.map_id _).symm

theorem exists_eq_advance {m k : Moment} (h : m.Leads k) : ∃ n, k = m.advance n := by
  induction h using Relation.ReflTransGen.head_induction_on with
  | refl => exact ⟨0, rfl⟩
  | head hnext _ ih =>
    obtain ⟨n, hn⟩ := ih
    exact ⟨n + 1, hn.trans (advance_succ hnext n).symm⟩

/-- A run ends exactly if its tasks come to an end, and then as the session is by then. -/
theorem run_iff_advance {s t : Session} {mode : Mode} {input : List UInt8}
    {result : Except FileError Unit} :
    (∃ fuel, s.run fuel mode input = some (t, result)) ↔
      ∃ n, ((start s [.run mode input]).advance n).agenda = [] ∧
        ((start s [.run mode input]).advance n).session = t ∧
        ((start s [.run mode input]).advance n).result = result := by
  rw [run_iff]
  constructor
  · rintro ⟨done, hleads⟩
    obtain ⟨n, hn⟩ := exists_eq_advance hleads
    exact ⟨n, congrArg agenda hn.symm, congrArg session hn.symm, congrArg Moment.result hn.symm⟩
  · rintro ⟨n, hagenda, rfl, rfl⟩
    refine ⟨((start s [.run mode input]).advance n).done, ?_⟩
    rw [← hagenda]
    exact leads_advance n _

end Moment

namespace Presentation

variable {p : Presentation} {m m' : Moment}

/-- An item of the second run for one of the first. -/
def place (p : Presentation) : Bool × Item → Bool × Item
  | (true, item) => (true, item.shift p.ahead)
  | (false, item) => (false, item)

theorem script?_task (p : Presentation) (task : Task) :
    (p.task task).script? = task.script? := by
  cases task
  all_goals rfl

theorem any_agenda (p : Presentation) (tasks : List Task) :
    (p.agenda tasks).any (fun task => task.script?.isSome) =
      tasks.any (fun task => task.script?.isSome) := by
  induction tasks with
  | nil => rfl
  | cons task rest ih => rw [agenda, List.any_cons, List.any_cons, script?_task, ih]

theorem Abreast.isOutside (h : p.Abreast m m') : m'.isOutside = m.isOutside := by
  unfold Moment.isOutside
  rw [h.agenda]
  cases m.agenda with
  | nil => rfl
  | cons task rest => exact congrArg not (p.any_agenda rest)

-- What is written in one step, marked by where.
theorem Matches.marked {items items' : List Item}
    (h : (p.before m.agenda.tail).Matches items items') :
    (items'.map (m.isOutside, ·)).filter (fun item => p.keep item.2) =
      ((items.map (m.isOutside, ·)).filter (fun item => p.keep item.2)).map p.place := by
  unfold Matches at h
  rw [before_keep] at h
  have hfilter : ∀ items : List Item,
      (items.map (m.isOutside, ·)).filter (fun item => p.keep item.2) =
        (items.filter p.keep).map (m.isOutside, ·) :=
    fun items => List.filter_map
  rw [hfilter, hfilter, h, List.map_map, List.map_map]
  refine List.map_congr_left (fun item _ => ?_)
  unfold before Moment.isOutside
  cases m.agenda.tail.any (fun task => task.script?.isSome) with
  | true => exact congrArg (false, ·) item.shift_zero
  | false => rfl

/-- Runs that are the same but for what is shown stay so, and what they write is the same. -/
theorem Abreast.advance (h : p.Abreast m m') (n : Nat) :
    p.Abreast (m.advance n) (m'.advance n) ∧
      (m'.written n).filter (fun item => p.keep item.2) =
        ((m.written n).filter (fun item => p.keep item.2)).map p.place := by
  induction n generalizing m m' with
  | zero => exact ⟨h, rfl⟩
  | succ n ih =>
    cases hnext : m.next with
    | none =>
      have hnext' : m'.next = none := by
        rw [Moment.next_eq_none_iff, h.agenda, Moment.next_eq_none_iff.mp hnext]
        rfl
      unfold Moment.advance Moment.written
      rw [hnext, hnext']
      exact ⟨h, rfl⟩
    | some k =>
      obtain ⟨k', hnext', hpace⟩ := h.next hnext
      obtain ⟨items, items', hitems, hitems', hmatches⟩ := hpace.written
      obtain ⟨habreast, hwritten⟩ := ih hpace.abreast
      rw [Moment.advance_succ hnext, Moment.advance_succ hnext',
        Moment.written_succ hnext hitems, Moment.written_succ hnext' hitems', h.isOutside]
      refine ⟨habreast, ?_⟩
      rw [List.filter_append, List.filter_append, List.map_append, hwritten, hmatches.marked]

theorem Abreast.ends_iff (h : p.Abreast m m') : m'.agenda = [] ↔ m.agenda = [] := by
  rw [h.agenda]
  cases m.agenda with
  | nil => exact Iff.rfl
  | cons task rest => exact iff_of_false (List.cons_ne_nil _ _) (List.cons_ne_nil _ _)

end Presentation

/-! ## Sessions that are alike -/

/-- Whether an item is neither a prompt nor an echo. -/
def Item.isSubstance : Item → Bool
  | prompt _ => false
  | echo _ => false
  | _ => true

theorem Mode.filter_prompts (mode : Mode) (settings : Settings) :
    (mode.prompts settings).filter Item.isSubstance = [] := by
  unfold prompts
  split
  · rfl
  · rfl

theorem Mode.filter_echoes (mode : Mode) (settings : Settings) (piece : String) :
    (mode.echoes settings piece).filter Item.isSubstance = [] := by
  unfold echoes
  split
  · rfl
  · rfl

theorem sameShown_substance (mode mode' : Mode) (settings settings' : Settings) :
    SameShown Item.isSubstance mode settings mode' settings' where
  prompts := by rw [Mode.filter_prompts, Mode.filter_prompts]
  echoes piece := by rw [Mode.filter_echoes, Mode.filter_echoes]

namespace Session

/-- Whether two sessions are the same but for the settings of what is shown, and for what they
wrote. -/
structure Alike (s t : Session) : Prop where
  machine : t.machine = s.machine
  running : t.running = s.running
  log : t.log = s.log
  loading : t.loading = s.loading
  files : t.files = s.files
  stamp : t.stamp = s.stamp
  extension : t.settings.compiledExtension = s.settings.compiledExtension

/-- Whether two sessions became others that are alike and wrote the same in between, but for prompts
and echoes. -/
structure BecameAlike (s t u v : Session) : Prop where
  alike : u.Alike v
  written : ∃ items items', u.output = s.output ++ items ∧ v.output = t.output ++ items' ∧
    items'.filter Item.isSubstance = items.filter Item.isSubstance

theorem Alike.eq_shown {s t : Session} (h : s.Alike t) : t = s.shown t.settings t.output := by
  unfold shown
  rw [← h.machine, ← h.running, ← h.log, ← h.loading, ← h.files, ← h.stamp]

/-- What the runs of two sessions that are alike show differently. -/
def Alike.presentation {s t : Session} (h : s.Alike t) (mode' : Mode) : Presentation where
  settings := s.settings
  settings' := t.settings
  extension := h.extension
  mode := fun _ => mode'
  ahead := 0
  keep := Item.isSubstance
  keep_shift n item := by
    cases item
    all_goals rfl
  outside m := sameShown_substance m mode' _ _
  inside m := sameShown_substance m m _ _

theorem Alike.abreast {s t : Session} (h : s.Alike t) (mode mode' : Mode) (input : List UInt8) :
    (h.presentation mode').Abreast (Moment.start s [.run mode input])
      (Moment.start t [.run mode' input]) where
  settings := rfl
  session := ⟨t.output, h.eq_shown⟩
  agenda := rfl
  result := rfl

theorem Alike.advance {s t : Session} (h : s.Alike t) (mode mode' : Mode)
    (input : List UInt8) (n : Nat) :
    s.BecameAlike t ((Moment.start s [.run mode input]).advance n).session
      ((Moment.start t [.run mode' input]).advance n).session := by
  obtain ⟨habreast, hwritten⟩ := (h.abreast mode mode' input).advance n
  refine ⟨?_, _, _, Moment.output_advance n _, Moment.output_advance n _, ?_⟩
  · obtain ⟨output, hsession⟩ := habreast.session
    rw [hsession]
    refine ⟨rfl, rfl, rfl, rfl, rfl, rfl, ?_⟩
    rw [habreast.settings]
    exact h.extension
  · -- Nothing is counted from elsewhere, so what is written is placed where it was.
    have hplace : (h.presentation mode').place = id := by
      funext ⟨outside, item⟩
      cases outside with
      | true => exact congrArg (true, ·) item.shift_zero
      | false => rfl
    rw [hplace, List.map_id] at hwritten
    rw [List.filter_map, List.filter_map]
    exact congrArg (List.map Prod.snd) hwritten

/-- Sessions that are alike stay alike at every moment while the same input is run in them, in
whatever modes, and their runs end alike, if they end. What is written differs in prompts and
echoes only, also by the scripts that are loaded. -/
theorem run_alike {s t : Session} (h : s.Alike t) (mode mode' : Mode) (input : List UInt8) :
    (∀ n, s.BecameAlike t ((Moment.start s [.run mode input]).advance n).session
      ((Moment.start t [.run mode' input]).advance n).session) ∧
    (∀ u result, (∃ fuel, s.run fuel mode input = some (u, result)) →
      ∃ v, (∃ fuel, t.run fuel mode' input = some (v, result)) ∧ s.BecameAlike t u v) ∧
    ∀ v result, (∃ fuel, t.run fuel mode' input = some (v, result)) →
      ∃ u, (∃ fuel, s.run fuel mode input = some (u, result)) ∧ s.BecameAlike t u v := by
  have hbecame := h.advance mode mode' input
  have hends := fun n => ((h.abreast mode mode' input).advance n).1.ends_iff
  have hresult := fun n => ((h.abreast mode mode' input).advance n).1.result
  refine ⟨hbecame, fun u result hrun => ?_, fun v result hrun => ?_⟩
  · obtain ⟨n, hagenda, rfl, rfl⟩ := Moment.run_iff_advance.mp hrun
    exact ⟨_, Moment.run_iff_advance.mpr ⟨n, (hends n).mpr hagenda, rfl, hresult n⟩, hbecame n⟩
  · obtain ⟨n, hagenda, rfl, rfl⟩ := Moment.run_iff_advance.mp hrun
    exact ⟨_, Moment.run_iff_advance.mpr ⟨n, (hends n).mp hagenda, rfl, (hresult n).symm⟩,
      hbecame n⟩

/-- A session with a prompt, echoes, and a script in which a semicolon is missing. -/
def chatty : Session :=
  start { Settings.default with prompt := "> " } ⟨.zero, .epoch⟩
    ((FileTree.empty ["home"]).addFile ["home", "inner"]
      (Text.Utf8.encode "STATES a\nFINAL-STATES a; FOO;\n".toList))

/-- The session without prompt and echoes. -/
def taciturn : Session :=
  { chatty with settings := { chatty.settings with prompt := "", echoScript := false } }

/-- Both runs end alike. Prompts and echoes apart, both write the same eight items. -/
theorem run_alike_taciturn :
    let input := Text.Utf8.encode "LOG notes; LOAD inner;\nBAR STATES b".toList
    let u := ((Moment.start chatty [.run .interactive input]).advance 33).session
    u.output.length = 14 ∧ ∃ v, (∃ fuel, taciturn.run fuel .script input = some (v, .ok ())) ∧
      chatty.BecameAlike taciturn u v ∧ v.machine.states.map toString = ["A", "B"] ∧
      (v.output.filter Item.isSubstance).length = 8 := by
  intro input u
  have halike : chatty.Alike taciturn := ⟨rfl, rfl, rfl, rfl, rfl, rfl, rfl⟩
  have hlast : ((Moment.start chatty [.run .interactive input]).advance 33).agenda.length = 0 := by
    decide +kernel
  obtain ⟨fuel, hrun⟩ : ∃ fuel, chatty.run fuel .interactive input = some (u, _) :=
    Moment.run_iff_advance.mpr ⟨33, List.length_eq_zero_iff.mp hlast, rfl, rfl⟩
  have hok := result_of_run hrun
  obtain ⟨-, hends, -⟩ := run_alike halike .interactive .script input
  obtain ⟨v, hrun', hbecame⟩ := hends u _ ⟨fuel, hrun⟩
  obtain ⟨items, items', hitems, hitems', hsame⟩ := hbecame.written
  rw [show chatty.output ++ items = items from rfl] at hitems
  rw [show taciturn.output ++ items' = items' from rfl] at hitems'
  refine ⟨by decide +kernel, v, hok ▸ hrun', hbecame, ?_, ?_⟩
  · rw [hbecame.alike.machine]
    decide +kernel
  · rw [hitems', hsame, ← hitems]
    decide +kernel

end Session

end Statewright
