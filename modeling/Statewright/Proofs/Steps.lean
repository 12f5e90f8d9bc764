import Statewright.Proofs.Moments
import Statewright.Proofs.WellFormed

/-!
# What a step can do

A step from one moment to the next writes something, enters a script, performs a piece, or leaves a
script. What a command can do that runs no script is said once as well: it changes the machine, or
writes a file, or is about the log, or ends the session. Every invariant of runs is derived from
these.
-/

open Statewright.Fallible

namespace Statewright

theorem Log.stop_kept (log : Log) (t : FileTree) : (stop (some log) t).1 = (log.flush t).1 := by
  unfold stop
  dsimp only
  split
  · next hflush => rw [hflush]
  · next hflush => rw [hflush]

namespace Session

/-! ## Commands -/

/-- What a command does to a session that runs no script. -/
inductive Effect (s : Session) : Command → Session × Reply → Prop
  /-- The machine is changed by operations, possibly none. -/
  | machine (c : Command) (hc : ∀ path, c ≠ .log path) (ops : List Operation) (reply : Reply) :
      Effect s c ({ s with machine := s.machine.operateAll ops }, reply)
  | print (path : String) : Effect s (.print (some path)) (s.printTo path)
  | compile (path : String) : Effect s (.compile path) (s.compile path)
  | startLog (path : String) : Effect s (.log (some path)) (s.startLog path)
  | stopLog : Effect s (.log none) (s.stopLog.1, .ok (some s.stopLog.2.message))
  | exit :
      Effect s .exit ({ s.stopLog.1 with running := false }, .ok (some "TERMINATED BY USER"))

/-! Edits are operations, whether they are performed one by one or up to the first failure. -/

theorem exists_operateAll_editEachAlone (m : Machine) (edits : List Edit) :
    ∃ ops, (editEachAlone m edits).1 = m.operateAll ops := by
  refine ⟨edits.map .edit, ?_⟩
  induction edits generalizing m with
  | nil => rfl
  | cons e es ih =>
    show _ = (m.after e).operateAll (es.map .edit)
    rw [← ih, editEachAlone, Machine.after]
    cases m.edit e with
    | error err => rfl
    | ok r => rfl

theorem exists_operateAll_editEach (m : Machine) (edits : List Edit) :
    ∃ ops, (m.editEach edits).1 = m.operateAll ops := by
  induction edits generalizing m with
  | nil => exact ⟨[], rfl⟩
  | cons e es ih =>
    rw [Machine.editEach]
    cases hedit : m.edit e with
    | error err => exact ⟨[], rfl⟩
    | ok r =>
      obtain ⟨ops, hops⟩ := ih r.1
      refine ⟨.edit e :: ops, ?_⟩
      show (r.1.editEach es).1 = (m.after e).operateAll ops
      rw [hops, Machine.after_of_edit hedit]

namespace Effect

variable {s : Session}

theorem unchanged {c : Command} (hc : ∀ path, c ≠ .log path) (reply : Reply) :
    Effect s c (s, reply) :=
  .machine c hc [] reply

theorem declare {c : Command} (hc : ∀ path, c ≠ .log path) (edits : List Edit) :
    Effect s c (s.declare edits) := by
  obtain ⟨ops, hops⟩ := exists_operateAll_editEachAlone s.machine edits
  unfold Session.declare
  cases heach : editEachAlone s.machine edits with
  | mk m lines =>
    rw [heach] at hops
    rw [show m = s.machine.operateAll ops from hops]
    exact .machine c hc ops _

theorem editAll {c : Command} (hc : ∀ path, c ≠ .log path) (edits : List Edit) :
    Effect s c (s.editAll edits) := by
  obtain ⟨ops, hops⟩ := exists_operateAll_editEach s.machine edits
  unfold Session.editAll Machine.editAll
  cases heach : s.machine.editEach edits with
  | mk m result =>
    rw [heach] at hops
    cases result with
    | error e => exact .unchanged hc _
    | ok outcome =>
      rw [show m = s.machine.operateAll ops from hops]
      exact .machine c hc ops _

end Effect

theorem loadAtOnce_effect (s : Session) (path : String) :
    Effect s (.load path) (s.loadAtOnce path) := by
  have hc : ∀ path', Command.load path ≠ .log path' := fun _ h => by cases h
  unfold loadAtOnce load
  cases Format.ofPath? path s.settings.compiledExtension with
  | none =>
    unfold runScript
    cases s.files.openRead path with
    | error e => exact .unchanged hc _
    | ok opened =>
      obtain ⟨location, handle⟩ := opened
      dsimp only
      split
      · exact .unchanged hc _
      · exact .unchanged hc _
  | some format =>
    dsimp only
    cases hload : Snapshot.loadMachine s.files path format with
    | error e => exact .unchanged hc _
    | ok m =>
      obtain ⟨snapshot, -, hrestore⟩ := bind_eq_ok_iff.mp hload
      have hops : m = s.machine.operateAll [.restore snapshot] := by
        show m = s.machine.operate (.restore snapshot)
        rw [Machine.operate, mapError_eq_ok_iff.mp hrestore]
      rw [hops]
      exact .machine _ hc _ _

theorem perform_effect {s : Session} {c : Command} {p : Session × Reply}
    (h : s.perform (fun _ _ => none) c = some p) : Effect s c p := by
  cases c with
  | symbols names | states names | finalStates names =>
    cases names with
    | nil =>
      cases h
      exact .unchanged (fun _ h => by cases h) _
    | cons name names =>
      cases h
      exact .declare (fun _ h => by cases h) _
  | initialState name =>
    cases h
    exact .editAll (fun _ h => by cases h) _
  | transitions triples =>
    cases triples with
    | nil =>
      cases h
      exact .unchanged (fun _ h => by cases h) _
    | cons triple triples =>
      cases h
      exact .editAll (fun _ h => by cases h) _
  | print path =>
    cases path with
    | none =>
      cases h
      exact .unchanged (fun _ h => by cases h) _
    | some path =>
      cases h
      exact .print path
  | compile path =>
    cases h
    exact .compile path
  | load path =>
    have hload := s.loadAtOnce_effect path
    rw [loadAtOnce] at hload
    rw [show s.load (fun _ _ => none) path = some p from h] at hload
    exact hload
  | execute input =>
    cases h
    exact .unchanged (fun _ h => by cases h) _
  | clear =>
    cases h
    exact .machine _ (fun _ h => by cases h) [.clear] _
  | log path =>
    cases path with
    | none =>
      cases h
      exact .stopLog
    | some path =>
      cases h
      exact .startLog path
  | exit =>
    cases h
    exact .exit

theorem performAtOnce_cases (s : Session) (piece : String) :
    (∃ e, Command.parse piece = .error e ∧ s.performAtOnce piece = (s, .error (.command e))) ∨
    ∃ c, Command.parse piece = .ok c ∧ Effect s c (s.performAtOnce piece) := by
  unfold performAtOnce performPiece
  cases Command.parse piece with
  | error e => exact .inl ⟨e, rfl, rfl⟩
  | ok c =>
    refine .inr ⟨c, rfl, ?_⟩
    dsimp only
    cases hperform : s.perform (fun _ _ => none) c with
    | some p => exact perform_effect hperform
    | none =>
      refine .unchanged ?_ _
      rintro (_ | path) rfl
      · cases hperform
      · cases hperform

theorem printTo_eq (s : Session) (path : String) :
    (s.printTo path).1 = { s with files := (s.printTo path).1.files } := by
  unfold printTo
  split
  · rfl
  · rfl

theorem compile_eq (s : Session) (path : String) :
    (s.compile path).1 = { s with
      files := ((Snapshot.capture s.stamp s.machine).save s.files path
        ((Format.ofPath? path s.settings.compiledExtension).getD .binary)).1 } := by
  unfold compile
  dsimp only
  split
  · next hsave => rw [hsave]
  · next hsave => rw [hsave]

theorem startLog_eq (s : Session) (path : String) :
    (s.startLog path).1 = { s with
      files := (Log.start s.log s.files path).1
      log := (Log.start s.log s.files path).2.1 } := by
  unfold startLog
  split
  · next hstart => rw [hstart]
  · next hstart => rw [hstart]

/-- A command keeps the settings, the stamp, the scripts that are being run, and what was
written. -/
theorem Effect.frame {s : Session} {c : Command} {p : Session × Reply} (h : Effect s c p) :
    p.1 = { s with
      machine := p.1.machine
      log := p.1.log
      running := p.1.running
      files := p.1.files } := by
  cases h with
  | machine _ ops reply => rfl
  | print path => rw [printTo_eq]
  | compile path => rw [compile_eq]
  | startLog path => rw [startLog_eq]
  | stopLog => rfl
  | exit => rfl

theorem performAtOnce_frame (s : Session) (piece : String) :
    (s.performAtOnce piece).1 = { s with
      machine := (s.performAtOnce piece).1.machine
      log := (s.performAtOnce piece).1.log
      running := (s.performAtOnce piece).1.running
      files := (s.performAtOnce piece).1.files } := by
  rcases s.performAtOnce_cases piece with ⟨e, -, heq⟩ | ⟨c, -, heffect⟩
  · rw [heq]
  · exact heffect.frame

/-! ## Writing -/

/-- The session after some items were written. -/
def wrote (s : Session) (items : List Item) : Session :=
  { s with output := s.output ++ items }

theorem wrote_nil (s : Session) : s.wrote [] = s := by
  unfold wrote
  rw [List.append_nil]

theorem prompt_wrote (mode : Mode) (s : Session) : ∃ items, s.prompt mode = s.wrote items := by
  unfold prompt
  split
  · exact ⟨_, rfl⟩
  · exact ⟨[], s.wrote_nil.symm⟩

/-- What is written before a piece. -/
def announcement (mode : Mode) (line : Nat) (isFirst : Bool) (s : Session) (piece : String) :
    List Item :=
  (if isFirst then [] else [.semicolonBefore line (Text.upper ((Text.words piece).headD ""))]) ++
    (if mode = .script && s.settings.echoScript then [.echo piece] else [])

theorem announce_wrote (mode : Mode) (line : Nat) (isFirst : Bool) (s : Session)
    (piece : String) :
    s.announce mode line isFirst piece = s.wrote (s.announcement mode line isFirst piece) := by
  have hecho : ∀ t : Session, t.settings = s.settings →
      (if mode = .script && t.settings.echoScript then t.say (.echo piece) else t) =
        t.wrote (if mode = .script && s.settings.echoScript then [.echo piece] else []) := by
    intro t hsettings
    rw [hsettings]
    split
    · rfl
    · exact t.wrote_nil.symm
  cases isFirst with
  | true => exact hecho s rfl
  | false =>
    refine (hecho (s.say _) rfl).trans ?_
    unfold wrote announcement
    rw [← List.append_assoc]
    rfl

theorem record_of_log {s : Session} {log : Log} (h : s.log = some log)
    (statement response : String) :
    s.record statement response = { s with
      files := (log.record s.files statement response).1
      log := some (log.record s.files statement response).2.1
      output := (s.record statement response).output } := by
  unfold record
  rw [h]
  dsimp only
  split
  · next hrecord => rw [hrecord]
  · next hrecord =>
    rw [hrecord]
    rfl

theorem record_of_no_log {s : Session} (h : s.log = none) (statement response : String) :
    s.record statement response = s := by
  unfold record
  rw [h]

-- Where no log is kept, an answer is only written.
theorem answer_of_no_log {s : Session} (h : s.log = none) (line : Nat) (piece : String)
    (reply : Reply) : s.answer line piece reply = s.tell line reply := by
  unfold answer
  split
  · rfl
  · have hnone : (s.tell line reply).log = none := by
      rw [tell_eq]
      exact h
    exact record_of_no_log hnone _ _

theorem tellOutside_eq (s : Session) (reply : Reply) :
    s.tellOutside reply = { s with output := (s.tellOutside reply).output } := by
  match reply with
  | .ok (some response) => rfl
  | .ok none => rfl
  | .error e => rfl

-- Whoever is answered, only the files, the log and what was written can change.
theorem replyTo_eq (s : Session) (caller : Caller) (reply : Reply) :
    s.replyTo caller reply = { s with
      files := (s.replyTo caller reply).files
      log := (s.replyTo caller reply).log
      output := (s.replyTo caller reply).output } := by
  cases caller with
  | piece line text => exact answer_eq line text s reply
  | outside =>
    unfold replyTo
    rw [tellOutside_eq]

theorem replyTo_output (s : Session) (caller : Caller) (reply : Reply) :
    s.output <+: (s.replyTo caller reply).output := by
  cases caller with
  | piece line text => exact output_kept.answer text s reply
  | outside =>
    match reply with
    | .ok (some response) => exact List.prefix_append _ _
    | .ok none => exact List.prefix_rfl
    | .error e => exact List.prefix_append _ _

end Session

/-! ## Steps -/

namespace Moment

/-- What happens from one moment to the next. -/
inductive Turn (m n : Moment) : Prop
  /-- Something may be written, and nothing else is done. -/
  | quiet (items : List Item) (hsession : n.session = m.session.wrote items)
      (hdone : n.done = m.done) (hscripts : n.scripts = m.scripts)
  /-- A script is entered that LOAD runs. -/
  | enter (items : List Item) (script : Script)
      (hscript : m.session.scriptAt? script.path = some script)
      (hsession : n.session = (m.session.wrote items).enter script)
      (hdone : n.done = m.done) (hscripts : n.scripts = script.location :: m.scripts)
  /-- A piece is performed that runs no script. -/
  | perform (items : List Item) (line : Nat) (piece : String) (p : Session × Reply)
      (hpiece : m.upcoming? = some piece)
      (hperform : (m.session.wrote items).performAtOnce piece = p)
      (hsession : n.session = p.1.answer line piece p.2)
      (hdone : n.done = m.done ++ [⟨piece, p.2⟩]) (hscripts : n.scripts = m.scripts)
  /-- A snapshot is loaded outside of any statement, or a script is refused. -/
  | load (path : String) (p : Session × Reply) (hload : m.session.loadAtOnce path = p)
      (hsession : n.session = p.1.tellOutside p.2)
      (hdone : n.done = m.done) (hscripts : n.scripts = m.scripts)
  /-- A script is left, and whoever waits for it is answered. -/
  | leave (caller : Caller) (script : Script)
      (hsession : n.session = m.session.leave.replyTo caller (script.reply m.result))
      (hdone : n.done = m.done ++ caller.exchanges (script.reply m.result))
      (hscripts : m.scripts = script.location :: n.scripts)

theorem scripts_cons {m : Moment} {task : Task} {rest : List Task} (h : m.agenda = task :: rest) :
    m.scripts = (task.script?.map Script.location).toList ++
      (rest.filterMap Task.script?).map Script.location := by
  unfold scripts
  rw [h, List.filterMap_cons]
  cases task.script? with
  | none => rfl
  | some script => rfl

theorem path_of_scriptAt? {s : Session} {path : String} {script : Script}
    (h : s.scriptAt? path = some script) : script.path = path := by
  unfold Session.scriptAt? at h
  split at h
  · cases h
  · split at h
    · cases h
    · split at h
      · cases h
      · cases h
        rfl

theorem turn_of_read {m : Moment} {mode : Mode} {source : Source} {reader : Reader}
    {rest : List Task} (h : m.agenda = .read mode source reader :: rest) :
    m.Turn (m.work (.read mode source reader) rest) := by
  obtain ⟨items, hitems⟩ := m.session.prompt_wrote mode
  have hscripts := scripts_cons h
  unfold work
  dsimp only
  rw [hitems]
  split
  · exact .quiet items rfl rfl hscripts.symm
  · exact .quiet items rfl rfl hscripts.symm
  · exact .quiet items rfl rfl hscripts.symm
  · exact .quiet items rfl rfl hscripts.symm

theorem turn_of_findings {m : Moment} {mode : Mode} {findings : List Finding} {rest : List Task}
    (h : m.agenda = .findings mode findings :: rest) :
    m.Turn (m.work (.findings mode findings) rest) := by
  have hscripts := scripts_cons h
  match findings with
  | [] => exact .quiet [] m.session.wrote_nil.symm rfl hscripts.symm
  | .remark line r :: findings => exact .quiet [.remark line r] rfl rfl hscripts.symm
  | .statement st :: findings => exact .quiet [] m.session.wrote_nil.symm rfl hscripts.symm

theorem turn_of_pieces {m : Moment} {mode : Mode} {line : Nat} {isFirst : Bool}
    {pieces : List String} {rest : List Task}
    (h : m.agenda = .pieces mode line isFirst pieces :: rest)
    (hrunning : m.session.running = true) :
    m.Turn (m.work (.pieces mode line isFirst pieces) rest) := by
  have hscripts := scripts_cons h
  cases pieces with
  | nil => exact .quiet [] m.session.wrote_nil.symm rfl hscripts.symm
  | cons piece pieces =>
    have hitems := m.session.announce_wrote mode line isFirst piece
    generalize m.session.announcement mode line isFirst piece = items at hitems
    have hpiece : m.upcoming? = some piece := by
      unfold upcoming?
      rw [h]
      exact if_pos hrunning
    unfold work begin
    dsimp only
    rw [hitems]
    cases hscript : (m.session.wrote items).script? piece with
    | none => exact .perform items line piece _ hpiece rfl rfl rfl hscripts.symm
    | some script =>
      have hat : m.session.scriptAt? script.path = some script := by
        unfold Session.script? at hscript
        split at hscript
        · rw [path_of_scriptAt? hscript]
          exact hscript
        · cases hscript
      exact .enter items script hat rfl rfl (congrArg (script.location :: ·) hscripts.symm)

theorem turn_of_load {m : Moment} {path : String} {rest : List Task}
    (h : m.agenda = .load path :: rest) : m.Turn (m.work (.load path) rest) := by
  have hscripts := scripts_cons h
  unfold work begin
  dsimp only
  cases hscript : m.session.scriptAt? path with
  | none => exact .load path _ rfl rfl (List.append_nil _) hscripts.symm
  | some script =>
    refine .enter [] script ?_ ?_ rfl (congrArg (script.location :: ·) hscripts.symm)
    · rw [path_of_scriptAt? hscript]
      exact hscript
    · rw [Session.wrote_nil]

theorem turn_of_next {m n : Moment} (h : m.next = some n) : m.Turn n := by
  cases hagenda : m.agenda with
  | nil =>
    rw [next_eq_none_iff.mpr hagenda] at h
    cases h
  | cons task rest =>
    have hscripts := scripts_cons hagenda
    -- A task that is dropped does nothing.
    have hdropped : task.script? = none → m.Turn { m with agenda := rest } := by
      intro htask
      rw [htask] at hscripts
      exact .quiet [] m.session.wrote_nil.symm rfl hscripts.symm
    unfold next at h
    rw [hagenda] at h
    cases task with
    | load path =>
      cases h
      exact turn_of_load hagenda
    | leave caller script =>
      cases h
      exact .leave caller script rfl rfl hscripts
    | read mode source reader =>
      cases h
      split
      · exact turn_of_read hagenda
      · exact hdropped rfl
    | findings mode findings =>
      cases h
      split
      · exact turn_of_findings hagenda
      · exact hdropped rfl
    | pieces mode line isFirst pieces =>
      cases h
      split
      · next hrunning => exact turn_of_pieces hagenda hrunning
      · exact hdropped rfl

theorem upcoming?_eq_some {m : Moment} {piece : String} (h : m.upcoming? = some piece) :
    m.session.running = true ∧ ∃ mode line isFirst pieces rest,
      m.agenda = .pieces mode line isFirst (piece :: pieces) :: rest := by
  unfold upcoming? at h
  split at h
  · next hagenda =>
    split at h
    · next hrunning =>
      cases h
      exact ⟨hrunning, _, _, _, _, _, hagenda⟩
    · cases h
  · cases h

/-! ## What every step keeps -/

theorem Leads.induction {P : Moment → Prop} {m n : Moment} (h : m.Leads n) (hm : P m)
    (hstep : ∀ k k', m.Leads k → P k → k.Turn k' → P k') : P n := by
  induction h with
  | refl => exact hm
  | tail hleads hnext ih => exact hstep _ _ hleads ih (turn_of_next hnext)

theorem Turn.output {m n : Moment} (h : m.Turn n) : m.session.output <+: n.session.output := by
  cases h with
  | quiet items hsession =>
    rw [hsession]
    exact List.prefix_append _ _
  | enter items script _ hsession =>
    rw [hsession]
    exact List.prefix_append _ _
  | perform items line piece p _ hperform hsession =>
    subst hperform
    have hkept : ((m.session.wrote items).performAtOnce piece).1.output =
        (m.session.wrote items).output := by
      rw [Session.performAtOnce_frame]
    rw [hsession]
    refine (List.prefix_append _ items).trans ?_
    show (m.session.wrote items).output <+: _
    rw [← hkept]
    exact Session.output_kept.answer piece _ _
  | load path p hload hsession =>
    subst hload
    have hkept : (m.session.loadAtOnce path).1.output = m.session.output := by
      rw [(m.session.loadAtOnce_effect path).frame]
    rw [hsession, ← hkept]
    exact Session.replyTo_output _ .outside _
  | leave caller script hsession =>
    rw [hsession]
    exact Session.replyTo_output m.session.leave caller _

end Moment

/-- A property of sessions that every command keeps and every entry of the log, whatever is written
and whatever scripts are being run. -/
structure Session.Invariant (P : Session → Prop) : Prop where
  frame {s : Session} (loading : List Location) (output : Transcript) :
    P s → P { s with loading := loading, output := output }
  record {s : Session} (statement response : String) : P s → P (s.record statement response)
  effect {s : Session} {c : Command} {p : Session × Reply} : s.Effect c p → P s → P p.1

namespace Session.Invariant

variable {P : Session → Prop}

theorem replyTo (h : Invariant P) {s : Session} (hs : P s) (caller : Caller) (reply : Reply) :
    P (s.replyTo caller reply) := by
  cases caller with
  | outside =>
    show P (s.tellOutside reply)
    rw [tellOutside_eq]
    exact h.frame _ _ hs
  | piece line text =>
    have htell : P (s.tell line reply) := by
      rw [tell_eq]
      exact h.frame _ _ hs
    show P (s.answer line text reply)
    unfold answer
    split
    · exact htell
    · exact h.record _ _ htell

theorem turn (h : Invariant P) {m n : Moment} (hturn : m.Turn n) (hm : P m.session) :
    P n.session := by
  cases hturn with
  | quiet items hsession =>
    rw [hsession]
    exact h.frame _ _ hm
  | enter items script _ hsession =>
    rw [hsession]
    exact h.frame (s := m.session) _ _ hm
  | perform items line piece p _ hperform hsession =>
    subst hperform
    have hwrote : P (m.session.wrote items) := h.frame _ _ hm
    rw [hsession]
    refine h.replyTo ?_ (.piece line piece) _
    rcases performAtOnce_cases (m.session.wrote items) piece with ⟨e, -, heq⟩ | ⟨c, -, heffect⟩
    · rw [heq]
      exact hwrote
    · exact h.effect heffect hwrote
  | load path p hload hsession =>
    subst hload
    rw [hsession]
    exact h.replyTo (h.effect (m.session.loadAtOnce_effect path) hm) .outside _
  | leave caller script hsession =>
    rw [hsession]
    exact h.replyTo (h.frame _ _ hm) caller _

theorem leads (h : Invariant P) {m n : Moment} (hleads : m.Leads n) (hm : P m.session) :
    P n.session :=
  hleads.induction hm (fun _ _ _ hk hturn => h.turn hturn hk)

theorem atRest (h : Invariant P)
    (hstart : ∀ settings stamp files, P (Session.start settings stamp files)) {s : Session}
    (hs : s.AtRest) : P s :=
  hs.induction hstart (fun _ _ _ _ hk hleads => h.leads hleads hk)

end Session.Invariant

end Statewright
