import Statewright.Proofs.FileUpdate
import Statewright.Proofs.Loading

/-!
# The end of a session

EXIT ends a session however deep in scripts it is. What is left to be done is dropped, and what is
asked of the session later does nothing.
-/

open Statewright.Fallible

namespace Statewright

/-! ## Logs with nothing to write -/

namespace Log

/-- Whether nothing waits to be written that could be. -/
structure Settled (log : Log) : Prop where
  entry : log.handle.entry ≠ .directory
  pending : log.handle.entry = .fullDevice ∨ log.pending = []

theorem Settled.flush {log : Log} (h : log.handle.entry ≠ .directory) (t : FileTree) :
    (log.flush t).2.1.Settled := by
  unfold Log.flush
  split
  · next hwrite =>
    refine ⟨?_, .inr rfl⟩
    show _ ≠ Entry.directory
    rw [FileTree.write_entry hwrite]
    exact h
  · next e hwrite =>
    refine ⟨h, .inl ?_⟩
    unfold FileTree.write at hwrite
    split at hwrite
    · cases hwrite
    · split at hwrite
      · next hentry => exact absurd hentry h
      · next hentry => exact hentry
      · cases hwrite

/-- A log that is settled is closed without a change to any file. -/
theorem Settled.stop {log : Log} (h : log.Settled) (t : FileTree) :
    (Log.stop (some log) t).1 = t := by
  rw [Log.stop_kept]
  unfold Log.flush FileTree.write
  rcases h.pending with hdevice | hpending
  · rw [hdevice]
    cases log.pending with
    | nil => rfl
    | cons b bytes => rfl
  · rw [hpending]

theorem stop_of_settled {log : Option Log} (h : ∀ kept, log = some kept → kept.Settled)
    (t : FileTree) : (stop log t).1 = t := by
  cases log with
  | none => rfl
  | some kept => exact (h kept rfl).stop t

theorem openWrite_entry {t u : FileTree} {raw : String} {handle : FileTree.Handle}
    (h : t.openWrite raw = .ok (u, handle)) : handle.entry ≠ .directory := by
  obtain ⟨l, -, h⟩ := FileTree.exists_openAt h
  unfold FileTree.openAt at h
  split at h
  · cases h
  · cases h
    exact fun h => by cases h
  · cases h
    exact fun h => by cases h
  · cases h
    exact fun h => by cases h

theorem settled_of_start {old : Option Log} {log : Log} {t : FileTree} {path : String}
    (h : (start old t path).2.1 = some log) : log.Settled := by
  unfold start at h
  dsimp only at h
  split at h
  · next hopen =>
    cases h
    exact ⟨openWrite_entry hopen, .inr rfl⟩
  · cases h

end Log

namespace Session

/-- Whether the log that is kept, if one is, is settled. -/
def Settled (s : Session) : Prop :=
  ∀ log, s.log = some log → log.Settled

variable {s : Session}

theorem Settled.stopLog (h : s.Settled) : s.stopLog.1.files = s.files :=
  Log.stop_of_settled h s.files

theorem settled_invariant : Invariant Settled where
  frame _ _ h := h
  record {s} statement response h := by
    cases hlog : s.log with
    | none =>
      rw [record_of_no_log hlog]
      exact h
    | some log =>
      rw [record_of_log hlog]
      intro log' hlog'
      cases hlog'
      refine Log.Settled.flush ?_ s.files
      exact (h log hlog).entry
  effect {s} c p heffect h := by
    cases heffect with
    | machine _ _ ops reply => exact h
    | print path =>
      rw [printTo_eq]
      exact h
    | compile path =>
      rw [compile_eq]
      exact h
    | startLog path =>
      rw [startLog_eq]
      exact fun log hlog => Log.settled_of_start hlog
    | stopLog =>
      intro log hlog
      cases hlog
    | exit =>
      intro log hlog
      cases hlog

end Session

namespace Moment

/-! ## The step of EXIT -/

/-- EXIT closes the log and ends the session, and its answer is written after what comes before
every piece. -/
theorem next_of_exit {m : Moment} {piece : String} (hpiece : m.upcoming? = some piece)
    (hexit : Command.parse piece = .ok .exit) :
    ∃ mode line isFirst pieces rest,
      m.agenda = .pieces mode line isFirst (piece :: pieces) :: rest ∧
      m.next = some {
        session := { m.session with
          files := m.session.stopLog.1.files
          log := none
          running := false
          output := m.session.output ++ m.session.announcement mode line isFirst piece ++
            [.response "TERMINATED BY USER"] }
        done := m.done ++ [⟨piece, .ok (some "TERMINATED BY USER")⟩]
        agenda := .pieces mode line false pieces :: rest
        result := .ok () } := by
  obtain ⟨hrunning, mode, line, isFirst, pieces, rest, hagenda⟩ := upcoming?_eq_some hpiece
  refine ⟨mode, line, isFirst, pieces, rest, hagenda, ?_⟩
  rw [next_running hagenda hrunning]
  unfold work begin
  dsimp only
  rw [Session.announce_wrote]
  generalize m.session.announcement mode line isFirst piece = items
  have hscript : (m.session.wrote items).script? piece = none := by
    unfold Session.script?
    rw [hexit]
  have hperform : (m.session.wrote items).performAtOnce piece =
      ({ (m.session.wrote items).stopLog.1 with running := false },
        .ok (some "TERMINATED BY USER")) := by
    unfold Session.performAtOnce Session.performPiece
    rw [hexit]
    rfl
  rw [hscript, hperform]
  unfold complete Session.replyTo
  dsimp only
  rw [Session.answer_of_no_log rfl]
  rfl

/-! ## What is left to be done -/

/-- Whether a script is left next that a piece asked for, or all is done. -/
def Ended : List Task → Prop
  | [] => True
  | .leave (.piece _ _) _ :: _ => True
  | _ => False

/-- Whether tasks are those within a run: behind what is read of a script the script is left, and
nothing is asked for from outside. -/
def Nested : List Task → Prop
  | [] => True
  | .read _ _ _ :: rest => Ended rest ∧ Nested rest
  | .findings _ _ :: rest => Nested rest
  | .pieces _ _ _ _ :: rest => Nested rest
  | .load _ :: _ => False
  | .leave .outside _ :: _ => False
  | .leave (.piece _ _) _ :: rest => Nested rest

/-- Whether the tasks are those within a run, and a source that failed is left next. -/
structure Inside (m : Moment) : Prop where
  nested : Nested m.agenda
  result : m.result = .ok () ∨ Ended m.agenda

theorem Inside.work {m : Moment} {task : Task} {rest : List Task} (h : m.Inside)
    (hagenda : m.agenda = task :: rest) : (m.work task rest).Inside := by
  obtain ⟨hnested, hresult⟩ := h
  rw [hagenda] at hnested hresult
  cases task with
  | load path => exact hnested.elim
  | leave caller script =>
    cases caller with
    | outside => exact hnested.elim
    | piece line text => exact ⟨hnested, .inl rfl⟩
  | read mode source reader =>
    have hok : m.result = .ok () := hresult.resolve_right id
    unfold Moment.work
    dsimp only
    split
    · exact ⟨hnested, .inl hok⟩
    · exact ⟨hnested.2, .inr hnested.1⟩
    · exact ⟨hnested.2, .inl hok⟩
    · exact ⟨hnested, .inl hok⟩
  | findings mode findings =>
    have hok : m.result = .ok () := hresult.resolve_right id
    match findings with
    | [] => exact ⟨hnested, .inl hok⟩
    | .remark line r :: findings => exact ⟨hnested, .inl hok⟩
    | .statement st :: findings => exact ⟨hnested, .inl hok⟩
  | pieces mode line isFirst pieces =>
    have hok : m.result = .ok () := hresult.resolve_right id
    cases pieces with
    | nil => exact ⟨hnested, .inl hok⟩
    | cons piece pieces =>
      unfold Moment.work begin
      dsimp only
      split
      · exact ⟨⟨trivial, hnested⟩, .inl hok⟩
      · exact ⟨hnested, .inl rfl⟩

theorem Inside.drop {m : Moment} {task : Task} {rest : List Task} (h : m.Inside)
    (hagenda : m.agenda = task :: rest) (hleave : task.script? = none) :
    ({ m with agenda := rest } : Moment).Inside := by
  obtain ⟨hnested, hresult⟩ := h
  rw [hagenda] at hnested hresult
  cases task with
  | load path => exact hnested.elim
  | leave caller script => cases hleave
  | read mode source reader => exact ⟨hnested.2, .inl (hresult.resolve_right id)⟩
  | findings mode findings => exact ⟨hnested, .inl (hresult.resolve_right id)⟩
  | pieces mode line isFirst pieces => exact ⟨hnested, .inl (hresult.resolve_right id)⟩

theorem Inside.next {m n : Moment} (h : m.Inside) (hnext : m.next = some n) : n.Inside := by
  cases hagenda : m.agenda with
  | nil =>
    rw [next_eq_none_iff.mpr hagenda] at hnext
    cases hnext
  | cons task rest =>
    unfold Moment.next at hnext
    rw [hagenda] at hnext
    cases task with
    | load path | leave caller script =>
      cases hnext
      exact h.work hagenda
    | read mode source reader | findings mode findings | pieces mode line isFirst pieces =>
      cases hnext
      split
      · exact h.work hagenda
      · exact h.drop hagenda rfl

theorem Inside.leads {m n : Moment} (h : m.Inside) (hleads : m.Leads n) : n.Inside := by
  induction hleads with
  | refl => exact h
  | tail _ hnext ih => exact ih.next hnext

/-! ## After the end -/

/-- Whether a session has ended as another one, but for the scripts that are yet to be left. -/
structure Over (t : Session) (m : Moment) : Prop where
  session : m.session = { t with loading := m.session.loading }
  inside : m.Inside
  result : m.result = .ok ()

namespace Over

variable {t : Session} {m : Moment}

-- A task is dropped, or a script is left and nothing said of it.
theorem next (h : m.Over t) (hrunning : t.running = false) (hlog : t.log = none) {task : Task}
    {rest : List Task} (hagenda : m.agenda = task :: rest) :
    ∃ n, m.next = some n ∧ n.Over t ∧ n.agenda = rest := by
  have hstopped : m.session.running = false := by
    rw [h.session]
    exact hrunning
  have hinside := h.inside
  have hnested := hinside.nested
  rw [hagenda] at hnested
  cases task with
  | load path => exact hnested.elim
  | leave caller script =>
    cases caller with
    | outside => exact hnested.elim
    | piece line text =>
      have hnext : m.next = some (m.work (.leave (.piece line text) script) rest) := by
        unfold Moment.next
        rw [hagenda]
      have hkept : (m.work (.leave (.piece line text) script) rest).session = m.session.leave := by
        have hnone : m.session.leave.log = none := by
          show m.session.log = none
          rw [h.session]
          exact hlog
        show m.session.leave.answer line text (script.reply m.result) = m.session.leave
        rw [h.result, Session.answer_of_no_log hnone]
        rfl
      refine ⟨_, hnext, ⟨?_, hinside.next hnext, rfl⟩, rfl⟩
      rw [hkept]
      unfold Session.leave
      rw [h.session]
  | read mode source reader | findings mode findings | pieces mode line isFirst pieces =>
    have hnext := next_stopped hagenda hstopped (fun _ h => by cases h) rfl
    exact ⟨_, hnext, ⟨h.session, hinside.next hnext, h.result⟩, rfl⟩

theorem leads (h : m.Over t) (hrunning : t.running = false) (hlog : t.log = none) {n : Moment}
    (hleads : m.Leads n) : n.Over t := by
  induction hleads with
  | refl => exact h
  | @tail k n _ hnext ih =>
    cases hagenda : k.agenda with
    | nil =>
      rw [next_eq_none_iff.mpr hagenda] at hnext
      cases hnext
    | cons task rest =>
      obtain ⟨n', hnext', hover, -⟩ := ih.next hrunning hlog hagenda
      exact next_unique hnext' hnext ▸ hover

theorem agenda_next (h : m.Over t) (hrunning : t.running = false) (hlog : t.log = none)
    {n : Moment} (hnext : m.next = some n) : n.agenda = m.agenda.tail := by
  cases hagenda : m.agenda with
  | nil =>
    rw [next_eq_none_iff.mpr hagenda] at hnext
    cases hnext
  | cons task rest =>
    obtain ⟨n', hnext', -, hrest⟩ := h.next hrunning hlog hagenda
    exact next_unique hnext' hnext ▸ hrest

theorem upcoming? (h : m.Over t) (hrunning : t.running = false) : m.upcoming? = none := by
  have hstopped : m.session.running = false := by
    rw [h.session]
    exact hrunning
  unfold Moment.upcoming?
  split
  · rw [if_neg (by rw [hstopped]; exact Bool.false_ne_true)]
  · rfl

theorem exists_last (h : m.Over t) (hrunning : t.running = false) (hlog : t.log = none) :
    ∃ n, m.Leads n ∧ n.Over t ∧ n.agenda = [] := by
  induction hagenda : m.agenda generalizing m with
  | nil => exact ⟨m, .refl m, h, hagenda⟩
  | cons task rest ih =>
    obtain ⟨k, hnext, hover, hrest⟩ := h.next hrunning hlog hagenda
    obtain ⟨n, hleads, hlast⟩ := ih hover hrest
    exact ⟨n, leads_of_next hnext hleads, hlast⟩

end Over

end Moment

/-- A run that ends as a session ends with that session, and in no other way. -/
theorem Moment.Over.run_iff {s t : Session} {mode : Mode} {input : List UInt8} {m : Moment}
    (hs : s.loading = []) (hm : (Moment.start s [.run mode input]).Leads m) (h : m.Over t)
    (hrunning : t.running = false) (hlog : t.log = none) (hloading : t.loading = [])
    (x : Session × Except FileError Unit) :
    (∃ fuel, s.run fuel mode input = some x) ↔ x = (t, .ok ()) := by
  obtain ⟨n, hleads, hlast, hagenda⟩ := h.exists_last hrunning hlog
  have hall := hm.trans hleads
  -- At the last moment there is no script that is yet to be left.
  have hnone : n.session.loading = [] := by
    rw [Moment.loading_of_leads hall hs]
    unfold Moment.scripts
    rw [hagenda]
    rfl
  have hend : n = ⟨t, n.done, [], .ok ()⟩ := by
    have hsession := hlast.session
    rw [hnone, ← hloading] at hsession
    have hresult := hlast.result
    obtain ⟨u, done, agenda, result⟩ := n
    cases hsession
    cases hagenda
    cases hresult
    rfl
  rw [hend] at hall
  obtain ⟨u, result⟩ := x
  refine ⟨fun hrun => ?_, fun heq => ?_⟩
  · obtain ⟨done, hother⟩ := Moment.run_iff.mp hrun
    cases hall.last_unique hother rfl rfl
    rfl
  · cases heq
    exact Moment.run_iff.mpr ⟨_, hall⟩

namespace Session

theorem run_of_stopped {t : Session} (h : t.running = false) (mode : Mode) (input : List UInt8)
    (x : Session × Except FileError Unit) :
    (∃ fuel, t.run fuel mode input = some x) ↔ x = (t, .ok ()) := by
  have hrun : ∀ fuel, t.run (fuel + 1) mode input = some (t, .ok ()) := by
    intro fuel
    unfold run runFrom
    rw [if_pos (by rw [h]; rfl)]
  constructor
  · rintro ⟨fuel, hfuel⟩
    cases fuel with
    | zero => cases hfuel
    | succ fuel => exact Option.some.inj (hfuel.symm.trans (hrun fuel))
  · rintro rfl
    exact ⟨1, hrun 0⟩

/-- A run in which EXIT is performed, at whatever depth of scripts, ends, and ends in one way: the
session is that of the moment of EXIT, files included, but has ended, keeps no log, and has written
what comes before a piece and the answer to EXIT, and nothing after it. From the step of EXIT on no
piece is performed, in no script and no source: tasks are dropped one after the other. Whatever is
asked of the session later does nothing. -/
theorem run_exit {s : Session} (hs : s.AtRest) {mode : Mode} {input : List UInt8} {m : Moment}
    (hm : (Moment.start s [.run mode input]).Leads m) {piece : String}
    (hpiece : m.upcoming? = some piece) (hexit : Command.parse piece = .ok .exit) :
    ∃ mode' line isFirst,
      let t : Session := { m.session with
        running := false
        log := none
        loading := []
        output := m.session.output ++ m.session.announcement mode' line isFirst piece ++
          [.response "TERMINATED BY USER"] }
      (∀ x, (∃ fuel, s.run fuel mode input = some x) ↔ x = (t, .ok ())) ∧
      (∃ n, m.next = some n ∧ ∀ k, n.Leads k →
        k.session = { t with loading := k.session.loading } ∧ k.upcoming? = none ∧
        ∀ k', k.next = some k' → k'.agenda = k.agenda.tail) ∧
      ∀ mode input x, (∃ fuel, t.run fuel mode input = some x) ↔ x = (t, .ok ()) := by
  have hfiles : m.session.stopLog.1.files = m.session.files :=
    (settled_invariant.leads hm
      (settled_invariant.atRest (fun _ _ _ _ hlog => by cases hlog) hs)).stopLog
  obtain ⟨mode', line, isFirst, pieces, rest, hagenda, hnext⟩ := Moment.next_of_exit hpiece hexit
  refine ⟨mode', line, isFirst, ?_⟩
  intro t
  have hrunning : t.running = false := rfl
  have hlog : t.log = none := rfl
  rw [hfiles] at hnext
  have hstart : (Moment.start s [.run mode input]).Inside := ⟨⟨trivial, trivial⟩, .inl rfl⟩
  have hover := Moment.Over.mk (t := t) rfl ((hstart.leads hm).next hnext) rfl
  refine ⟨?_, ⟨_, hnext, fun k hk => ?_⟩, ?_⟩
  · exact hover.run_iff hs.loading (hm.trans (Moment.leads_of_next hnext (.refl _))) hrunning hlog
      rfl
  · have hk := hover.leads hrunning hlog hk
    exact ⟨hk.session, hk.upcoming? hrunning, fun k' => hk.agenda_next hrunning hlog⟩
  · exact fun mode input => run_of_stopped hrunning mode input

/-- A session with a script that loads another one, which ends the session before it is over. -/
def leaving : Session :=
  start .default ⟨.zero, .epoch⟩
    (((FileTree.empty ["home"]).addFile ["home", "outer"]
      (Text.Utf8.encode "LOAD inner; STATES a;\n".toList)).addFile ["home", "inner"]
        (Text.Utf8.encode "STATES b; EXIT STATES c;\nSTATES d".toList))

/-- What follows EXIT is not performed: in its statement, in its script, in the script around it and
in the input. The log has what was done before. -/
theorem run_exit_leaving :
    let input := Text.Utf8.encode "LOG notes; LOAD outer; STATES e;\nSTATES f".toList
    ∃ fuel t, leaving.run fuel .interactive input = some (t, .ok ()) ∧
      t.machine.states.map toString = ["B"] ∧ t.log = none ∧
      t.output.getLast? = some (.response "TERMINATED BY USER") ∧
      t.files.readFile "notes" = .ok (Text.Utf8.encode "> STATES b;\n\n".toList) ∧
      ∃ later, t.run later .script input = some (t, .ok ()) := by
  intro input
  obtain ⟨m, hleads, hpiece, hstates, hread⟩ :
      ∃ m, (Moment.start leaving [.run .interactive input]).Leads m ∧ m.upcoming? = some "EXIT" ∧
        m.session.machine.states.map toString = ["B"] ∧
        m.session.files.readFile "notes" = .ok (Text.Utf8.encode "> STATES b;\n\n".toList) :=
    ⟨_, Moment.leads_advance 14 _, by decide +kernel, by decide +kernel, by decide +kernel⟩
  obtain ⟨mode, line, isFirst, hend, -, hlater⟩ := run_exit (.start _ _ _) hleads hpiece rfl
  obtain ⟨fuel, hrun⟩ := (hend _).mpr rfl
  exact ⟨fuel, _, hrun, hstates, rfl, List.getLast?_concat, hread, (hlater _ _ _).mpr rfl⟩

end Session

end Statewright
