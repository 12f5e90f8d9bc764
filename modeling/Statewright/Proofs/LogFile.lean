import Mathlib.Data.List.DropRight
import Statewright.Proofs.Exit
import Statewright.Proofs.OpenFiles

/-!
# What a log holds

The file of a log holds an entry for each piece that was completed since the log was started, in the
order in which they were completed, however scripts and logs are nested in each other. Pieces about
the log itself have no entry.
-/

open Statewright.Fallible

namespace Statewright

/-! ## Entries -/

/-- Whether a command started a log, as its answer says. -/
def Command.startsLog : Command → Reply → Bool
  | .log (some _), .ok (some _) => true
  | _, _ => false

theorem Command.startsLog_eq_true {c : Command} {reply : Reply} (h : c.startsLog reply = true) :
    (∃ path, c = .log (some path)) ∧ ∃ response, reply = .ok (some response) := by
  unfold startsLog at h
  split at h
  · exact ⟨⟨_, rfl⟩, _, rfl⟩
  · cases h

namespace Exchange

/-- Whether a log was started. -/
def startsLog (x : Exchange) : Bool :=
  match Command.parse x.piece with
  | .ok c => c.startsLog x.reply
  | .error _ => false

/-- The entry of a piece and its answer. Pieces about the log have none. -/
def entry (x : Exchange) : List UInt8 :=
  if Session.isLogPiece x.piece then []
  else Log.entry (x.piece ++ ";") (Session.recorded x.reply)

theorem startsLog_eq_false {x : Exchange} (h : ∀ response, x.reply ≠ .ok (some response)) :
    x.startsLog = false := by
  refine Bool.eq_false_iff.mpr (fun hstarts => ?_)
  unfold startsLog at hstarts
  split at hstarts
  · obtain ⟨-, response, hreply⟩ := Command.startsLog_eq_true hstarts
    exact h response hreply
  · cases hstarts

end Exchange

/-- The entries of the pieces since a log was started last. -/
def logged (done : List Exchange) : List UInt8 :=
  (done.rtakeWhile (fun x => !x.startsLog)).flatMap Exchange.entry

theorem logged_concat (done : List Exchange) (x : Exchange) :
    logged (done ++ [x]) = if x.startsLog then [] else logged done ++ x.entry := by
  unfold logged
  rw [List.rtakeWhile_concat]
  cases x.startsLog with
  | true => rfl
  | false =>
    show List.flatMap _ (_ ++ [x]) = _
    rw [List.flatMap_append, List.flatMap_singleton]
    rfl

/-! ## The file of a log -/

namespace Log

/-- Whether the file at the path of a log holds some bytes, and nothing waits to be written. -/
structure Holds (log : Log) (t : FileTree) (bytes : List UInt8) : Prop where
  pending : log.pending = []
  named : ∃ l, t.NamesFile log.path l ∧ t.lookup l = some log.handle.entry
  content : (log.handle.entry = .fullDevice ∧ bytes = []) ∨ ∃ id, log.handle.entry = .file id ∧
    t.content id = bytes ∧ log.handle.offset = bytes.length

namespace Holds

variable {log : Log} {t u : FileTree} {bytes : List UInt8}

theorem fileId? (h : log.Holds t bytes) {id : Nat} (hid : log.handle.entry = .file id) :
    t.fileId? log.path = some id := by
  obtain ⟨l, hnames, hlookup⟩ := h.named
  exact FileTree.fileId?_eq_some_iff.mpr ⟨l, hnames, hlookup.trans (congrArg some hid)⟩

theorem readFile (h : log.Holds t bytes) (htakes : t.TakesBytes log.path) :
    t.readFile log.path = .ok bytes := by
  rcases h.content with ⟨hdevice, -⟩ | ⟨id, hid, rfl, -⟩
  · obtain ⟨l, hnames, hlookup⟩ := h.named
    rw [hdevice] at hlookup
    exact absurd hlookup (FileTree.takesBytes_iff.mp htakes l hnames)
  · exact FileTree.readFile_of_fileId? (h.fileId? hid)

-- What is written elsewhere leaves the log alone.
theorem change (h : log.Holds t bytes) (hb : t.Backed) {places : Set Location} {ids : Set Nat}
    (hchange : t.Change u places ids) (hplaces : ∀ l, t.NamesFile log.path l → l ∉ places)
    (hids : ∀ id, t.fileId? log.path = some id → id ∉ ids) : log.Holds u bytes := by
  obtain ⟨l, hnames, hlookup⟩ := h.named
  have hkept := (hchange.lookup l (hplaces l hnames)).trans hlookup
  refine ⟨h.pending, ⟨l, hchange.alike.namesFile.mpr hnames, hkept⟩, ?_⟩
  rcases h.content with hdevice | ⟨id, hid, hcontent, hoffset⟩
  · exact .inl hdevice
  · refine .inr ⟨id, hid, ?_, hoffset⟩
    have hlt := hb l id (hlookup.trans (congrArg some hid))
    rw [hchange.content id hlt (hids id (h.fileId? hid))]
    exact hcontent

/-- An entry that could be written is at the end of the file. -/
theorem record {log' : Log} {statement response : String} (h : log.Holds t bytes) (hb : t.Backed)
    (hrecord : log.record t statement response = (u, log', .ok ())) :
    log'.path = log.path ∧ log'.Holds u (bytes ++ Log.entry statement response) := by
  unfold Log.record at hrecord
  rw [h.pending, List.nil_append] at hrecord
  unfold Log.flush at hrecord
  split at hrecord
  · next written handle hwrite =>
    cases hrecord
    obtain ⟨l, hnames, hlookup⟩ := h.named
    obtain ⟨hchange, hwritten⟩ := FileTree.write_eq_ok hb hlookup hwrite
    have hkept := (hchange.lookup l (Set.notMem_empty l)).trans hlookup
    refine ⟨rfl, rfl, ⟨l, hchange.alike.namesFile.mpr hnames, ?_⟩, ?_⟩
    · rcases hwritten with ⟨-, -, rfl⟩ | ⟨-, -, -, rfl⟩
      · exact hkept
      · exact hkept
    · rcases hwritten with ⟨hempty, rfl, rfl⟩ | ⟨id, hid, hcontent, rfl⟩
      · rw [show Log.entry statement response = [] from hempty, List.append_nil]
        exact h.content
      · rcases h.content with ⟨hdevice, -⟩ | ⟨id', hid', hold, hoffset⟩
        · rw [hid] at hdevice
          cases hdevice
        · cases hid.symm.trans hid'
          refine .inr ⟨id, hid, ?_, ?_⟩
          · rw [hcontent, hoffset, ← hold, FileTree.overwrite_end]
          · rw [List.length_append, ← hoffset]
  · cases hrecord

end Holds

/-- A log that is started is empty. -/
theorem holds_of_start {old : Option Log} {log : Log} {t u : FileTree} {path : String}
    (hb : t.Backed) (h : start old t path = (u, some log, .ok ())) :
    log.Holds u [] := by
  have hstop := backed_stop hb old
  unfold start at h
  dsimp only at h
  split at h
  · next hopen =>
    cases h
    obtain ⟨l, hnames, hchange, hlookup, hoffset, hentry⟩ := FileTree.openWrite_eq_ok hstop hopen
    refine ⟨rfl, ⟨l, hchange.alike.namesFile.mpr hnames, hlookup⟩, ?_⟩
    rcases hentry with hdevice | ⟨id, hid, hcontent, -⟩
    · exact .inl ⟨hdevice, rfl⟩
    · exact .inr ⟨id, hid, hcontent, hoffset⟩
  · cases h

end Log

/-- Whether a command leaves a path and its file alone: it gives the name to no other file, and does
not write the file under any of its names. -/
structure Command.Spares (c : Command) (t : FileTree) (path : String) : Prop where
  name (l : Location) : t.NamesFile path l → l ∉ t.places c.named
  file (id : Nat) : t.fileId? path = some id → id ∉ t.fileIds c.filled

theorem Command.Spares.of_written {c : Command} {t : FileTree} {path : String}
    (hnamed : c.named = []) (hfilled : c.filled = []) : c.Spares t path := by
  refine ⟨fun l _ hl => ?_, fun id _ hid => ?_⟩
  · obtain ⟨raw, hraw, -⟩ := hl
    rw [hnamed] at hraw
    cases hraw
  · obtain ⟨raw, hraw, -⟩ := hid
    rw [hfilled] at hraw
    cases hraw

/-! ## Steps -/

namespace Session

/-- Whether the log that is kept, if one is, holds some bytes. -/
def LogHolds (s : Session) (bytes : List UInt8) : Prop :=
  ∀ log, s.log = some log → log.Holds s.files bytes

variable {s : Session} {bytes : List UInt8}

theorem logHolds_record {statement response : String} (h : s.LogHolds bytes) (hb : s.files.Backed)
    (hwritten : ∀ e, .logFailed e ∉ (s.record statement response).output) :
    (s.record statement response).LogHolds (bytes ++ Log.entry statement response) := by
  unfold record at hwritten ⊢
  split
  · next hnone =>
    intro log hlog
    rw [hnone] at hlog
    cases hlog
  · next log hlog =>
    rw [hlog] at hwritten
    dsimp only at hwritten
    split
    · next files kept hrecord =>
      intro log' hlog'
      cases hlog'
      exact ((h log hlog).record hb hrecord).2
    · next files kept e hrecord =>
      rw [hrecord] at hwritten
      exact absurd (List.mem_append_right _ (List.mem_singleton_self _)) (hwritten e)

theorem logHolds_answer {line : Nat} {x : Exchange} (h : s.LogHolds bytes) (hb : s.files.Backed)
    (hwritten : ∀ e, .logFailed e ∉ (s.answer line x.piece x.reply).output) :
    (s.answer line x.piece x.reply).LogHolds (bytes ++ x.entry) := by
  have htell : (s.tell line x.reply).LogHolds bytes := by
    rw [tell_eq]
    exact h
  have hbacked : (s.tell line x.reply).files.Backed := by
    rw [tell_eq]
    exact hb
  unfold answer at hwritten ⊢
  unfold Exchange.entry
  split
  · rw [List.append_nil]
    exact htell
  · next hpiece =>
    rw [if_neg hpiece] at hwritten
    exact logHolds_record htell hbacked hwritten

/-- A command that succeeds in starting a log has it empty; another leaves the log alone, if it
writes to other files. -/
theorem Effect.logHolds {c : Command} {p : Session × Reply} (h : Effect s c p)
    (hb : s.files.Backed) (hlog : s.LogHolds bytes)
    (hspared : ∀ log, s.log = some log → c.Spares s.files log.path) :
    p.1.LogHolds (if c.startsLog p.2 then [] else bytes) := by
  cases h with
  | machine c hc ops reply =>
    have hstarts : c.startsLog reply = false := by
      cases c with
      | log path => exact absurd rfl (hc path)
      | _ => rfl
    rw [hstarts]
    exact hlog
  | print path =>
    have hchange := change_printTo hb path
    rw [printTo_eq]
    intro log hsome
    have hspares := hspared log hsome
    exact (hlog log hsome).change hb hchange hspares.name hspares.file
  | compile path =>
    have hchange := change_compile hb path
    rw [compile_eq] at hchange ⊢
    intro log hsome
    have hspares := hspared log hsome
    exact (hlog log hsome).change hb hchange hspares.name hspares.file
  | startLog path =>
    rcases hresult : Log.start s.log s.files path with ⟨files, log, e | _⟩
    · -- A log that cannot be started is not kept.
      have hnone : log = none := by
        unfold Log.start at hresult
        dsimp only at hresult
        split at hresult
        · cases hresult
        · cases hresult
          rfl
      unfold Session.startLog
      rw [hresult, hnone]
      intro log' hlog'
      cases hlog'
    · unfold Session.startLog
      rw [hresult]
      intro log' hlog'
      cases hlog'
      exact Log.holds_of_start hb hresult
  | stopLog =>
    intro log hnone
    cases hnone
  | exit =>
    intro log hnone
    cases hnone

end Session

namespace Moment

/-- Whether the piece that is performed next leaves the file of the log alone. -/
def Spares (m : Moment) : Prop :=
  ∀ log piece c, m.session.log = some log → m.upcoming? = some piece →
    Command.parse piece = .ok c → c.Spares m.session.files log.path

-- A piece about the log has no entry, so a log that was started is empty behind it.
theorem logged_of_parse {c : Command} {x : Exchange} (done : List Exchange)
    (hparse : Command.parse x.piece = .ok c) :
    (if c.startsLog x.reply then [] else logged done) ++ x.entry = logged (done ++ [x]) := by
  have hx : x.startsLog = c.startsLog x.reply := by
    unfold Exchange.startsLog
    rw [hparse]
  rw [logged_concat, hx]
  cases hstarts : c.startsLog x.reply with
  | false => rfl
  | true =>
    obtain ⟨⟨path, rfl⟩, -⟩ := Command.startsLog_eq_true hstarts
    have hpiece : Session.isLogPiece x.piece = true := by
      unfold Session.isLogPiece
      rw [Session.keyword_of_parse hparse]
      rfl
    unfold Exchange.entry
    rw [if_pos hpiece]
    rfl

/-- An answer that starts no log is recorded behind what the log holds. -/
theorem logHolds_answer_silent {s : Session} {done : List Exchange} {line : Nat} {x : Exchange}
    (hx : ∀ response, x.reply ≠ .ok (some response)) (h : s.LogHolds (logged done))
    (hb : s.files.Backed)
    (hwritten : ∀ e, .logFailed e ∉ (s.answer line x.piece x.reply).output) :
    (s.answer line x.piece x.reply).LogHolds (logged (done ++ [x])) := by
  rw [logged_concat, Exchange.startsLog_eq_false hx]
  exact Session.logHolds_answer h hb hwritten

theorem Turn.logHolds {m n : Moment} (h : m.Turn n) (hb : m.session.files.Backed)
    (hspares : m.Spares) (hwritten : ∀ e, .logFailed e ∉ n.session.output)
    (hm : m.session.LogHolds (logged m.done)) : n.session.LogHolds (logged n.done) := by
  cases h with
  | quiet items hsession hdone =>
    rw [hsession, hdone]
    exact hm
  | enter items script _ hsession hdone =>
    rw [hsession, hdone]
    exact hm
  | perform items line piece p hpiece hperform hsession hdone =>
    rw [hsession] at hwritten ⊢
    rw [hdone]
    rcases Session.performAtOnce_cases (m.session.wrote items) piece with
      ⟨e, -, heq⟩ | ⟨c, hparse, heffect⟩
    · cases hperform.symm.trans heq
      exact logHolds_answer_silent (x := ⟨piece, .error (.command e)⟩) (fun _ h => by cases h) hm
        hb hwritten
    · rw [hperform] at heffect
      have hspared : ∀ log, m.session.log = some log → c.Spares m.session.files log.path :=
        fun log hlog => hspares log piece c hlog hpiece hparse
      have hperformed := heffect.logHolds hb hm hspared
      rw [← logged_of_parse (x := ⟨piece, p.2⟩) m.done hparse]
      exact Session.logHolds_answer (x := ⟨piece, p.2⟩) hperformed
        (Session.backed_invariant.effect heffect hb) hwritten
  | load path p hload hsession hdone =>
    subst hload
    have hloaded := (m.session.loadAtOnce_effect path).logHolds hb hm
      (fun log _ => .of_written rfl rfl)
    rw [hsession, hdone, Session.tellOutside_eq]
    exact hloaded
  | leave caller script hsession hdone =>
    rw [hsession] at hwritten ⊢
    rw [hdone]
    cases caller with
    | outside =>
      rw [show Caller.outside.exchanges (script.reply m.result) = [] from rfl, List.append_nil]
      show (m.session.leave.tellOutside _).LogHolds _
      rw [Session.tellOutside_eq]
      exact hm
    | piece line text =>
      have hreply : ∀ response, script.reply m.result ≠ .ok (some response) := by
        intro response h
        unfold Script.reply at h
        split at h
        · cases h
        · cases h
      exact logHolds_answer_silent (s := m.session.leave) (x := ⟨text, script.reply m.result⟩)
        hreply hm hb hwritten

theorem logHolds_of_leads {m n : Moment} (h : m.Leads n) (hb : m.session.files.Backed)
    (hspares : ∀ k, m.Leads k → k.Leads n → k.Spares)
    (hwritten : ∀ e, .logFailed e ∉ n.session.output)
    (hm : m.session.LogHolds (logged m.done)) : n.session.LogHolds (logged n.done) := by
  induction h with
  | refl => exact hm
  | @tail k n hleads hnext ih =>
    have hturn := turn_of_next hnext
    have hlast := leads_of_next hnext (.refl n)
    have hbefore : ∀ e, .logFailed e ∉ k.session.output :=
      fun e hmem => hwritten e (hturn.output.subset hmem)
    exact hturn.logHolds (Session.backed_invariant.leads hleads hb) (hspares k hleads hlast) hwritten
      (ih (fun c hc hck => hspares c hc (hck.trans hlast)) hbefore)

/-- What the file of a log holds, at every moment of whatever was asked of a session: an entry for
each piece that was completed since the log was started, in the order in which they were completed,
and nothing else. So the entry of a LOAD comes after those of the script, in the log that is kept by
then. It is assumed that entries could be written and still can, and that PRINT and COMPILE leave the
file alone, whatever names it has, and its path with it; other files can have several names as well.
EXIT leaves the file as it is. -/
theorem readFile_log {settings : Settings} {stamp : Stamp} {files : FileTree} (hb : files.Backed)
    {calls : List Call} {m : Moment}
    (hm : (start (Session.start settings stamp files) calls).Leads m)
    (hspares : ∀ k, (start (Session.start settings stamp files) calls).Leads k → k.Leads m →
      k.Spares)
    (hwritten : ∀ e, .logFailed e ∉ m.session.output) {log : Log}
    (hlog : m.session.log = some log) (htakes : m.session.files.TakesBytes log.path) :
    m.session.files.readFile log.path = .ok (logged m.done) ∧
      ∀ piece n, m.upcoming? = some piece → Command.parse piece = .ok .exit → m.next = some n →
        n.session.log = none ∧ n.session.files = m.session.files := by
  have hholds := logHolds_of_leads hm hb hspares hwritten (fun _ h => by cases h) log hlog
  have hsettled : m.session.Settled :=
    Session.settled_invariant.leads hm (fun _ h => by cases h)
  refine ⟨hholds.readFile htakes, fun piece n hpiece hexit hnext => ?_⟩
  obtain ⟨mode, line, isFirst, pieces, rest, -, hnext'⟩ := next_of_exit hpiece hexit
  cases next_unique hnext hnext'
  exact ⟨rfl, hsettled.stopLog⟩

/-- A session with a script that starts a log of its own, fails, and writes a file. The script has
two names. -/
def logging : Session :=
  Session.start { Settings.default with echoScript := false } ⟨.zero, .epoch⟩
    (((FileTree.empty ["home"]).addFile ["home", "part"]
      (Text.Utf8.encode "STATES q;\nLOG second;\nMELT x FINAL-STATES;\nPRINT drawn;\n".toList)).bind
        ["home", "link"] (.file 0))

theorem backed_logging : logging.files.Backed := by
  have hsound := (FileTree.sound_empty ["home"]).addFile (l := ["home", "part"]) (by decide)
    (Text.Utf8.encode "STATES q;\nLOG second;\nMELT x FINAL-STATES;\nPRINT drawn;\n".toList)
  exact hsound.backed.bind (by decide) (by decide +kernel)

/-- A run in which the script is loaded while another log is kept. -/
def loggingRun : Moment :=
  start logging [.run .script (Text.Utf8.encode "LOG first;\nLOAD link;\n".toList)]

theorem agenda_loggingRun : (loggingRun.advance 36).agenda = [] :=
  List.length_eq_zero_iff.mp (by decide +kernel)

-- Only one piece writes to a file of its own, and the log is another one.
theorem spares_loggingRun {k : Moment} (hk : loggingRun.Leads k) : k.Spares := by
  have hothers : ∀ i ≤ 36, i ≠ 26 → ((loggingRun.advance i).upcoming?.bind
      (fun piece => (Command.parse piece).toOption)).all
        (fun c => c.named = [] ∧ c.filled = []) = true := by
    decide +kernel
  obtain ⟨hprint, hpath, hsecond, hdrawn, hnew⟩ :
      (loggingRun.advance 26).upcoming? = some "PRINT drawn" ∧
      (loggingRun.advance 26).session.log.map Log.path = some "second" ∧
      (loggingRun.advance 26).session.files.follow ⟨false, ["second"], false⟩ =
        .ok (.named ["home"] "second") ∧
      (loggingRun.advance 26).session.files.follow ⟨false, ["drawn"], false⟩ =
        .ok (.named ["home"] "drawn") ∧
      (loggingRun.advance 26).session.files.fileId? "drawn" = none := by
    decide +kernel
  intro log piece c hlog hpiece hparse
  obtain ⟨i, hi, rfl⟩ := exists_advance hk agenda_loggingRun
  by_cases hi' : i = 26
  · subst hi'
    cases hprint.symm.trans hpiece
    cases (show Command.parse "PRINT drawn" = .ok (.print (some "drawn")) from rfl).symm.trans
      hparse
    rw [hlog] at hpath
    refine ⟨fun l hl hplace => ?_, fun id _ hid => ?_⟩
    · obtain ⟨path, hmem, hnames⟩ := hplace
      rw [List.mem_singleton.mp hmem] at hnames
      rw [Option.some.inj hpath] at hl
      have hl' := hl.unique ⟨_, ["home"], "second", rfl, hsecond, rfl, by decide, rfl⟩
      have hl'' := hnames.unique ⟨_, ["home"], "drawn", rfl, hdrawn, rfl, by decide, rfl⟩
      exact absurd (hl'.symm.trans hl'') (by decide)
    · obtain ⟨path, hmem, hfile⟩ := hid
      rw [List.mem_singleton.mp hmem, hnew] at hfile
      cases hfile
  · have hnone := hothers i hi hi'
    rw [hpiece, Option.bind_some, hparse] at hnone
    obtain ⟨hnamed, hfilled⟩ := of_decide_eq_true hnone
    exact .of_written hnamed hfilled

/-- The script was loaded while another log was kept, and its LOAD is recorded in the log that it
started, behind what it did since. -/
theorem readFile_log_logging :
    ∃ m log, loggingRun.Leads m ∧ m.session.log = some log ∧ log.path = "second" ∧
      m.session.files.readFile "second" = .ok (Text.Utf8.encode
        ("> MELT x;\nError: Invalid command: unknown keyword MELT\n> FINAL-STATES;\n[]\n" ++
          "> PRINT drawn;\nFSM printed to drawn\n> LOAD link;\n\n").toList) := by
  let m := loggingRun.advance 36
  obtain ⟨hkept, houtput, hlogged, hopens⟩ : m.session.log.map Log.path = some "second" ∧
      m.session.output = [.response "Started logging to first",
        .response "Started logging to second", .failed 3 (.command (.unknownKeyword "MELT")),
        .semicolonBefore 3 "FINAL-STATES", .response "[]", .response "FSM printed to drawn"] ∧
      logged m.done = Text.Utf8.encode
        ("> MELT x;\nError: Invalid command: unknown keyword MELT\n> FINAL-STATES;\n[]\n" ++
          "> PRINT drawn;\nFSM printed to drawn\n> LOAD link;\n\n").toList ∧
      (m.session.files.openWrite "second").toOption.all (fun p => p.2.entry ≠ .fullDevice) =
        true := by
    decide +kernel
  obtain ⟨log, hlog, hpath⟩ := Option.map_eq_some_iff.mp hkept
  have hwritten : ∀ e, .logFailed e ∉ m.session.output := by
    intro e
    rw [houtput]
    simp
  have htakes : m.session.files.TakesBytes log.path := by
    refine FileTree.takesBytes_of_entry (fun u handle hopen => ?_)
    rw [hpath] at hopen
    rw [hopen] at hopens
    exact of_decide_eq_true hopens
  have hread := (readFile_log backed_logging (leads_advance 36 loggingRun)
    (fun k hk _ => spares_loggingRun hk) hwritten hlog htakes).1
  rw [hpath, hlogged] at hread
  exact ⟨m, log, leads_advance 36 loggingRun, hlog, hpath, hread⟩

end Moment

end Statewright
