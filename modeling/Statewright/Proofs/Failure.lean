import Statewright.Proofs.Change
import Statewright.Proofs.Runs

/-!
# Failed pieces

Whatever a piece of a statement fails with, the machine, the scripts that are being run and whether
the session is running are as they were before it, and so is the log, unless the piece was about the
log. A command that could fail half-way works on a copy, and a script can only fail before its first
line.
-/

open Statewright.Fallible

namespace Statewright

/-! ## Open files -/

namespace FileTree

theorem read_eq_ok {t : FileTree} {h : Handle} (hentry : h.entry ≠ .directory)
    (most : Nat) : ∃ bytes next, t.read h most = .ok (bytes, next) ∧ next.entry = h.entry := by
  unfold read
  cases hcase : h.entry with
  | directory => exact absurd hcase hentry
  | fullDevice => exact ⟨_, h, rfl, hcase⟩
  | file id => exact ⟨_, _, rfl, rfl⟩

theorem write_entry {t u : FileTree} {h k : Handle} {bytes : List UInt8}
    (hwrite : t.write h bytes = .ok (u, k)) : k.entry = h.entry := by
  unfold write at hwrite
  split at hwrite
  · cases hwrite
    rfl
  · split at hwrite
    · cases hwrite
    · cases hwrite
    · cases hwrite
      rfl

end FileTree

/-! ## Sources that can be read -/

namespace Source

/-- Whether lines can be read from a source: from all but an open directory. -/
def Readable : Source → Prop
  | .bytes _ => True
  | .file handle _ => handle.entry ≠ .directory

theorem fill_eq_ok {t : FileTree} {fuel : Nat} {h : FileTree.Handle} {buffer : List UInt8}
    (hentry : h.entry ≠ .directory) {filled : Except FileError (FileTree.Handle × List UInt8)}
    (hfill : fill t fuel h buffer = some filled) :
    ∃ next bytes, filled = .ok (next, bytes) ∧ next.entry = h.entry := by
  induction fuel generalizing h buffer with
  | zero => cases hfill
  | succ fuel ih =>
    rw [fill] at hfill
    by_cases hbreak : lineBreak ∈ buffer
    · rw [if_pos hbreak] at hfill
      cases hfill
      exact ⟨h, buffer, rfl, rfl⟩
    · rw [if_neg hbreak] at hfill
      obtain ⟨block, next, hread, hnext⟩ := FileTree.read_eq_ok (t := t) hentry blockSize
      rw [hread] at hfill
      cases block with
      | nil =>
        cases hfill
        exact ⟨next, buffer, rfl, hnext⟩
      | cons b block =>
        rw [← hnext] at hentry ⊢
        exact ih hentry hfill

theorem Readable.nextLine {source : Source} (h : source.Readable) {t : FileTree}
    {taken : Except FileError (List UInt8 × Source)} (hnext : source.nextLine t = some taken) :
    ∃ line next, taken = .ok (line, next) ∧ next.Readable := by
  cases source with
  | bytes rest =>
    cases hnext
    exact ⟨_, _, rfl, trivial⟩
  | file handle buffer =>
    unfold Source.nextLine at hnext
    obtain ⟨filled, hfill, rfl⟩ := Option.map_eq_some_iff.mp hnext
    obtain ⟨next, bytes, rfl, hentry⟩ := fill_eq_ok h hfill
    refine ⟨(cutLine bytes).1, .file next (cutLine bytes).2, rfl, ?_⟩
    show next.entry ≠ .directory
    rw [hentry]
    exact h

-- The first read of a directory fails.
theorem nextLine_directory {h : FileTree.Handle} (hentry : h.entry = .directory) (t : FileTree) :
    nextLine t (.file h []) = some (.error .isDirectory) := by
  have hread : t.read h blockSize = .error .isDirectory := by
    rw [FileTree.read, hentry]
  rw [nextLine, fill, if_neg List.not_mem_nil, hread]
  rfl

end Source

/-! ## The log that is kept -/

namespace Log

/-- The file that a log is written to: its path, and what was opened there. -/
def target (log : Log) : String × Entry :=
  (log.path, log.handle.entry)

theorem flush_target (log : Log) (t : FileTree) : (log.flush t).2.1.target = log.target := by
  unfold flush
  split
  · next u handle hwrite =>
    show (log.path, handle.entry) = (log.path, log.handle.entry)
    rw [FileTree.write_entry hwrite]
  · rfl

-- An entry goes to the file of the log, or waits for the next one.
theorem record_target (log : Log) (t : FileTree) (statement response : String) :
    (log.record t statement response).2.1.target = log.target :=
  flush_target _ t

end Log

namespace Session

/-! ## Scripts that fail -/

theorem runFrom_of_readable {fuel : Nat} {mode : Mode} {source : Source} {reader : Reader}
    {s t : Session} {result : Except FileError Unit} (hsource : source.Readable)
    (h : runFrom fuel mode source reader s = some (t, result)) : result = .ok () := by
  induction fuel generalizing source reader s with
  | zero => cases h
  | succ fuel ih =>
    unfold runFrom at h
    split at h
    · cases h
      rfl
    · dsimp only at h
      cases hnext : source.nextLine (s.prompt mode).files with
      | none =>
        rw [hnext] at h
        cases h
      | some taken =>
        obtain ⟨line, next, rfl, hreadable⟩ := hsource.nextLine hnext
        rw [hnext] at h
        cases line with
        | nil =>
          obtain ⟨u, -, heq⟩ := Option.map_eq_some_iff.mp h
          cases heq
          rfl
        | cons b line =>
          obtain ⟨⟨reader', u⟩, -, hrest⟩ := Option.bind_eq_some_iff.mp h
          exact ih hreadable hrest

/-- An input that is at hand is read to its end. -/
theorem result_of_run {fuel : Nat} {mode : Mode} {input : List UInt8} {s t : Session}
    {result : Except FileError Unit} (h : s.run fuel mode input = some (t, result)) :
    result = .ok () :=
  runFrom_of_readable (show Source.Readable (.bytes input) from trivial) h

-- A script that cannot be read is a directory, and no line of it was run.
theorem runner_error {fuel : Nat} {s t : Session} {handle : FileTree.Handle} {e : FileError}
    (h : runner fuel s (.file handle []) = some (t, .error e)) : t = s := by
  by_cases hentry : handle.entry = .directory
  · cases fuel with
    | zero => cases h
    | succ fuel =>
      unfold runner runFrom at h
      split at h
      · cases h
      · dsimp only at h
        rw [Source.nextLine_directory hentry] at h
        cases h
        rfl
  · have hok := runFrom_of_readable (show Source.Readable (.file handle []) from hentry) h
    cases hok

theorem load_error {fuel : Nat} {s t : Session} {path : String} {e : Failure}
    (h : s.load (runner fuel) path = some (t, .error e)) : t = s := by
  unfold load at h
  split at h
  · unfold runScript at h
    split at h
    · cases h
      rfl
    · split at h
      · cases h
        rfl
      · obtain ⟨⟨u, result⟩, hscript, h⟩ := Option.bind_eq_some_iff.mp h
        cases result with
        | ok _ => cases h
        | error err =>
          -- The script was taken from the scripts that are run, and nothing else was done.
          obtain rfl := runner_error hscript
          cases h
          rfl
  · split at h
    · cases h
    · cases h
      rfl

/-! ## Commands that fail -/

theorem editAll_error {s t : Session} {edits : List Edit} {e : Failure}
    (h : s.editAll edits = (t, .error e)) : t = s := by
  unfold editAll at h
  split at h
  · cases h
  · cases h
    rfl

theorem printTo_error {s t : Session} {path : String} {e : Failure}
    (h : s.printTo path = (t, .error e)) : t = s := by
  unfold printTo at h
  split at h
  · cases h
  · cases h
    rfl

-- Saving may leave a temporary file behind.
theorem compile_error {s t : Session} {path : String} {e : Failure}
    (h : s.compile path = (t, .error e)) : t = { s with files := t.files } := by
  unfold compile at h
  dsimp only at h
  split at h
  · cases h
  · cases h
    rfl

theorem startLog_error {s t : Session} {path : String} {e : Failure}
    (h : s.startLog path = (t, .error e)) : t = { s with files := t.files, log := t.log } := by
  unfold startLog at h
  split at h
  · cases h
  · cases h
    rfl

/-- A command that fails changes nothing but files, and the log if it was to start one. -/
theorem perform_error {fuel : Nat} {s t : Session} {c : Command} {e : Failure}
    (h : s.perform (runner fuel) c = some (t, .error e)) :
    t = { s with files := t.files, log := t.log } ∧ (c.keyword ≠ .log → t.log = s.log) := by
  have hsame : t = s → t = { s with files := t.files, log := t.log } ∧
      (c.keyword ≠ .log → t.log = s.log) := by
    rintro rfl
    exact ⟨rfl, fun _ => rfl⟩
  cases c with
  | symbols names | states names | finalStates names => cases names <;> cases h
  | transitions triples =>
    cases triples with
    | nil => cases h
    | cons triple triples => exact hsame (editAll_error (Option.some.inj h))
  | initialState name => exact hsame (editAll_error (Option.some.inj h))
  | print path =>
    cases path with
    | none => cases h
    | some path => exact hsame (printTo_error (Option.some.inj h))
  | compile path =>
    have hfiles := compile_error (Option.some.inj h)
    rw [hfiles]
    exact ⟨rfl, fun _ => rfl⟩
  | load path => exact hsame (load_error h)
  | execute input =>
    obtain ⟨rfl, -⟩ := Prod.mk.inj (Option.some.inj h)
    exact hsame rfl
  | log path =>
    cases path with
    | none => cases h
    | some path => exact ⟨startLog_error (Option.some.inj h), fun hlog => absurd rfl hlog⟩
  | clear | exit => cases h

/-! ## Pieces that fail -/

theorem keyword_of_parse {piece : String} {c : Command} (h : Command.parse piece = .ok c) :
    (Text.words piece).head?.bind Keyword.ofWord? = some c.keyword := by
  unfold Command.parse at h
  split at h
  · cases h
  · next head arguments hwords =>
    rw [hwords, List.head?_cons, Option.bind_some]
    split at h
    · cases h
    · next k hkeyword =>
      rw [hkeyword]
      cases k with
      | symbols | states | finalStates =>
        cases h
        rfl
      | initialState | transitions | print | compile | load | log =>
        obtain ⟨argument, -, rfl⟩ := map_eq_ok_iff.mp h
        rfl
      | execute =>
        match arguments with
        | [] => cases h
        | [_] =>
          cases h
          rfl
        | _ :: _ :: _ => cases h
      | clear | exit =>
        cases arguments with
        | nil =>
          cases h
          rfl
        | cons _ _ => cases h

theorem performPiece_error {fuel : Nat} {s t : Session} {piece : String} {e : Failure}
    (h : s.performPiece (runner fuel) piece = some (t, .error e)) :
    t = { s with files := t.files, log := t.log } ∧ (isLogPiece piece = false → t.log = s.log) := by
  unfold performPiece at h
  split at h
  · cases h
    exact ⟨rfl, fun _ => rfl⟩
  · next c hparse =>
    obtain ⟨hrest, hlog⟩ := perform_error h
    refine ⟨hrest, fun hpiece => hlog ?_⟩
    have hkeyword := keyword_of_parse hparse
    rintro hc
    rw [isLogPiece, hkeyword, hc] at hpiece
    cases hpiece

/-! ## Answering -/

theorem record_target (s : Session) (statement response : String) :
    (s.record statement response).log.map Log.target = s.log.map Log.target := by
  cases hlog : s.log with
  | none =>
    rw [record, hlog]
    exact congrArg (Option.map Log.target) hlog
  | some log =>
    have htarget := log.record_target s.files statement response
    rw [record, hlog]
    dsimp only
    split
    · next files kept hrecord =>
      rw [hrecord] at htarget
      exact congrArg some htarget
    · next files kept e hrecord =>
      rw [hrecord] at htarget
      exact congrArg some htarget

-- Whatever is answered, the file that is the log stays the log.
theorem answer_target (line : Nat) (piece : String) (s : Session) (reply : Reply) :
    (s.answer line piece reply).log.map Log.target = s.log.map Log.target := by
  have htell : (s.tell line reply).log = s.log := by rw [tell_eq]
  unfold answer
  split
  · rw [htell]
  · rw [record_target, htell]

theorem answer_error (line : Nat) (piece : String) (s : Session) (e : Failure) :
    s.output ++ [.failed line e] <+: (s.answer line piece (.error e)).output := by
  unfold answer
  split
  · exact List.prefix_rfl
  · exact record_output (s.say (.failed line e)) _ _

/-! ## What a failure leaves -/

/-- Whether a later session has the machine of an earlier one, goes on as it did, and runs the same
scripts. -/
structure Unmoved (s t : Session) : Prop where
  machine : t.machine = s.machine
  running : t.running = s.running
  loading : t.loading = s.loading
  settings : t.settings = s.settings
  stamp : t.stamp = s.stamp

/-- A piece that is answered by a failure leaves the session unmoved, and its log unless it is about
the log. The failure is written, and if the session is running, the next piece is performed as if
nothing had been tried. -/
theorem runPieces_failed {fuel : Nat} {mode : Mode} {line : Nat} {isFirst : Bool} {s t : Session}
    {piece : String} {e : Failure}
    (h : (s.announce mode line isFirst piece).performPiece (runner fuel) piece =
      some (t, .error e)) :
    let u := t.answer line piece (.error e)
    (s.announce mode line isFirst piece).runPiece (runner fuel) line piece = some u ∧
    s.Unmoved u ∧
    (isLogPiece piece = false →
      t.log = s.log ∧ u.log.map Log.target = s.log.map Log.target) ∧
    (s.announce mode line isFirst piece).output ++ [.failed line e] <+: u.output ∧
    (s.running = true →
      s.runPieces (runner fuel) mode line isFirst [piece] = some u ∧
      ∀ next pieces,
        s.runPieces (runner fuel) mode line isFirst (piece :: next :: pieces) =
          ((u.announce mode line false next).runPiece (runner fuel) line next).bind
            (fun v => v.runPieces (runner fuel) mode line false pieces)) := by
  intro u
  obtain ⟨hperform, hlog⟩ := performPiece_error h
  have hannounce := s.announce_eq mode line isFirst piece
  have hpiece : (s.announce mode line isFirst piece).runPiece (runner fuel) line piece =
      some u := by
    rw [runPiece_eq, h]
    rfl
  have hunmoved : s.Unmoved u := by
    show s.Unmoved (t.answer line piece (.error e))
    rw [answer_eq, hperform, hannounce]
    exact ⟨rfl, rfl, rfl, rfl, rfl⟩
  refine ⟨hpiece, hunmoved, fun hfree => ?_, ?_, fun hrunning => ?_⟩
  · have hsame : t.log = s.log := (hlog hfree).trans (by rw [hannounce])
    exact ⟨hsame, (answer_target line piece t _).trans (congrArg (Option.map Log.target) hsame)⟩
  · have hwritten : t.output = (s.announce mode line isFirst piece).output := by rw [hperform]
    rw [← hwritten]
    exact t.answer_error line piece e
  · have hpieces : ∀ pieces, s.runPieces (runner fuel) mode line isFirst (piece :: pieces) =
        u.runPieces (runner fuel) mode line false pieces := by
      intro pieces
      rw [runPieces_cons _ mode line isFirst hrunning, hpiece, Option.bind_some]
    refine ⟨hpieces [], fun next pieces => ?_⟩
    rw [hpieces, runPieces_cons _ mode line false (hunmoved.running.trans hrunning)]

/-- A session in the middle of a script: two states and a symbol are declared, and the log is kept
on the full device. -/
def halfway : Session :=
  { start .default ⟨.zero, .epoch⟩ (.empty []) with
    machine := Machine.empty.afterAll [.addSymbol "0", .addState "a", .addState "b"]
    log := some ⟨"/dev/full", ⟨.fullDevice, 0⟩, []⟩
    loading := [["run.fsm"]] }

/-- The premises hold of transitions of which the second is refused after the first was made, and
of a log in a place that is a directory. -/
theorem runPieces_halfway :
    (∃ u, halfway.runPieces (runner 1) .script 3 true ["TRANSITIONS 0 a b, 1 b a"] = some u ∧
      u.machine.transitions = [] ∧ u.loading = [["run.fsm"]] ∧
      u.log.map Log.target = some ("/dev/full", .fullDevice)) ∧
    ∃ u, halfway.runPieces (runner 1) .script 4 true ["log /"] = some u ∧
      u.machine = halfway.machine ∧ u.loading = [["run.fsm"]] := by
  -- The first transition was made on a copy, and the log is closed before the other is opened.
  have hrefused : (halfway.announce .script 3 true "TRANSITIONS 0 a b, 1 b a").performPiece
      (runner 1) "TRANSITIONS 0 a b, 1 b a" =
      some (halfway.announce .script 3 true "TRANSITIONS 0 a b, 1 b a",
        .error (.edit (.transition "1" "b" "a" (.undeclaredSymbol ⟨'1', rfl⟩)))) := rfl
  have hdirectory : (halfway.announce .script 4 true "log /").performPiece (runner 1) "log /" =
      some ({ halfway.announce .script 4 true "log /" with log := none },
        .error (.file "/" .isDirectory)) := rfl
  obtain ⟨-, hunmoved, hlog, -, hrefusedRun⟩ := runPieces_failed hrefused
  obtain ⟨-, hunmoved', -, -, hdirectoryRun⟩ := runPieces_failed hdirectory
  refine ⟨⟨_, (hrefusedRun rfl).1, ?_, hunmoved.loading, (hlog (by decide +kernel)).2⟩,
    ⟨_, (hdirectoryRun rfl).1, hunmoved'.machine, hunmoved'.loading⟩⟩
  rw [hunmoved.machine]
  decide +kernel

end Session

end Statewright
