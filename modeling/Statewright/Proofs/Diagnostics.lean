import Statewright.Proofs.Joined
import Statewright.Proofs.Refusals
import Statewright.Proofs.Shown

/-!
# Failures told in one line

A piece that fails is answered by its failure and the number of the line on which its statement
ended. The answer is one line, unless the piece loads a snapshot in which a name or an identifier
with a line break is refused.
-/

open Statewright.Text Statewright.Fallible

namespace Statewright

/-! ## The line of a statement -/

namespace Reader

theorem line_of_closeSegments {line : Nat} {pending : List String} {segments : List (List Char)}
    {st : Statement} (h : .statement st ∈ (closeSegments line pending segments).1) :
    st.line = line := by
  induction segments generalizing pending with
  | nil => cases h
  | cons segment segments ih =>
    cases segments with
    | nil => cases h
    | cons next segments =>
      rcases List.mem_append.mp h with h | h
      · unfold close at h
        split at h
        · cases h
        · cases List.mem_singleton.mp h
          rfl
      · exact ih h

/-- A statement has the number of the line that was read last when it was found. -/
theorem line_of_take {r : Reader} {feed : Feed} {st : Statement}
    (h : .statement st ∈ (r.take feed).2) : st.line = (r.take feed).1.line := by
  cases feed with
  | line text =>
    have hline := r.push_line text
    show st.line = (r.push text).1.line
    rw [hline]
    change Finding.statement st ∈ (r.push text).2 at h
    unfold push at h
    dsimp only at h
    split at h
    · cases h
    · rcases List.mem_append.mp h with h | h
      · exact line_of_closeSegments h
      · split at h
        · cases List.mem_singleton.mp h
        · cases h
  | finish =>
    change Finding.statement st ∈ r.finish.2 at h
    show st.line = r.finish.1.line
    unfold finish at h ⊢
    split at h
    · next haccumulating =>
      rw [if_pos haccumulating]
      rcases List.mem_cons.mp h with h | h
      · cases h
      · unfold close at h
        split at h
        · cases h
        · cases List.mem_singleton.mp h
          rfl
    · cases h

theorem lineCount_append (feeds more : List Feed) :
    lineCount (feeds ++ more) = lineCount feeds + lineCount more :=
  List.countP_append

theorem line_take (r : Reader) (feed : Feed) :
    (r.take feed).1.line = r.line + lineCount [feed] := by
  cases feed with
  | line text => exact r.push_line text
  | finish =>
    show r.finish.1.line = r.line
    unfold finish
    split
    · rfl
    · rfl

theorem line_takeAll (r : Reader) (feeds : List Feed) :
    (r.takeAll feeds).1.line = r.line + lineCount feeds := by
  induction feeds generalizing r with
  | nil => rfl
  | cons feed feeds ih =>
    show ((r.take feed).1.takeAll feeds).1.line = r.line + lineCount ([feed] ++ feeds)
    rw [ih, line_take, lineCount_append, Nat.add_assoc]

/-- The number of a statement is that of the line on which it ended, among all lines read. -/
theorem line_of_takeAll {feeds : List Feed} {feed : Feed} {st : Statement}
    (h : .statement st ∈ ((start.takeAll feeds).1.take feed).2) :
    st.line = lineCount (feeds ++ [feed]) := by
  rw [line_of_take h, line_take, line_takeAll, lineCount_append]
  exact Nat.add_right_cancel_iff.mpr (Nat.zero_add _)

end Reader

/-! ## Pieces -/

theorem IsPiece.isLine {piece head : String} {arguments : List String}
    (h : IsPiece piece head arguments) : IsLine piece := by
  rw [h.written]
  exact isLine_unwords (fun w hw => (h.word w hw).isLine)

/-! ## Messages -/

@[simp]
theorem Failure.isLine_file {path : String} {e : FileError} :
    IsLine (file path e).message ↔ IsLine path := by
  unfold message
  simp +decide

@[simp]
theorem Failure.isLine_recursiveLoad {path : String} :
    IsLine (recursiveLoad path).message ↔ IsLine path := by
  unfold message
  simp +decide

namespace SnapshotError

@[simp]
theorem isLine_file {path : String} {e : FileError} :
    IsLine (file path e).message ↔ IsLine path := by
  unfold message
  simp +decide

@[simp]
theorem isLine_undecodableFile {path : String} {f : DecodeFault} :
    IsLine (undecodableFile path f).message ↔ IsLine path ∧ IsLine f.message := by
  unfold message
  simp +decide

@[simp]
theorem isLine_inconsistentFile {path : String} {reason : Inconsistency} :
    IsLine (inconsistentFile path reason).message ↔ IsLine path ∧ IsLine reason.message := by
  unfold message
  simp +decide

@[simp]
theorem isLine_unsupportedVersion (found : UInt32) : IsLine (unsupportedVersion found).message := by
  unfold message
  simp +decide

end SnapshotError

/-! ## Snapshots that are not restored -/

namespace Snapshot

theorem isLine_of_restore {c : Snapshot} {path : String} (hpath : IsLine path) {e : RestoreError}
    (h : c.restore = .error e) : IsLine (SnapshotError.ofFileRestore path e).message := by
  rw [restore_eq] at h
  split at h
  · next e' hreport =>
    cases h
    obtain ⟨k, -, hk⟩ := List.exists_of_findSome?_eq_some hreport
    have hreports := report?_eq_some_iff.mp hk
    cases e with
    | unsupportedVersion found => exact SnapshotError.isLine_unsupportedVersion found
    | inconsistent reason =>
      exact SnapshotError.isLine_inconsistentFile.mpr ⟨hpath, isLine_of_reports hreports⟩
  · cases h

theorem isLine_of_loadMachine {t : FileTree} {path : String} (hpath : IsLine path)
    {format : Format} {e : SnapshotError} (h : loadMachine t path format = .error e) :
    IsLine e.message ∨ ∃ bytes f, t.readFile path = .ok bytes ∧ decode bytes format = .error f ∧
      e = .undecodableFile path f := by
  rcases bind_eq_error_iff.mp h with h | ⟨c, -, h⟩
  · rcases bind_eq_error_iff.mp h with h | ⟨bytes, hbytes, h⟩
    · obtain ⟨e, -, rfl⟩ := mapError_eq_error_iff.mp h
      exact .inl (SnapshotError.isLine_file.mpr hpath)
    · obtain ⟨f, hf, rfl⟩ := mapError_eq_error_iff.mp h
      exact .inr ⟨bytes, f, mapError_eq_ok_iff.mp hbytes, hf, rfl⟩
  · obtain ⟨e, he, rfl⟩ := mapError_eq_error_iff.mp h
    exact .inl (isLine_of_restore hpath he)

end Snapshot

namespace Session

/-! ## Commands that fail -/

theorem isLine_editAll {s t : Session} {edits : List Edit} {e : Failure}
    (h : s.editAll edits = (t, .error e)) (htexts : ∀ e ∈ edits, ∀ raw ∈ e.texts, IsLine raw) :
    IsLine e.message := by
  unfold editAll at h
  split at h
  · cases h
  · next err herr =>
    cases h
    exact Machine.isLine_of_editAll herr htexts

theorem isLine_printTo {s t : Session} {path : String} (hpath : IsLine path) {e : Failure}
    (h : s.printTo path = (t, .error e)) : IsLine e.message := by
  unfold printTo at h
  split at h
  · cases h
  · next err herr =>
    cases h
    obtain ⟨e, -, rfl⟩ := mapError_eq_error_iff.mp herr
    exact SnapshotError.isLine_file.mpr hpath

theorem isLine_compile {s t : Session} {path : String} (hpath : IsLine path) {e : Failure}
    (h : s.compile path = (t, .error e)) : IsLine e.message := by
  unfold compile at h
  dsimp only at h
  split at h
  · cases h
  · next files err hsave =>
    cases h
    have herr : ∃ e, err = .file path e := by
      unfold Snapshot.save at hsave
      split at hsave
      · cases hsave
        exact ⟨_, rfl⟩
      · split at hsave
        · cases hsave
          exact ⟨_, rfl⟩
        · cases hsave
    obtain ⟨e, rfl⟩ := herr
    exact SnapshotError.isLine_file.mpr hpath

theorem isLine_startLog {s t : Session} {path : String} (hpath : IsLine path) {e : Failure}
    (h : s.startLog path = (t, .error e)) : IsLine e.message := by
  unfold startLog at h
  split at h
  · cases h
  · cases h
    exact Failure.isLine_file.mpr hpath

theorem isLine_runReply {m : Machine} {input : String} {e : Failure}
    (h : runReply m input = .error e) : IsLine e.message := by
  unfold runReply at h
  dsimp only at h
  split at h
  · cases h
    decide
  · cases h
  · cases h

theorem isLine_runScript {fuel : Nat} {s t : Session} {path : String} (hpath : IsLine path)
    {e : Failure} (h : s.runScript (runner fuel) path = some (t, .error e)) :
    IsLine e.message := by
  unfold runScript at h
  split at h
  · cases h
    exact Failure.isLine_file.mpr hpath
  · split at h
    · cases h
      exact Failure.isLine_recursiveLoad.mpr hpath
    · obtain ⟨⟨u, result⟩, -, h⟩ := Option.bind_eq_some_iff.mp h
      cases result with
      | ok _ => cases h
      | error err =>
        cases h
        exact Failure.isLine_file.mpr hpath

/-- Whether a file is loaded as a snapshot and refused for a name or an identifier with a line
break. -/
def RefusesLineBreak (s : Session) (path : String) : Prop :=
  ∃ format bytes f reason, Format.ofPath? path s.settings.compiledExtension = some format ∧
    s.files.readFile path = .ok bytes ∧ Snapshot.decode bytes format = .error f ∧
    f.refusal? = some reason ∧ QuotesLineBreak reason

theorem isLine_load {fuel : Nat} {s t : Session} {path : String} (hpath : IsLine path)
    {e : Failure} (h : s.load (runner fuel) path = some (t, .error e)) :
    ¬ IsLine e.message ↔ s.RefusesLineBreak path := by
  unfold load at h
  split at h
  · next hformat =>
    refine ⟨fun hline => absurd (isLine_runScript hpath h) hline, ?_⟩
    rintro ⟨format, -, -, -, hsome, -⟩
    rw [hformat] at hsome
    cases hsome
  · next format hformat =>
    split at h
    · cases h
    · next err hload =>
      cases h
      constructor
      · intro hline
        rcases Snapshot.isLine_of_loadMachine hpath hload with h | ⟨bytes, f, hbytes, hdecode, rfl⟩
        · exact absurd h hline
        · have hfault : ¬ IsLine f.message :=
            fun h => hline (SnapshotError.isLine_undecodableFile.mpr ⟨hpath, h⟩)
          obtain ⟨reason, hreason, hquotes⟩ := (Snapshot.isLine_of_decode hdecode).mp hfault
          exact ⟨format, bytes, f, reason, hformat, hbytes, hdecode, hreason, hquotes⟩
      · rintro ⟨format', bytes, f, reason, hformat', hbytes, hdecode, hreason, hquotes⟩
        obtain rfl := Option.some.inj (hformat.symm.trans hformat')
        rw [Snapshot.loadMachine_of_fault hbytes hdecode] at hload
        cases hload
        exact fun hline => (Snapshot.isLine_of_decode hdecode).mpr ⟨reason, hreason, hquotes⟩
          (SnapshotError.isLine_undecodableFile.mp hline).2

/-- Any command but LOAD fails with a message that quotes its arguments and names only. -/
theorem isLine_perform {fuel : Nat} {s t : Session} {c : Command}
    (harguments : ∀ w ∈ c.arguments, IsLine w) {e : Failure}
    (h : s.perform (runner fuel) c = some (t, .error e)) (hload : ∀ path, c ≠ .load path) :
    IsLine e.message := by
  cases c with
  | symbols names | states names | finalStates names => cases names <;> cases h
  | transitions triples =>
    cases triples with
    | nil => cases h
    | cons triple triples =>
      refine isLine_editAll (Option.some.inj h) (fun edit hedit raw hraw => ?_)
      obtain ⟨u, hu, rfl⟩ := List.mem_map.mp hedit
      exact harguments raw (List.mem_flatMap.mpr ⟨u, hu, hraw⟩)
  | initialState name =>
    refine isLine_editAll (Option.some.inj h) (fun edit hedit raw hraw => ?_)
    obtain rfl := List.mem_singleton.mp hedit
    exact harguments raw hraw
  | print path =>
    cases path with
    | none => cases h
    | some path => exact isLine_printTo (harguments path List.mem_cons_self) (Option.some.inj h)
  | compile path =>
    exact isLine_compile (harguments path List.mem_cons_self) (Option.some.inj h)
  | load path => exact absurd rfl (hload path)
  | execute input =>
    obtain ⟨-, hreply⟩ := Prod.mk.inj (Option.some.inj h)
    exact isLine_runReply hreply
  | log path =>
    cases path with
    | none => cases h
    | some path => exact isLine_startLog (harguments path List.mem_cons_self) (Option.some.inj h)
  | clear | exit => cases h

/-! ## Pieces that fail -/

/-- A failure is told in one line, unless a file is loaded in which a name or an identifier with a
line break is refused. -/
theorem isLine_performPiece {fuel : Nat} {s t : Session} {piece : String} (hpiece : IsLine piece)
    {e : Failure} (h : s.performPiece (runner fuel) piece = some (t, .error e)) :
    ¬ IsLine e.message ↔
      ∃ path, Command.parse piece = .ok (.load path) ∧ s.RefusesLineBreak path := by
  unfold performPiece at h
  cases hparse : Command.parse piece with
  | error err =>
    rw [hparse] at h
    cases h
    refine ⟨fun hline => absurd (Command.isLine_of_parse hpiece hparse) hline, ?_⟩
    rintro ⟨path, hload, -⟩
    cases hload
  | ok c =>
    rw [hparse] at h
    have harguments := Command.isLine_arguments hparse
    by_cases hload : ∃ path, c = .load path
    · obtain ⟨path, rfl⟩ := hload
      rw [isLine_load (harguments path List.mem_cons_self) h]
      constructor
      · exact fun hrefuses => ⟨path, rfl, hrefuses⟩
      · rintro ⟨path', hpath', hrefuses⟩
        cases hpath'
        exact hrefuses
    · have hother : ∀ path, c ≠ .load path := fun path hc => hload ⟨path, hc⟩
      refine ⟨fun hline => absurd (isLine_perform harguments h hother) hline, ?_⟩
      rintro ⟨path, hpath, -⟩
      cases hpath
      exact absurd rfl (hother path)

theorem answer_failed (line : Nat) (piece : String) (s : Session) (e : Failure) :
    ∃ logged : List Item, (s.answer line piece (.error e)).output =
        s.output ++ .failed line e :: logged ∧ ∀ item ∈ logged, ∃ e', item = .logFailed e' := by
  obtain ⟨logged, hlogged, hanswer⟩ := answer_shown line piece s (.error e)
  refine ⟨logged, ?_, hlogged⟩
  have hself : (s.answer line piece (.error e)).output = s.output ++ [.failed line e] ++ logged :=
    congrArg output (hanswer s.settings s.output 0)
  rw [hself, List.append_assoc, List.singleton_append]

/-- Whatever lines are read and whatever the session is, a piece of a statement that fails is
answered by one report, which has the number of the line on which the statement ended. Behind it
stands nothing but that the log could not be written. The report is one line, unless the piece loads
a file in which a name or an identifier with a line break is refused. -/
theorem report_isLine_iff {feeds : List Reader.Feed} {feed : Reader.Feed} {st : Statement}
    (hst : .statement st ∈ ((Reader.start.takeAll feeds).1.take feed).2) {piece : String}
    (hpiece : piece ∈ Language.splitStatement st.text) {fuel : Nat} {s t : Session} {e : Failure}
    (h : s.performPiece (runner fuel) piece = some (t, .error e)) :
    let report := s!"Line {Reader.lineCount (feeds ++ [feed])}: {e.message}"
    (∃ (u : Session) (logged : List Item),
      s.runPiece (runner fuel) st.line piece = some u ∧
      u.output = s.output ++ .failed st.line e :: logged ∧
      ∀ item ∈ logged, ∃ e', item = .logFailed e') ∧
    (Item.failed st.line e).text = report ++ "\n" ∧
    (¬ IsLine report ↔
      ∃ path, Command.parse piece = .ok (.load path) ∧ s.RefusesLineBreak path) := by
  intro report
  have hline := Reader.line_of_takeAll hst
  obtain ⟨head, arguments, hcut⟩ := Language.isPiece_of_mem hpiece
  refine ⟨?_, ?_, ?_⟩
  · obtain ⟨logged, houtput, hlogged⟩ := t.answer_failed st.line piece e
    have hkept : t.output = s.output := by rw [(performPiece_error h).1]
    refine ⟨t.answer st.line piece (.error e), logged, ?_, hkept ▸ houtput, hlogged⟩
    rw [runPiece_eq, h]
    rfl
  · rw [hline]
    rfl
  · have hreport : IsLine report ↔ IsLine e.message := by
      show IsLine (_ ++ _) ↔ _
      simp +decide
    rw [hreport]
    exact isLine_performPiece hcut.isLine h

/-- What a piece fails with, if it does. -/
def failure? (fuel : Nat) (s : Session) (piece : String) : Option Failure :=
  match s.performPiece (runner fuel) piece with
  | some (_, .error e) => some e
  | _ => none

theorem exists_of_failure? {fuel : Nat} {s : Session} {piece : String} {e : Failure}
    (h : s.failure? fuel piece = some e) :
    ∃ t, s.performPiece (runner fuel) piece = some (t, .error e) := by
  unfold failure? at h
  split at h
  · next t _ hperform =>
    cases h
    exact ⟨t, hperform⟩
  · cases h

/-- A session with two files that are no snapshots: one has a state with a line break, the other has
a text with a line break for its version. -/
def broken : Session :=
  start .default ⟨.zero, .epoch⟩
    (((FileTree.empty ["home"]).addFile ["home", "torn.json"]
      (Utf8.encode "\x7b\"states\":[\"A\\nB\"]\x7d".toList)).addFile ["home", "whole.json"]
      (Utf8.encode "\x7b\"version\":\"A\\nB\"\x7d".toList))

/-- The premises hold of both pieces of a statement that runs over two lines. The first report is no
line, for the file is refused; the second is one, for there the text is quoted. -/
theorem report_isLine_iff_broken :
    (∃ path, Command.parse "LOAD torn.json" = .ok (.load path) ∧ broken.RefusesLineBreak path) ∧
    (¬ ∃ path, Command.parse "LOAD whole.json" = .ok (.load path) ∧
      broken.RefusesLineBreak path) ∧
    ∃ (e e' : Failure) (u u' : Session) (logged logged' : List Item),
      broken.runPiece (runner 1) 2 "LOAD torn.json" = some u ∧ u.output = .failed 2 e :: logged ∧
      broken.runPiece (runner 1) 2 "LOAD whole.json" = some u' ∧
      u'.output = .failed 2 e' :: logged' := by
  have hst : .statement ⟨"LOAD torn.json LOAD whole.json", 2, true⟩ ∈
      ((Reader.start.takeAll [.line "LOAD torn.json"]).1.take (.line "LOAD whole.json;")).2 := by
    decide +kernel
  obtain ⟨t, htorn⟩ : ∃ t, broken.performPiece (runner 1) "LOAD torn.json" =
      some (t, .error (.snapshot (.undecodableFile "torn.json"
        (.json ⟨.refused (NameError.state "A\nB").message, some (1, 18)⟩)))) :=
    exists_of_failure? (by decide +kernel)
  obtain ⟨t', hwhole⟩ : ∃ t', broken.performPiece (runner 1) "LOAD whole.json" =
      some (t', .error (.snapshot (.undecodableFile "whole.json"
        (.json ⟨.wrongType (.text "A\nB") "u32", some (1, 17)⟩)))) :=
    exists_of_failure? (by decide +kernel)
  obtain ⟨⟨u, logged, hrun, houtput, -⟩, -, hiff⟩ :=
    report_isLine_iff hst (by decide +kernel) htorn
  obtain ⟨⟨u', logged', hrun', houtput', -⟩, -, hiff'⟩ :=
    report_isLine_iff hst (by decide +kernel) hwhole
  exact ⟨hiff.mp (by decide +kernel), fun hrefuses => hiff'.mpr hrefuses (by decide +kernel),
    _, _, u, u', logged, logged', hrun, houtput, hrun', houtput'⟩

end Session

end Statewright
