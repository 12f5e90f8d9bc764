import Statewright.Proofs.Steps

/-!
# What a run shows

How lines are counted, what the prompt is and whether scripts are echoed decides what is written,
and nothing else: a command does the same in two sessions that differ in these settings and in what
they wrote so far, and so does whatever answers it.
-/

namespace Statewright

/-! ## Numbers of lines -/

/-- The item that is written if lines are counted from so many more. -/
def Item.shift (n : Nat) : Item → Item
  | remark line r => remark (line + n) r
  | semicolonBefore line keyword => semicolonBefore (line + n) keyword
  | failed line e => failed (line + n) e
  | item => item

def Finding.shift (n : Nat) : Finding → Finding
  | statement st => statement { st with line := st.line + n }
  | remark line r => remark (line + n) r

def Reader.shift (n : Nat) (r : Reader) : Reader :=
  { r with line := r.line + n }

def Caller.shift (n : Nat) : Caller → Caller
  | piece line text => piece (line + n) text
  | outside => outside

theorem Item.shift_zero (item : Item) : item.shift 0 = item := by
  cases item
  all_goals rfl

theorem Finding.shift_zero (finding : Finding) : finding.shift 0 = finding := by
  cases finding
  all_goals rfl

theorem Caller.shift_zero (caller : Caller) : caller.shift 0 = caller := by
  cases caller
  all_goals rfl

namespace Reader

theorem push_line (r : Reader) (text : String) : (r.push text).1.line = r.line + 1 := by
  unfold push
  dsimp only
  split
  · rfl
  · rfl

theorem close_shift (words : List String) (line : Nat) (terminated : Bool) (n : Nat) :
    close words (line + n) terminated = (close words line terminated).map (Finding.shift n) := by
  cases words with
  | nil => rfl
  | cons w ws => rfl

theorem closeSegments_shift (line : Nat) (pending : List String) (segments : List (List Char))
    (n : Nat) :
    closeSegments (line + n) pending segments =
      ((closeSegments line pending segments).1.map (Finding.shift n),
        (closeSegments line pending segments).2) := by
  fun_induction closeSegments line pending segments with
  | case1 => rfl
  | case2 => rfl
  | case3 pending segment segments hne closed findings waiting heq ih =>
    rw [closeSegments, ih, close_shift, heq]
    · exact congrArg (·, waiting) List.map_append.symm
    · exact hne

/-- Lines that are counted from so many more are found to hold the same. -/
theorem push_shift (r : Reader) (text : String) (n : Nat) :
    (r.shift n).push text = ((r.push text).1.shift n, (r.push text).2.map (Finding.shift n)) := by
  have hline : r.line + n + 1 = r.line + 1 + n := Nat.add_right_comm _ _ _
  have hskips : (r.shift n).skips text.toList = r.skips text.toList := rfl
  unfold push
  dsimp only
  rw [hskips]
  by_cases hskip : r.skips text.toList = true
  · rw [if_pos hskip, if_pos hskip]
    show (Reader.mk (r.line + n + 1) _, _) = _
    rw [hline]
    rfl
  · rw [if_neg hskip, if_neg hskip]
    show (Reader.mk (r.line + n + 1) (closeSegments (r.line + n + 1) r.pending _).2,
      (closeSegments (r.line + n + 1) r.pending _).1 ++
        if _ then [Finding.remark (r.line + n + 1) _] else []) = _
    rw [hline, closeSegments_shift, List.map_append]
    split
    · rfl
    · rfl

theorem finish_shift (r : Reader) (n : Nat) :
    (r.shift n).finish.2 = r.finish.2.map (Finding.shift n) := by
  have haccumulating : (r.shift n).isAccumulating = r.isAccumulating := rfl
  unfold finish
  rw [haccumulating]
  split
  · show Finding.remark (r.line + n) _ :: close r.pending (r.line + n) false = _
    rw [close_shift]
    rfl
  · rfl

end Reader

/-! ## Sessions that differ in what they show -/

namespace Session

/-- The session with other settings that wrote something else so far. -/
def shown (s : Session) (settings : Settings) (output : Transcript) : Session :=
  { s with settings := settings, output := output }

variable {s : Session} {settings : Settings} {output : Transcript}

@[simp]
theorem shown_machine : (s.shown settings output).machine = s.machine :=
  rfl

@[simp]
theorem shown_log : (s.shown settings output).log = s.log :=
  rfl

@[simp]
theorem shown_loading : (s.shown settings output).loading = s.loading :=
  rfl

@[simp]
theorem shown_files : (s.shown settings output).files = s.files :=
  rfl

@[simp]
theorem shown_stamp : (s.shown settings output).stamp = s.stamp :=
  rfl

@[simp]
theorem shown_settings : (s.shown settings output).settings = settings :=
  rfl

/-! What a command does is decided by the rest of the session. -/

theorem editAll_shown (edits : List Edit) :
    (s.shown settings output).editAll edits =
      ((s.editAll edits).1.shown settings output, (s.editAll edits).2) := by
  unfold editAll
  rw [shown_machine]
  cases s.machine.editAll edits with
  | error e => rfl
  | ok r => rfl

theorem printTo_shown (path : String) :
    (s.shown settings output).printTo path =
      ((s.printTo path).1.shown settings output, (s.printTo path).2) := by
  unfold printTo
  rw [shown_machine, shown_files]
  cases s.machine.writeScript s.files path with
  | error e => rfl
  | ok files => rfl

theorem compile_shown (h : settings.compiledExtension = s.settings.compiledExtension)
    (path : String) :
    (s.shown settings output).compile path =
      ((s.compile path).1.shown settings output, (s.compile path).2) := by
  unfold compile
  simp only [shown_machine, shown_files, shown_stamp, shown_settings, h]
  rcases (Snapshot.capture s.stamp s.machine).save s.files path
    ((Format.ofPath? path s.settings.compiledExtension).getD .binary) with ⟨files, e | _⟩
  · rfl
  · rfl

theorem startLog_shown (path : String) :
    (s.shown settings output).startLog path =
      ((s.startLog path).1.shown settings output, (s.startLog path).2) := by
  unfold startLog
  rw [shown_log, shown_files]
  rcases Log.start s.log s.files path with ⟨files, log, e | _⟩
  · rfl
  · rfl

theorem scriptAt?_shown (h : settings.compiledExtension = s.settings.compiledExtension)
    (path : String) : (s.shown settings output).scriptAt? path = s.scriptAt? path := by
  unfold scriptAt?
  simp only [shown_files, shown_loading, shown_settings, h]
  rfl

theorem script?_shown (h : settings.compiledExtension = s.settings.compiledExtension)
    (piece : String) : (s.shown settings output).script? piece = s.script? piece := by
  unfold script?
  simp only [scriptAt?_shown h]

theorem loadAtOnce_shown (h : settings.compiledExtension = s.settings.compiledExtension)
    (path : String) :
    (s.shown settings output).loadAtOnce path =
      ((s.loadAtOnce path).1.shown settings output, (s.loadAtOnce path).2) := by
  unfold loadAtOnce load
  simp only [shown_files, shown_settings, h]
  cases Format.ofPath? path s.settings.compiledExtension with
  | none =>
    dsimp only
    unfold runScript
    rw [shown_files]
    cases s.files.openRead path with
    | error e => rfl
    | ok opened =>
      dsimp only
      rw [shown_loading]
      by_cases hloading : opened.1 ∈ s.loading
      · rw [if_pos hloading, if_pos hloading]
        rfl
      · rw [if_neg hloading, if_neg hloading]
        rfl
  | some format =>
    dsimp only
    cases Snapshot.loadMachine s.files path format with
    | error e => rfl
    | ok m => rfl

theorem performAtOnce_shown (h : settings.compiledExtension = s.settings.compiledExtension)
    (piece : String) :
    (s.shown settings output).performAtOnce piece =
      ((s.performAtOnce piece).1.shown settings output, (s.performAtOnce piece).2) := by
  unfold performAtOnce performPiece
  cases Command.parse piece with
  | error e => rfl
  | ok c =>
    dsimp only
    cases c with
    | symbols names | states names | finalStates names =>
      cases names with
      | nil => rfl
      | cons name names => rfl
    | initialState name => exact editAll_shown _
    | transitions triples =>
      cases triples with
      | nil => rfl
      | cons triple triples => exact editAll_shown _
    | print path =>
      cases path with
      | none => rfl
      | some path => exact printTo_shown path
    | compile path => exact compile_shown h path
    | load path => exact loadAtOnce_shown h path
    | execute input => rfl
    | clear => rfl
    | log path =>
      cases path with
      | none => rfl
      | some path => exact startLog_shown path
    | exit => rfl

/-! What is written in answer to a command is decided by the rest of the session too. -/

/-- What is written as the answer to a piece. -/
def told (line : Nat) : Reply → List Item
  | .ok (some response) => [.response response]
  | .ok none => []
  | .error e => [.failed line e]

theorem tell_wrote (line : Nat) (s : Session) (reply : Reply) :
    s.tell line reply = s.wrote (told line reply) := by
  match reply with
  | .ok (some response) => rfl
  | .ok none => exact s.wrote_nil.symm
  | .error e => rfl

theorem told_shift (line : Nat) (reply : Reply) (n : Nat) :
    told (line + n) reply = (told line reply).map (Item.shift n) := by
  match reply with
  | .ok (some response) => rfl
  | .ok none => rfl
  | .error e => rfl

-- An entry of the log writes nothing, or that it could not be added.
theorem record_shown (s : Session) (statement response : String) :
    ∃ items : List Item, (∀ item ∈ items, ∃ e, item = .logFailed e) ∧
      ∀ (settings : Settings) (output : Transcript),
        (s.shown settings output).record statement response =
          (s.record statement response).shown settings (output ++ items) := by
  cases hlog : s.log with
  | none =>
    refine ⟨[], fun _ h => absurd h List.not_mem_nil, fun settings output => ?_⟩
    rw [record_of_no_log hlog, record_of_no_log (s := s.shown settings output) hlog,
      List.append_nil]
  | some log =>
    unfold record
    simp only [shown_log, shown_files, hlog]
    rcases log.record s.files statement response with ⟨files, kept, e | _⟩
    · exact ⟨[.logFailed e], fun _ h => ⟨e, List.mem_singleton.mp h⟩, fun _ _ => rfl⟩
    · exact ⟨[], fun _ h => absurd h List.not_mem_nil,
        fun settings output => by rw [List.append_nil]; rfl⟩

theorem shown_self (s : Session) : s.shown s.settings s.output = s :=
  rfl

theorem answer_shown (line : Nat) (piece : String) (s : Session) (reply : Reply) :
    ∃ items : List Item, (∀ item ∈ items, ∃ e, item = .logFailed e) ∧
      ∀ (settings : Settings) (output : Transcript) (n : Nat),
        (s.shown settings output).answer (line + n) piece reply =
          (s.answer line piece reply).shown settings
            (output ++ told (line + n) reply ++ items) := by
  have htell : ∀ (settings : Settings) (output : Transcript) (n : Nat),
      (s.shown settings output).tell (line + n) reply =
        (s.tell line reply).shown settings (output ++ told (line + n) reply) := by
    intro settings output n
    rw [tell_wrote, tell_wrote]
    rfl
  unfold answer
  split
  · refine ⟨[], fun _ h => absurd h List.not_mem_nil, fun settings output n => ?_⟩
    rw [htell, List.append_nil]
  · obtain ⟨items, hitems, hrecord⟩ :=
      (s.tell line reply).record_shown (piece ++ ";") (recorded reply)
    refine ⟨items, hitems, fun settings output n => ?_⟩
    rw [htell, hrecord]

/-- Whoever is answered is answered the same, but for the number of the line. -/
theorem replyTo_shown (s : Session) (caller : Caller) (reply : Reply) :
    ∃ items : List Item, (s.replyTo caller reply).output = s.output ++ items ∧
      ∀ (settings : Settings) (output : Transcript) (n : Nat),
        (s.shown settings output).replyTo (caller.shift n) reply =
          (s.replyTo caller reply).shown settings (output ++ items.map (Item.shift n)) := by
  cases caller with
  | outside =>
    match reply with
    | .ok (some response) => exact ⟨[.response response], rfl, fun _ _ _ => rfl⟩
    | .ok none =>
      exact ⟨[], (List.append_nil _).symm, fun settings output n => by
        rw [List.map_nil, List.append_nil]; rfl⟩
    | .error e => exact ⟨[.loadFailed e], rfl, fun _ _ _ => rfl⟩
  | piece line text =>
    obtain ⟨items, hitems, hanswer⟩ := answer_shown line text s reply
    have hfixed : ∀ n, items.map (Item.shift n) = items := by
      intro n
      rw [List.map_congr_left (g := id), List.map_id]
      intro item hitem
      obtain ⟨e, rfl⟩ := hitems item hitem
      rfl
    refine ⟨told line reply ++ items, ?_, fun settings output n => ?_⟩
    · have hself := hanswer s.settings s.output 0
      rw [shown_self, List.append_assoc] at hself
      exact congrArg Session.output hself
    · rw [List.map_append, hfixed, ← told_shift, ← List.append_assoc]
      exact hanswer settings output n

end Session

end Statewright
