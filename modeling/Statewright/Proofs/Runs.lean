import Statewright.Proofs.Lines
import Statewright.Session.Run

/-!
# What a run keeps

A run is made of few kinds of steps: something is written, a command is performed, an entry is added
to the log. What each of these steps keeps is kept by a whole run, however deep its scripts load
each other.
-/

open Statewright.Text

namespace Statewright.Session

/-! ## One piece -/

def performPiece (run : Runner) (s : Session) (piece : String) : Option (Session × Reply) :=
  match Command.parse piece with
  | .error e => some (s, .error (.command e))
  | .ok command => s.perform run command

def tell (line : Nat) (s : Session) : Reply → Session
  | .ok (some response) => s.say (.response response)
  | .ok none => s
  | .error e => s.say (.failed line e)

/-- What the log says that a piece answered. -/
def recorded : Reply → String
  | .ok (some response) => response
  | .ok none => ""
  | .error e => "Error: " ++ e.message

/-- Writes and records what a piece answered. -/
def answer (line : Nat) (piece : String) (s : Session) (reply : Reply) : Session :=
  if isLogPiece piece then s.tell line reply
  else (s.tell line reply).record (piece ++ ";") (recorded reply)

theorem runPiece_eq (run : Runner) (line : Nat) (s : Session) (piece : String) :
    s.runPiece run line piece =
      (s.performPiece run piece).map (fun (t, reply) => t.answer line piece reply) := by
  unfold runPiece performPiece
  cases Command.parse piece with
  | error e => rfl
  | ok command =>
    dsimp only
    cases s.perform run command with
    | none => rfl
    | some p =>
      rcases p with ⟨t, e | _ | response⟩
      all_goals rfl

/-- Writes what comes before a piece: that a semicolon is missing before it, and its echo. -/
def announce (mode : Mode) (line : Nat) (isFirst : Bool) (s : Session) (piece : String) : Session :=
  let s := if isFirst then s
    else s.say (.semicolonBefore line (Text.upper ((Text.words piece).headD "")))
  if mode = .script && s.settings.echoScript then s.say (.echo piece) else s

theorem announce_second (mode : Mode) (line : Nat) (s : Session) (piece : String) :
    s.output ++ [.semicolonBefore line (Text.upper ((Text.words piece).headD ""))] <+:
      (s.announce mode line false piece).output := by
  unfold announce
  rw [if_neg Bool.false_ne_true]
  dsimp only
  split
  · exact List.prefix_append _ _
  · exact List.prefix_rfl

theorem runPieces_cons (run : Runner) (mode : Mode) (line : Nat) (isFirst : Bool) {s : Session}
    (hrunning : s.running = true) (piece : String) (pieces : List String) :
    s.runPieces run mode line isFirst (piece :: pieces) =
      ((s.announce mode line isFirst piece).runPiece run line piece).bind
        (fun t => t.runPieces run mode line false pieces) := by
  rw [runPieces, hrunning]
  rfl

theorem handle_statement (run : Runner) (mode : Mode) {s : Session} (hrunning : s.running = true)
    (st : Statement) :
    s.handle run mode [.statement st] =
      s.runPieces run mode st.line true (Language.splitStatement st.text) := by
  rw [handle, hrunning]
  cases s.runPieces run mode st.line true (Language.splitStatement st.text) with
  | none => rfl
  | some t => rfl

/-! ## One line -/

-- A line that is cut off the source is dealt with, and then the run goes on with what is left.
theorem runFrom_of_cutLine (fuel : Nat) (mode : Mode) {s : Session} (hrunning : s.running = true)
    (reader : Reader) {bytes more : List UInt8} {line : List Char} (hne : line ≠ [])
    (hcut : Source.cutLine bytes = (Utf8.encode line, more)) :
    runFrom (fuel + 1) mode (.bytes bytes) reader s =
      ((s.prompt mode).handle (runner fuel) mode (reader.push (String.ofList line)).2).bind
        (fun t => runFrom fuel mode (.bytes more) (reader.push (String.ofList line)).1 t) := by
  have hnext : Source.nextLine (s.prompt mode).files (.bytes bytes) =
      some (.ok (Utf8.encode line, .bytes more)) := by
    rw [Source.nextLine, hcut]
  have htext := Utf8.decodeLossy_encode line
  rw [runFrom, hrunning]
  dsimp only
  rw [Bool.not_true, if_neg Bool.false_ne_true, hnext]
  -- The line takes a byte, so it is not the end of the source.
  cases hbytes : Utf8.encode line with
  | nil => exact absurd hbytes (Utf8.encode_ne_nil hne)
  | cons b bytes =>
    rw [hbytes] at htext
    dsimp only
    rw [takeLine, htext]
    dsimp only
    rw [Option.bind_map]
    rfl

-- The first line of a text is read and dealt with, and then the run goes on behind it.
theorem runFrom_line (fuel : Nat) (mode : Mode) {s : Session} (hrunning : s.running = true)
    (reader : Reader) {part : List Char} (h : '\n' ∉ part) (rest : List Char) :
    runFrom (fuel + 1) mode (.bytes (Utf8.encode (part ++ '\n' :: rest))) reader s =
      ((s.prompt mode).handle (runner fuel) mode
        (reader.push (String.ofList (part ++ ['\n']))).2).bind
        (fun t => runFrom fuel mode (.bytes (Utf8.encode rest))
          (reader.push (String.ofList (part ++ ['\n']))).1 t) :=
  runFrom_of_cutLine fuel mode hrunning reader
    (List.append_ne_nil_of_right_ne_nil _ (List.cons_ne_nil _ _)) (Source.cutLine_encode h rest)

theorem runFrom_end (fuel : Nat) (mode : Mode) {s : Session} (hrunning : s.running = true)
    (line : Nat) :
    runFrom (fuel + 1) mode (.bytes []) ⟨line, []⟩ s = some (s.prompt mode, .ok ()) := by
  rw [runFrom, hrunning]
  rfl

/-! ## Whole runs -/

/-- Every session is related to what a runner makes of it. -/
def Runner.Keeps (run : Runner) (R : Session → Session → Prop) : Prop :=
  ∀ (s t : Session) (source : Source) (result : Except FileError Unit),
    run s source = some (t, result) → R s t

/-- A relation between a session and a later one that every step keeps. A command may run a script
inside, and is asked only if running scripts keeps the relation. -/
structure Kept (R : Session → Session → Prop) : Prop where
  refl (s : Session) : R s s
  trans {s t u : Session} : R s t → R t u → R s u
  say (s : Session) (item : Item) : R s (s.say item)
  record (s : Session) (statement response : String) : R s (s.record statement response)
  perform (run : Runner) (s t : Session) (c : Command) (reply : Reply) :
    run.Keeps R → s.perform run c = some (t, reply) → R s t

namespace Kept

variable {R : Session → Session → Prop} {run : Runner} {mode : Mode} {line : Nat}

theorem answer (hR : Kept R) (piece : String) (s : Session) (reply : Reply) :
    R s (s.answer line piece reply) := by
  have htell : R s (s.tell line reply) := by
    match reply with
    | .ok (some response) => exact hR.say s _
    | .ok none => exact hR.refl s
    | .error e => exact hR.say s _
  unfold Session.answer
  split
  · exact htell
  · exact hR.trans htell (hR.record _ _ _)

theorem runPiece (hR : Kept R) (hrun : run.Keeps R) {s t : Session} {piece : String}
    (h : s.runPiece run line piece = some t) : R s t := by
  rw [runPiece_eq] at h
  obtain ⟨⟨u, reply⟩, hread, rfl⟩ := Option.map_eq_some_iff.mp h
  refine hR.trans ?_ (hR.answer piece u reply)
  unfold performPiece at hread
  split at hread
  · cases hread
    exact hR.refl s
  · exact hR.perform run s u _ reply hrun hread

theorem announce (hR : Kept R) (isFirst : Bool) (s : Session) (piece : String) :
    R s (s.announce mode line isFirst piece) := by
  have hecho : ∀ t : Session,
      R t (if mode = .script && t.settings.echoScript then t.say (.echo piece) else t) := by
    intro t
    split
    · exact hR.say t _
    · exact hR.refl _
  cases isFirst with
  | true => exact hecho s
  | false => exact hR.trans (hR.say s _) (hecho _)

theorem runPieces (hR : Kept R) (hrun : run.Keeps R) {s t : Session} {isFirst : Bool}
    {pieces : List String}
    (h : s.runPieces run mode line isFirst pieces = some t) : R s t := by
  induction pieces generalizing isFirst s with
  | nil =>
    cases h
    exact hR.refl _
  | cons piece pieces ih =>
    cases hrunning : s.running with
    | false =>
      unfold Session.runPieces at h
      rw [hrunning] at h
      cases h
      exact hR.refl _
    | true =>
      rw [runPieces_cons run mode line isFirst hrunning] at h
      obtain ⟨u, hpiece, hrest⟩ := Option.bind_eq_some_iff.mp h
      exact hR.trans (hR.announce isFirst s piece) (hR.trans (hR.runPiece hrun hpiece) (ih hrest))

theorem handle (hR : Kept R) (hrun : run.Keeps R) {s t : Session} {findings : List Finding}
    (h : s.handle run mode findings = some t) : R s t := by
  induction findings generalizing s with
  | nil =>
    cases h
    exact hR.refl _
  | cons finding findings ih =>
    unfold Session.handle at h
    split at h
    · cases h
      exact hR.refl _
    · obtain ⟨u, hnext, hrest⟩ := Option.bind_eq_some_iff.mp h
      refine hR.trans ?_ (ih hrest)
      cases finding with
      | remark line r =>
        cases hnext
        exact hR.say s _
      | statement st => exact hR.runPieces hrun hnext

theorem prompt (hR : Kept R) (mode : Mode) (s : Session) : R s (s.prompt mode) := by
  unfold Session.prompt
  split
  · exact hR.say s _
  · exact hR.refl s

theorem runFrom (hR : Kept R) {fuel : Nat} {source : Source} {reader : Reader} {s t : Session}
    {result : Except FileError Unit} (h : runFrom fuel mode source reader s = some (t, result)) :
    R s t := by
  -- The scripts that are loaded inside have less fuel, so they are covered by the induction.
  induction fuel generalizing mode source reader s t result with
  | zero => cases h
  | succ fuel ih =>
    have hnested : Runner.Keeps (fun s source => Session.runFrom fuel .script source .start s) R :=
      fun _ _ _ _ hscript => ih hscript
    unfold Session.runFrom at h
    split at h
    · cases h
      exact hR.refl _
    · refine hR.trans (hR.prompt mode s) ?_
      dsimp only at h
      split at h
      · cases h
      · cases h
        exact hR.refl _
      · obtain ⟨u, hend, heq⟩ := Option.map_eq_some_iff.mp h
        cases heq
        exact hR.handle hnested hend
      · obtain ⟨⟨reader', u⟩, htake, hrest⟩ := Option.bind_eq_some_iff.mp h
        obtain ⟨v, hhandle, heq⟩ := Option.map_eq_some_iff.mp htake
        cases heq
        exact hR.trans (hR.handle hnested hhandle) (ih hrest)

theorem runner (hR : Kept R) (fuel : Nat) : (Session.runner fuel).Keeps R :=
  fun _ _ _ _ h => hR.runFrom h

end Kept

/-! ## Writing and recording -/

theorem prompt_eq (mode : Mode) (s : Session) :
    s.prompt mode = { s with output := (s.prompt mode).output } := by
  unfold prompt
  split
  · rfl
  · rfl

theorem tell_eq (line : Nat) (s : Session) (reply : Reply) :
    s.tell line reply = { s with output := (s.tell line reply).output } := by
  match reply with
  | .ok (some response) => rfl
  | .ok none => rfl
  | .error e => rfl

theorem record_eq (s : Session) (statement response : String) :
    s.record statement response =
      { s with
        files := (s.record statement response).files
        log := (s.record statement response).log
        output := (s.record statement response).output } := by
  unfold record
  split
  · rfl
  · split
    · rfl
    · rfl

-- An answer is written and recorded, and nothing else is done.
theorem answer_eq (line : Nat) (piece : String) (s : Session) (reply : Reply) :
    s.answer line piece reply =
      { s with
        files := (s.answer line piece reply).files
        log := (s.answer line piece reply).log
        output := (s.answer line piece reply).output } := by
  have htell := tell_eq line s reply
  unfold answer
  split
  · rw [htell]
  · rw [record_eq, htell]

theorem announce_eq (mode : Mode) (line : Nat) (isFirst : Bool) (s : Session) (piece : String) :
    s.announce mode line isFirst piece =
      { s with output := (s.announce mode line isFirst piece).output } := by
  have hecho : ∀ t : Session,
      (if mode = .script && t.settings.echoScript then t.say (.echo piece) else t) =
        { t with output := (if mode = .script && t.settings.echoScript then t.say (.echo piece)
          else t).output } := by
    intro t
    split
    · rfl
    · rfl
  cases isFirst with
  | true => exact hecho s
  | false => exact hecho (s.say _)

theorem answer_running (line : Nat) (piece : String) (s : Session) (reply : Reply) :
    (s.answer line piece reply).running = s.running := by
  rw [answer_eq]

theorem announce_running (mode : Mode) (line : Nat) (isFirst : Bool) (s : Session)
    (piece : String) : (s.announce mode line isFirst piece).running = s.running := by
  rw [announce_eq]

/-! ## The transcript -/

theorem record_output (s : Session) (statement response : String) :
    s.output <+: (s.record statement response).output := by
  unfold record
  split
  · exact List.prefix_rfl
  · split
    · exact List.prefix_rfl
    · exact List.prefix_append _ _

theorem editAll_output (s : Session) (edits : List Edit) :
    (s.editAll edits).1.output = s.output := by
  unfold editAll
  split
  · rfl
  · rfl

theorem printTo_output (s : Session) (path : String) :
    (s.printTo path).1.output = s.output := by
  unfold printTo
  split
  · rfl
  · rfl

theorem compile_output (s : Session) (path : String) :
    (s.compile path).1.output = s.output := by
  unfold compile
  dsimp only
  split
  · rfl
  · rfl

theorem startLog_output (s : Session) (path : String) :
    (s.startLog path).1.output = s.output := by
  unfold startLog
  split
  · rfl
  · rfl

theorem load_output {run : Runner} (hrun : run.Keeps (fun s t => s.output <+: t.output))
    {s t : Session} {path : String} {reply : Reply} (h : s.load run path = some (t, reply)) :
    s.output <+: t.output := by
  unfold load at h
  split at h
  · unfold runScript at h
    split at h
    · cases h
      exact List.prefix_rfl
    · split at h
      · cases h
        exact List.prefix_rfl
      · obtain ⟨⟨u, result⟩, hscript, h⟩ := Option.bind_eq_some_iff.mp h
        have hgrows := hrun _ _ _ _ hscript
        cases result with
        | error e =>
          cases h
          exact hgrows
        | ok r =>
          cases h
          exact hgrows
  · split at h
    · cases h
      exact List.prefix_rfl
    · cases h
      exact List.prefix_rfl

-- Every command but LOAD is performed whatever the runner is, and writes nothing: its answer is
-- written by whoever asked for it.
theorem perform_of_not_load (s : Session) {c : Command} (h : ∀ path, c ≠ .load path) :
    ∃ p : Session × Reply, (∀ run, s.perform run c = some p) ∧ p.1.output = s.output := by
  cases c with
  | load path => exact absurd rfl (h path)
  | symbols names =>
    cases names with
    | nil => exact ⟨_, fun _ => rfl, rfl⟩
    | cons w names => exact ⟨_, fun _ => rfl, rfl⟩
  | states names =>
    cases names with
    | nil => exact ⟨_, fun _ => rfl, rfl⟩
    | cons w names => exact ⟨_, fun _ => rfl, rfl⟩
  | initialState name => exact ⟨_, fun _ => rfl, editAll_output s _⟩
  | finalStates names =>
    cases names with
    | nil => exact ⟨_, fun _ => rfl, rfl⟩
    | cons w names => exact ⟨_, fun _ => rfl, rfl⟩
  | transitions triples =>
    cases triples with
    | nil => exact ⟨_, fun _ => rfl, rfl⟩
    | cons t triples => exact ⟨_, fun _ => rfl, editAll_output s _⟩
  | print path =>
    cases path with
    | none => exact ⟨_, fun _ => rfl, rfl⟩
    | some path => exact ⟨_, fun _ => rfl, printTo_output s path⟩
  | compile path => exact ⟨_, fun _ => rfl, compile_output s path⟩
  | execute input => exact ⟨_, fun _ => rfl, rfl⟩
  | clear => exact ⟨_, fun _ => rfl, rfl⟩
  | log path =>
    cases path with
    | none => exact ⟨_, fun _ => rfl, rfl⟩
    | some path => exact ⟨_, fun _ => rfl, startLog_output s path⟩
  | exit => exact ⟨_, fun _ => rfl, rfl⟩

theorem perform_output {run : Runner} (hrun : run.Keeps (fun s t => s.output <+: t.output))
    {s t : Session} {c : Command} {reply : Reply} (h : s.perform run c = some (t, reply)) :
    s.output <+: t.output := by
  by_cases hload : ∃ path, c = .load path
  · obtain ⟨path, rfl⟩ := hload
    exact load_output hrun h
  · obtain ⟨p, hperform, houtput⟩ := s.perform_of_not_load (fun path heq => hload ⟨path, heq⟩)
    rw [hperform] at h
    cases h
    exact houtput ▸ List.prefix_rfl

/-- What a session wrote stays written, and later items come after it. -/
theorem output_kept : Kept (fun s t => s.output <+: t.output) where
  refl _ := List.prefix_rfl
  trans := List.IsPrefix.trans
  say _ _ := List.prefix_append _ _
  record := record_output
  perform _ _ _ _ _ hrun h := perform_output hrun h

end Statewright.Session
