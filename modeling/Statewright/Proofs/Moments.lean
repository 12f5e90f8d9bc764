import Mathlib.Logic.Relation
import Statewright.Proofs.Failure

/-!
# The moments of a run

A run is followed from one moment to the next. A moment is a session with what is still to be done
and what was done so far, so it can be said what holds in the middle of a run, however deep in
scripts that load each other, and also where a run goes on for ever. A run ends exactly if its
moments come to an end, and then with the session of the last one.
-/

namespace Statewright

/-- A script that LOAD runs: the path as it was written, where it leads, and the open file. -/
structure Script where
  path : String
  location : Location
  handle : FileTree.Handle
  deriving DecidableEq

/-- What LOAD answers when a script is over. -/
def Script.reply (script : Script) : Except FileError Unit → Reply
  | .ok () => .ok none
  | .error e => .error (.file script.path e)

namespace Session

/-! ## Scripts and everything else -/

-- Whether a script is being run is decided by one fact about locations, wherever it is asked.
local instance : LawfulBEq Location :=
  inferInstance

/-- The script that LOAD runs at a path: none if the path asks for a snapshot, if nothing can be
opened there, or if the script is being run already. -/
def scriptAt? (s : Session) (path : String) : Option Script :=
  match Format.ofPath? path s.settings.compiledExtension with
  | some _ => none
  | none =>
    match s.files.openRead path with
    | .error _ => none
    | .ok (location, handle) =>
      if location ∈ s.loading then none else some ⟨path, location, handle⟩

/-- The script that a piece runs, if it runs one. -/
def script? (s : Session) (piece : String) : Option Script :=
  match Command.parse piece with
  | .ok (.load path) => s.scriptAt? path
  | _ => none

def enter (s : Session) (script : Script) : Session :=
  { s with loading := script.location :: s.loading }

def leave (s : Session) : Session :=
  { s with loading := s.loading.tail }

/-- What LOAD does if it runs no script: the same under every runner. -/
def loadAtOnce (s : Session) (path : String) : Session × Reply :=
  (s.load (fun _ _ => none) path).getD (s, .ok none)

/-- What a piece does that runs no script. -/
def performAtOnce (s : Session) (piece : String) : Session × Reply :=
  (s.performPiece (fun _ _ => none) piece).getD (s, .ok none)

/-- LOAD runs a script and leaves it, or is done at once whatever the runner is. -/
theorem load_eq (run : Runner) (s : Session) (path : String) :
    s.load run path =
      match s.scriptAt? path with
      | some script => (run (s.enter script) (.file script.handle [])).map
          (fun (t, result) => (t.leave, script.reply result))
      | none => some (s.loadAtOnce path) := by
  unfold loadAtOnce load scriptAt?
  cases Format.ofPath? path s.settings.compiledExtension with
  | some format =>
    dsimp only
    cases Snapshot.loadMachine s.files path format with
    | error e => rfl
    | ok m => rfl
  | none =>
    unfold runScript
    cases s.files.openRead path with
    | error e => rfl
    | ok opened =>
      obtain ⟨location, handle⟩ := opened
      dsimp only
      by_cases hloading : location ∈ s.loading
      · rw [if_pos hloading, if_pos hloading, if_pos hloading]
        rfl
      · rw [if_neg hloading, if_neg hloading]
        show (run (s.enter ⟨path, location, handle⟩) (.file handle [])).bind _ = Option.map _ _
        cases run (s.enter ⟨path, location, handle⟩) (.file handle []) with
        | none => rfl
        | some r =>
          obtain ⟨t, e | u⟩ := r
          all_goals rfl

/-- A piece runs a script and leaves it, or is done at once whatever the runner is. -/
theorem performPiece_eq (run : Runner) (s : Session) (piece : String) :
    s.performPiece run piece =
      match s.script? piece with
      | some script => (run (s.enter script) (.file script.handle [])).map
          (fun (t, result) => (t.leave, script.reply result))
      | none => some (s.performAtOnce piece) := by
  unfold performAtOnce performPiece script?
  cases Command.parse piece with
  | error e => rfl
  | ok c =>
    dsimp only
    by_cases hload : ∃ path, c = .load path
    · obtain ⟨path, rfl⟩ := hload
      dsimp only [perform]
      rw [load_eq, load_eq]
      cases s.scriptAt? path with
      | none => rfl
      | some script => rfl
    · obtain ⟨p, hp, -⟩ := s.perform_of_not_load (c := c) (fun path heq => hload ⟨path, heq⟩)
      rw [hp, hp]
      split
      · next heq =>
        split at heq
        · next path hpath =>
          cases hpath
          exact absurd ⟨path, rfl⟩ hload
        · cases heq
      · rfl

/-- Writes what came of a file that was loaded outside of any statement. -/
def tellOutside (s : Session) : Reply → Session
  | .ok (some response) => s.say (.response response)
  | .ok none => s
  | .error e => s.say (.loadFailed e)

theorem loadFile_eq (fuel : Nat) (s : Session) (path : String) :
    s.loadFile fuel path =
      (s.load (runner fuel) path).map (fun (t, reply) => t.tellOutside reply) := by
  unfold loadFile
  cases s.load (runner fuel) path with
  | none => rfl
  | some p =>
    rcases p with ⟨t, e | _ | response⟩
    all_goals rfl

end Session

/-! ## Moments -/

/-- Who waits for the answer of a LOAD: a piece of a statement, or whoever keeps the session. -/
inductive Caller where
  | piece (line : Nat) (text : String)
  | outside
  deriving DecidableEq

/-- A piece that is completed, and what it answered. -/
structure Exchange where
  piece : String
  reply : Reply

def Caller.exchanges (reply : Reply) : Caller → List Exchange
  | piece _ text => [⟨text, reply⟩]
  | outside => []

def Session.replyTo (s : Session) (caller : Caller) (reply : Reply) : Session :=
  match caller with
  | .piece line text => s.answer line text reply
  | .outside => s.tellOutside reply

/-- What is still to be done. -/
inductive Task where
  /-- To read on in a source. -/
  | read (mode : Mode) (source : Source) (reader : Reader)
  /-- To deal with what was found in a line. -/
  | findings (mode : Mode) (findings : List Finding)
  /-- To perform the pieces of a statement. -/
  | pieces (mode : Mode) (line : Nat) (isFirst : Bool) (pieces : List String)
  /-- To load a file outside of any statement. -/
  | load (path : String)
  /-- To leave a script that is over, and to answer whoever waits for it. -/
  | leave (caller : Caller) (script : Script)

/-- The script that is over when the task is done, if the task is to leave one. -/
def Task.script? : Task → Option Script
  | leave _ script => some script
  | _ => none

structure Moment where
  session : Session
  /-- The pieces that were completed so far. -/
  done : List Exchange
  /-- The tasks to come, the next one first. -/
  agenda : List Task
  /-- How the last source that was read ended. -/
  result : Except FileError Unit

namespace Moment

/-- The locations of the scripts that are yet to be left, the innermost first. -/
def scripts (m : Moment) : List Location :=
  (m.agenda.filterMap Task.script?).map Script.location

/-- Answers whoever waits, and goes on. -/
def complete (m : Moment) (caller : Caller) (s : Session) (reply : Reply) (rest : List Task) :
    Moment where
  session := s.replyTo caller reply
  done := m.done ++ caller.exchanges reply
  agenda := rest
  result := .ok ()

/-- Runs a script, or completes at once what runs none. -/
def begin (m : Moment) (caller : Caller) (s : Session) (script? : Option Script)
    (atOnce : Session × Reply) (rest : List Task) : Moment :=
  match script? with
  | some script =>
    { m with
      session := s.enter script
      agenda := .read .script (.file script.handle []) .start :: .leave caller script :: rest }
  | none => m.complete caller atOnce.1 atOnce.2 rest

/-- The moment after one task, or the first step of it, while the session is running. -/
def work (m : Moment) (task : Task) (rest : List Task) : Moment :=
  match task with
  | .read mode source reader =>
    let s := m.session.prompt mode
    match source.nextLine s.files with
    -- A line that has no end is waited for.
    | none => { m with session := s, agenda := .read mode source reader :: rest }
    | some (.error e) => { m with session := s, agenda := rest, result := .error e }
    | some (.ok ([], _)) =>
      { m with session := s, agenda := .findings mode reader.finish.2 :: rest }
    | some (.ok (line, source)) =>
      let (reader, findings) := reader.push (String.ofList (Text.Utf8.decodeLossy line))
      { m with
        session := s
        agenda := .findings mode findings :: .read mode source reader :: rest }
  | .findings _ [] => { m with agenda := rest }
  | .findings mode (.remark line r :: findings) =>
    { m with
      session := m.session.say (.remark line r)
      agenda := .findings mode findings :: rest }
  | .findings mode (.statement st :: findings) =>
    { m with
      agenda := .pieces mode st.line true (Language.splitStatement st.text) ::
        .findings mode findings :: rest }
  | .pieces _ _ _ [] => { m with agenda := rest }
  | .pieces mode line isFirst (piece :: pieces) =>
    let s := m.session.announce mode line isFirst piece
    m.begin (.piece line piece) s (s.script? piece) (s.performAtOnce piece)
      (.pieces mode line false pieces :: rest)
  | .load path =>
    m.begin .outside m.session (m.session.scriptAt? path) (m.session.loadAtOnce path) rest
  | .leave caller script => m.complete caller m.session.leave (script.reply m.result) rest

/-- The next moment; none if all is done. After EXIT, tasks are dropped but for the scripts that
are left and what is asked for from outside. -/
def next (m : Moment) : Option Moment :=
  match m.agenda with
  | [] => none
  | .load path :: rest => some (m.work (.load path) rest)
  | .leave caller script :: rest => some (m.work (.leave caller script) rest)
  | task :: rest => some (if m.session.running then m.work task rest else { m with agenda := rest })

/-- Whether one moment comes after another, or is the same. -/
def Leads : Moment → Moment → Prop :=
  Relation.ReflTransGen (fun m n => m.next = some n)

/-- The piece that is performed next, if it is a piece's turn. -/
def upcoming? (m : Moment) : Option String :=
  match m.agenda with
  | .pieces _ _ _ (piece :: _) :: _ => if m.session.running then some piece else none
  | _ => none

theorem Leads.refl (m : Moment) : m.Leads m :=
  Relation.ReflTransGen.refl

theorem Leads.trans {m n k : Moment} (h : m.Leads n) (h' : n.Leads k) : m.Leads k :=
  Relation.ReflTransGen.trans h h'

theorem leads_of_next {m n k : Moment} (h : m.next = some n) (h' : n.Leads k) : m.Leads k :=
  Relation.ReflTransGen.head h h'

theorem next_unique {m n k : Moment} (h : m.next = some n) (h' : m.next = some k) : n = k :=
  Option.some.inj (h.symm.trans h')

-- Moments after which nothing is left to be done are the same if they come after the same one.
theorem Leads.last_unique {m n k : Moment} (hn : m.Leads n) (hk : m.Leads k)
    (hnlast : n.next = none) (hklast : k.next = none) : n = k := by
  have heq : ∀ {a b : Moment}, a.next = none → a.Leads b → b = a := by
    intro a b ha h
    rcases h.cases_head with hrefl | ⟨c, hc, -⟩
    · exact hrefl.symm
    · rw [ha] at hc
      cases hc
  have hunique : Relator.RightUnique (fun m n : Moment => m.next = some n) :=
    fun _ _ _ => next_unique
  rcases Relation.ReflTransGen.total_of_right_unique hunique hn hk with h | h
  · exact (heq hnlast h).symm
  · exact heq hklast h

theorem next_eq_none_iff {m : Moment} : m.next = none ↔ m.agenda = [] := by
  unfold next
  split
  · next h => exact iff_of_true rfl h
  all_goals
    next h => exact iff_of_false (Option.some_ne_none _) (by rw [h]; exact List.cons_ne_nil _ _)

/-- The moment so many steps later, or the last one. -/
def advance : Nat → Moment → Moment
  | 0, m => m
  | n + 1, m =>
    match m.next with
    | none => m
    | some k => k.advance n

theorem advance_succ {m k : Moment} (h : m.next = some k) (n : Nat) :
    m.advance (n + 1) = k.advance n := by
  rw [advance, h]

theorem leads_advance (n : Nat) (m : Moment) : m.Leads (m.advance n) := by
  induction n generalizing m with
  | zero => exact .refl m
  | succ n ih =>
    cases hnext : m.next with
    | none =>
      rw [advance, hnext]
      exact .refl m
    | some k => exact leads_of_next hnext (advance_succ hnext n ▸ ih k)

theorem advance_of_next {n : Nat} {m k : Moment} (h : (m.advance n).next = some k) :
    m.advance (n + 1) = k := by
  induction n generalizing m with
  | zero => exact advance_succ h 0
  | succ n ih =>
    cases hnext : m.next with
    | none =>
      rw [advance, hnext] at h
      rw [hnext] at h
      cases h
    | some c =>
      rw [advance_succ hnext] at h ⊢
      exact ih h

/-- Where the moments come to an end or stand still, all of them are among the first ones. -/
theorem exists_advance_of_stays {n : Nat} {m k : Moment} (h : m.Leads k)
    (hlast : ∀ c, (m.advance n).next = some c → c = m.advance n) : ∃ i ≤ n, k = m.advance i := by
  induction h with
  | refl => exact ⟨0, Nat.zero_le n, rfl⟩
  | tail _ hnext ih =>
    obtain ⟨i, hi, rfl⟩ := ih
    rcases Nat.lt_or_eq_of_le hi with hlt | rfl
    · exact ⟨i + 1, hlt, (advance_of_next hnext).symm⟩
    · exact ⟨i, Nat.le_refl i, hlast _ hnext⟩

theorem exists_advance {n : Nat} {m k : Moment} (h : m.Leads k)
    (hlast : (m.advance n).agenda = []) : ∃ i ≤ n, k = m.advance i := by
  refine exists_advance_of_stays h (fun c hc => ?_)
  rw [next_eq_none_iff.mpr hlast] at hc
  cases hc

/-! ## Runs and their moments -/

/-- Whether so many steps can be made. -/
def Lasts : Nat → Moment → Prop
  | 0, _ => True
  | n + 1, m => ∃ k, m.next = some k ∧ Lasts n k

theorem Lasts.of_succ {n : Nat} {m : Moment} (h : Lasts (n + 1) m) : Lasts n m := by
  induction n generalizing m with
  | zero => trivial
  | succ n ih =>
    obtain ⟨k, hk, hlasts⟩ := h
    exact ⟨k, hk, ih hlasts⟩

theorem lasts_of_leads {n : Nat} {m k : Moment} (h : m.Leads k) (hlasts : Lasts n k) :
    Lasts n m := by
  induction h using Relation.ReflTransGen.head_induction_on with
  | refl => exact hlasts
  | head hnext _ ih => exact Lasts.of_succ ⟨_, hnext, ih⟩

theorem exists_not_lasts {m k : Moment} (h : m.Leads k) (hlast : k.next = none) :
    ∃ n, ¬ Lasts n m := by
  induction h using Relation.ReflTransGen.head_induction_on with
  | refl =>
    refine ⟨1, ?_⟩
    rintro ⟨n, hnext, -⟩
    rw [hlast] at hnext
    cases hnext
  | head hnext _ ih =>
    obtain ⟨n, hn⟩ := ih
    refine ⟨n + 1, ?_⟩
    rintro ⟨n', hnext', hlasts⟩
    rw [next_unique hnext hnext'] at hn
    exact hn hlasts

/-- Whether a task is done as a computation says that is bounded by fuel: with its result and the
tasks behind it still to come, or, if the fuel ran out, not within so many steps. -/
def Yields (fuel : Nat) (m : Moment) (rest : List Task) :
    Option (Session × Except FileError Unit) → Prop
  | some (t, result) => ∃ done, m.Leads ⟨t, done, rest, result⟩
  | none => Lasts fuel m

namespace Yields

variable {fuel : Nat} {m k : Moment} {rest : List Task}
  {x : Option (Session × Except FileError Unit)}

theorem of_leads (h : m.Leads k) (hk : k.Yields fuel rest x) : m.Yields fuel rest x := by
  cases x with
  | none => exact lasts_of_leads h hk
  | some r =>
    obtain ⟨done, hdone⟩ := hk
    exact ⟨done, h.trans hdone⟩

theorem of_next (h : m.next = some k) (hk : k.Yields fuel rest x) : m.Yields fuel rest x :=
  hk.of_leads (leads_of_next h (.refl k))

theorem succ_of_next (h : m.next = some k) (hk : k.Yields fuel rest x) :
    m.Yields (fuel + 1) rest x := by
  cases x with
  | none => exact ⟨k, h, hk⟩
  | some r =>
    obtain ⟨done, hdone⟩ := hk
    exact ⟨done, leads_of_next h hdone⟩

-- One task after the other.
theorem bind {middle : List Task} {f : Session × Except FileError Unit →
      Option (Session × Except FileError Unit)} (h : m.Yields fuel middle x)
    (hf : ∀ t result done, (⟨t, done, middle, result⟩ : Moment).Yields fuel rest (f (t, result))) :
    m.Yields fuel rest (x.bind f) := by
  cases x with
  | none => exact h
  | some r =>
    obtain ⟨done, hdone⟩ := h
    exact (hf r.1 r.2 done).of_leads hdone

-- The same after a task that reads no source.
theorem andThen {middle : List Task} {x : Option Session}
    {f : Session → Option (Session × Except FileError Unit)}
    (h : m.Yields fuel middle (x.map (fun t => (t, .ok ()))))
    (hf : ∀ t done, (⟨t, done, middle, .ok ()⟩ : Moment).Yields fuel rest (f t)) :
    m.Yields fuel rest (x.bind f) := by
  cases x with
  | none => exact h
  | some t =>
    obtain ⟨done, hdone⟩ := h
    exact (hf t done).of_leads hdone

end Yields

/-- Whether the moments of a script are those that a runner says, up to so many steps. -/
def Follows (fuel : Nat) (run : Session.Runner) : Prop :=
  ∀ (s : Session) (source : Source) (done : List Exchange) (rest : List Task),
    (⟨s, done, .read .script source .start :: rest, .ok ()⟩ : Moment).Yields fuel rest
      (run s source)

section Layers

variable {fuel : Nat} {run : Session.Runner} {mode : Mode} {line : Nat} {s : Session}
  {rest : List Task}

theorem next_stopped {m : Moment} {task : Task} (h : m.agenda = task :: rest)
    (hrunning : m.session.running = false) (hload : ∀ path, task ≠ .load path)
    (hleave : task.script? = none) : m.next = some { m with agenda := rest } := by
  unfold next
  rw [h]
  cases task with
  | load path => exact absurd rfl (hload path)
  | leave caller script => cases hleave
  | read mode source reader => exact congrArg some (if_neg (by rw [hrunning]; decide))
  | findings mode findings => exact congrArg some (if_neg (by rw [hrunning]; decide))
  | pieces mode line isFirst pieces => exact congrArg some (if_neg (by rw [hrunning]; decide))

theorem next_running {m : Moment} {task : Task} (h : m.agenda = task :: rest)
    (hrunning : m.session.running = true) : m.next = some (m.work task rest) := by
  unfold next
  rw [h]
  cases task with
  | load path => rfl
  | leave caller script => rfl
  | read mode source reader => exact congrArg some (if_pos hrunning)
  | findings mode findings => exact congrArg some (if_pos hrunning)
  | pieces mode line isFirst pieces => exact congrArg some (if_pos hrunning)

theorem yields_runPieces (hrun : Follows fuel run) (isFirst : Bool) (pieces : List String)
    (done : List Exchange) :
    (⟨s, done, .pieces mode line isFirst pieces :: rest, .ok ()⟩ : Moment).Yields fuel rest
      ((s.runPieces run mode line isFirst pieces).map (fun t => (t, .ok ()))) := by
  induction pieces generalizing s isFirst done with
  | nil =>
    -- Nothing is left to be done, whether the session is running or not.
    exact ⟨done, leads_of_next (congrArg some (ite_self _)) (.refl _)⟩
  | cons piece pieces ih =>
    cases hrunning : s.running with
    | false =>
      rw [Session.runPieces, hrunning]
      exact ⟨done, leads_of_next (next_stopped rfl hrunning (fun _ h => by cases h) rfl) (.refl _)⟩
    | true =>
      rw [Session.runPieces_cons run mode line isFirst hrunning, Session.runPiece_eq,
        Session.performPiece_eq]
      refine Yields.of_next (next_running rfl hrunning) ?_
      unfold work begin
      dsimp only
      cases (s.announce mode line isFirst piece).script? piece with
      | none => exact ih false _
      | some script =>
        -- The script comes first, then it is left and the piece answered, then the other pieces.
        dsimp only
        rw [Option.map_map, Option.bind_map, Option.map_bind]
        refine Yields.bind (hrun _ _ _ _) (fun t result done => ?_)
        exact Yields.of_next rfl (ih false _)

theorem yields_handle (hrun : Follows fuel run) (findings : List Finding)
    (done : List Exchange) :
    (⟨s, done, .findings mode findings :: rest, .ok ()⟩ : Moment).Yields fuel rest
      ((s.handle run mode findings).map (fun t => (t, .ok ()))) := by
  induction findings generalizing s done with
  | nil => exact ⟨done, leads_of_next (congrArg some (ite_self _)) (.refl _)⟩
  | cons finding findings ih =>
    rw [Session.handle.eq_def]
    dsimp only
    cases hrunning : s.running with
    | false =>
      exact ⟨done, leads_of_next (next_stopped rfl hrunning (fun _ h => by cases h) rfl) (.refl _)⟩
    | true =>
      refine Yields.of_next (next_running rfl hrunning) ?_
      cases finding with
      | remark line r => exact ih done
      | statement st =>
        show Yields fuel _ rest (Option.map _ (Option.bind _ _))
        rw [Option.map_bind]
        exact (yields_runPieces hrun true _ done).andThen (fun _ done => ih done)

-- What is waited for does not come, so the waiting goes on.
theorem lasts_of_nextLine_eq_none {m : Moment} {source : Source} {reader : Reader}
    (h : m.agenda = .read mode source reader :: rest) (hrunning : m.session.running = true)
    (hnext : source.nextLine m.session.files = none) (n : Nat) : Lasts n m := by
  induction n generalizing m with
  | zero => trivial
  | succ n ih =>
    refine ⟨_, next_running h hrunning, ?_⟩
    unfold work
    dsimp only
    rw [m.session.prompt_eq mode]
    dsimp only
    rw [hnext]
    exact ih rfl hrunning hnext

theorem yields_runFrom (fuel : Nat) (source : Source) (reader : Reader) (done : List Exchange) :
    (⟨s, done, .read mode source reader :: rest, .ok ()⟩ : Moment).Yields fuel rest
      (Session.runFrom fuel mode source reader s) := by
  induction fuel generalizing s mode source reader done rest with
  | zero => trivial
  | succ fuel ih =>
    have hrun : Follows fuel (fun s source => Session.runFrom fuel .script source .start s) :=
      fun _ _ _ _ => ih _ _ _
    unfold Session.runFrom
    cases hrunning : s.running with
    | false =>
      exact ⟨done, leads_of_next (next_stopped rfl hrunning (fun _ h => by cases h) rfl) (.refl _)⟩
    | true =>
      dsimp only
      cases hnext : source.nextLine (s.prompt mode).files with
      | none =>
        rw [s.prompt_eq mode] at hnext
        exact lasts_of_nextLine_eq_none rfl hrunning hnext (fuel + 1)
      | some taken =>
        refine Yields.succ_of_next (next_running rfl hrunning) ?_
        unfold work
        dsimp only
        rw [hnext]
        obtain e | ⟨_ | ⟨b, line⟩, source⟩ := taken
        · exact ⟨done, .refl _⟩
        · exact yields_handle hrun _ done
        · show Yields fuel _ rest (Option.bind (Option.map _ _) _)
          rw [Option.bind_map]
          exact (yields_handle hrun _ done).andThen (fun _ done => ih _ _ done)

theorem yields_loadFile (fuel : Nat) (path : String) (done : List Exchange) :
    (⟨s, done, .load path :: rest, .ok ()⟩ : Moment).Yields fuel rest
      ((s.loadFile fuel path).map (fun t => (t, .ok ()))) := by
  refine Yields.of_next (k := begin _ _ _ _ _ _) rfl ?_
  rw [Session.loadFile_eq, Session.load_eq]
  unfold begin
  cases s.scriptAt? path with
  | none => exact ⟨_, .refl _⟩
  | some script =>
    dsimp only
    rw [Option.map_map, Option.map_map, Option.map_eq_bind]
    refine Yields.bind (yields_runFrom fuel _ _ _) (fun t result done => ?_)
    exact Yields.of_next rfl ⟨_, .refl _⟩

end Layers

-- A computation whose moments are these has the result that the last of them has.
theorem exists_fuel_iff {m : Moment} {f : Nat → Option (Session × Except FileError Unit)}
    (h : ∀ fuel, m.Yields fuel [] (f fuel)) {t : Session} {result : Except FileError Unit} :
    (∃ fuel, f fuel = some (t, result)) ↔ ∃ done, m.Leads ⟨t, done, [], result⟩ := by
  constructor
  · rintro ⟨fuel, heq⟩
    have hyields := h fuel
    rw [heq] at hyields
    exact hyields
  · rintro ⟨done, hleads⟩
    -- So many steps cannot be made, so fuel for as many cannot run out.
    obtain ⟨fuel, hlasts⟩ := exists_not_lasts hleads rfl
    have hyields := h fuel
    refine ⟨fuel, ?_⟩
    cases hx : f fuel with
    | none =>
      rw [hx] at hyields
      exact absurd hyields hlasts
    | some r =>
      rw [hx] at hyields
      obtain ⟨done', hleads'⟩ := hyields
      cases hleads.last_unique hleads' rfl rfl
      rfl

/-! ## Sessions -/

end Moment

/-- What can be asked of a session from outside. -/
inductive Call where
  | run (mode : Mode) (input : List UInt8)
  | load (path : String)

def Call.task : Call → Task
  | run mode input => .read mode (.bytes input) .start
  | load path => .load path

/-- Does what is asked of a session, with so much fuel. Bytes at hand can always be read. -/
def Session.call (fuel : Nat) (s : Session) : Call → Option Session
  | .run mode input => (s.run fuel mode input).map Prod.fst
  | .load path => s.loadFile fuel path

def Session.callAll (fuel : Nat) (s : Session) : List Call → Option Session
  | [] => some s
  | call :: calls => (s.call fuel call).bind (fun t => t.callAll fuel calls)

namespace Moment

/-- The moment at which a session is asked for something. -/
def start (s : Session) (calls : List Call) : Moment :=
  ⟨s, [], calls.map Call.task, .ok ()⟩

/-- A run ends exactly if its moments come to an end, and then with the session and the result of
the last one. -/
theorem run_iff {s t : Session} {mode : Mode} {input : List UInt8}
    {result : Except FileError Unit} :
    (∃ fuel, s.run fuel mode input = some (t, result)) ↔
      ∃ done, (start s [.run mode input]).Leads ⟨t, done, [], result⟩ :=
  exists_fuel_iff (fun fuel => yields_runFrom fuel _ _ _)

theorem yields_call (fuel : Nat) (s : Session) (call : Call) (done : List Exchange)
    (rest : List Task) :
    (⟨s, done, call.task :: rest, .ok ()⟩ : Moment).Yields fuel rest
      ((s.call fuel call).map (fun t => (t, .ok ()))) := by
  cases call with
  | load path => exact yields_loadFile fuel path done
  | run mode input =>
    have hrun : (s.run fuel mode input).map ((fun t => (t, .ok ())) ∘ Prod.fst) =
        s.run fuel mode input := by
      cases h : s.run fuel mode input with
      | none => rfl
      | some r =>
        have hok := Session.runFrom_of_readable (show Source.Readable (.bytes input) from trivial) h
        rw [← hok]
        rfl
    show Yields fuel _ rest (Option.map _ (Option.map _ _))
    rw [Option.map_map, hrun]
    exact yields_runFrom fuel _ _ done

theorem call_iff {s t : Session} {call : Call} :
    (∃ fuel, s.call fuel call = some t) ↔
      ∃ done, (start s [call]).Leads ⟨t, done, [], .ok ()⟩ := by
  have hiff := @exists_fuel_iff _ _ (fun fuel => yields_call fuel s call [] []) t (.ok ())
  simp only [Option.map_eq_some_iff, Prod.mk.injEq, and_true, exists_eq_right] at hiff
  exact hiff

theorem yields_callAll (fuel : Nat) (s : Session) (calls : List Call) (done : List Exchange) :
    (⟨s, done, calls.map Call.task, .ok ()⟩ : Moment).Yields fuel []
      ((s.callAll fuel calls).map (fun t => (t, .ok ()))) := by
  induction calls generalizing s done with
  | nil => exact ⟨done, .refl _⟩
  | cons call calls ih =>
    show Yields fuel _ [] (Option.map _ (Option.bind _ _))
    rw [Option.map_bind]
    exact (yields_call fuel s call done _).andThen (fun t done => ih t done)

/-- What is asked of a session one thing after the other is done exactly if the moments come to an
end, and then the session is that of the last one. -/
theorem callAll_iff {s t : Session} {calls : List Call} :
    (∃ fuel, s.callAll fuel calls = some t) ↔
      ∃ done, (start s calls).Leads ⟨t, done, [], .ok ()⟩ := by
  have hiff := @exists_fuel_iff _ _ (fun fuel => yields_callAll fuel s calls []) t (.ok ())
  simp only [Option.map_eq_some_iff, Prod.mk.injEq, and_true, exists_eq_right] at hiff
  exact hiff

end Moment

/-- A session between the things that are asked of it. -/
inductive Session.AtRest : Session → Prop
  | start (settings : Settings) (stamp : Stamp) (files : FileTree) :
      AtRest (Session.start settings stamp files)
  | call {s t : Session} {fuel : Nat} {call : Call} :
      AtRest s → s.call fuel call = some t → AtRest t

-- What every step keeps is kept between the things that are asked of a session.
theorem Session.AtRest.induction {P : Session → Prop}
    (hstart : ∀ settings stamp files, P (Session.start settings stamp files))
    (hcall : ∀ s call t done, P s → (Moment.start s [call]).Leads ⟨t, done, [], .ok ()⟩ → P t)
    {s : Session} (h : s.AtRest) : P s := by
  induction h with
  | start settings stamp files => exact hstart settings stamp files
  | call _ hcalled ih =>
    obtain ⟨done, hleads⟩ := Moment.call_iff.mp ⟨_, hcalled⟩
    exact hcall _ _ _ done ih hleads

end Statewright
