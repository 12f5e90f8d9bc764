import Statewright.Proofs.Exit
import Statewright.Proofs.OpenFiles
import Statewright.Session.Recorder

/-!
# What a recorder writes

After any steps of a recorder, the file of every log that was started holds the entries recorded in
it since it was started last, and no other file has changed. A file counts under all its names. What
the files hold never waits for a later step: an entry is in the file as soon as it is recorded.
-/

namespace Statewright

namespace Recorder

/-! ## Histories -/

/-- The path of a log that was started. -/
def Event.started? : Event → Option String
  | ⟨.start path, .ok _⟩ => some path
  | _ => none

def Event.isRecord : Event → Bool
  | ⟨.record _ _, _⟩ => true
  | _ => false

/-- What a record adds to a file. -/
def Event.entry : Event → List UInt8
  | ⟨.record statement response, _⟩ =>
    Text.Utf8.encode ("> " ++ statement ++ "\n" ++ response ++ "\n").toList
  | _ => []

/-- Whether a log was started at a path, at any time. -/
def Started (events : List Event) (path : String) : Prop :=
  ∃ e ∈ events, e.started? = some path

/-- Whether the log at a path is active: it was started, and since then there was no stop and no
other start, be it one that failed. -/
def Active (events : List Event) (path : String) : Prop :=
  ∃ before e later, events = before ++ e :: later ∧ e.started? = some path ∧
    ∀ x ∈ later, x.isRecord = true

/-- The path of the log that is active: the last step but for records started it. -/
def active? (events : List Event) : Option String :=
  (events.filter (fun e => !e.isRecord)).getLast?.bind Event.started?

/-- The entries of records for a file, in order: those that were made while a log of the file was
active, and after which none was started. `past` is what came before the events. -/
def entriesAfter (ofFile : String → Bool) (past : List Event) : List Event → List UInt8
  | [] => []
  | e :: later =>
    (if (active? past).any ofFile && !later.any (fun x => x.started?.any ofFile) then e.entry
      else []) ++ entriesAfter ofFile (past ++ [e]) later

/-- The entries recorded for a file since a log of it was started last. -/
def entries (ofFile : String → Bool) (events : List Event) : List UInt8 :=
  entriesAfter ofFile [] events

variable {events past : List Event} {e : Event} {path : String} {p q : String → Bool}

theorem Event.isRecord_of_started? (h : e.started? = some path) : e.isRecord = false := by
  unfold Event.started? at h
  split at h
  · rfl
  · cases h

theorem Event.entry_of_not_isRecord (h : e.isRecord = false) : e.entry = [] := by
  unfold Event.isRecord at h
  split at h
  · cases h
  · next hother =>
    unfold Event.entry
    split
    · exact absurd rfl (hother _ _ _)
    · rfl

theorem started_concat_iff :
    Started (events ++ [e]) path ↔ Started events path ∨ e.started? = some path := by
  unfold Started
  simp only [List.mem_append, List.mem_singleton, or_and_right, exists_or, exists_eq_left]

theorem started_concat_of_none (h : e.started? = none) :
    Started (events ++ [e]) path ↔ Started events path := by
  rw [started_concat_iff, h, or_iff_left (fun h => by cases h)]

theorem active?_concat (events : List Event) (e : Event) :
    active? (events ++ [e]) = if e.isRecord then active? events else e.started? := by
  unfold active?
  rw [List.filter_append]
  cases hrecord : e.isRecord with
  | true => simp [hrecord]
  | false => simp [hrecord]

theorem Active.active? (h : Active events path) : active? events = some path := by
  obtain ⟨before, e, later, rfl, hstarted, hlater⟩ := h
  have hnone : later.filter (fun e => !e.isRecord) = [] :=
    List.filter_eq_nil_iff.mpr (fun x hx => by simp [hlater x hx])
  rw [Recorder.active?, List.filter_append, List.filter_cons,
    Event.isRecord_of_started? hstarted, hnone, Bool.not_false, if_pos rfl, List.getLast?_concat]
  exact hstarted

theorem active_of_active? (h : active? events = some path) : Active events path := by
  induction events using List.reverseRecOn with
  | nil => cases h
  | append_singleton events last ih =>
    rw [active?_concat] at h
    split at h
    · next hrecord =>
      obtain ⟨before, e, later, rfl, hstarted, hlater⟩ := ih h
      refine ⟨before, e, later ++ [last], ?_, hstarted, ?_⟩
      · rw [List.append_assoc, List.cons_append]
      · exact List.forall_mem_append.mpr ⟨hlater, List.forall_mem_singleton.mpr hrecord⟩
    · exact ⟨events, last, [], rfl, h, fun x hx => absurd hx List.not_mem_nil⟩

theorem active?_eq_some_iff : active? events = some path ↔ Active events path :=
  ⟨active_of_active?, Active.active?⟩

theorem started_of_active? (h : active? events = some path) : Started events path := by
  obtain ⟨before, e, later, rfl, hstarted, -⟩ := active_of_active? h
  exact ⟨e, List.mem_append_right _ List.mem_cons_self, hstarted⟩

-- A start of the file takes all entries away, and any other event adds its own, if it has one.
theorem entriesAfter_concat (p : String → Bool) (past events : List Event) (e : Event) :
    entriesAfter p past (events ++ [e]) =
      if e.started?.any p then []
      else entriesAfter p past events ++
        if (active? (past ++ events)).any p then e.entry else [] := by
  induction events generalizing past with
  | nil =>
    rw [List.append_nil]
    show (if (active? past).any p && !false then e.entry else []) ++ [] = _
    rw [List.append_nil, Bool.not_false, Bool.and_true]
    cases hstarted : e.started? with
    | none => rfl
    | some path =>
      -- A start has no entry of its own, so it does not matter which log was active.
      rw [Event.entry_of_not_isRecord (Event.isRecord_of_started? hstarted), ite_self]
      exact (ite_self _).symm
  | cons x events ih =>
    show (if _ && !(events ++ [e]).any _ then x.entry else []) ++
      entriesAfter p (past ++ [x]) (events ++ [e]) = _
    rw [ih, List.any_append, List.append_assoc, List.singleton_append]
    cases hstarted : e.started?.any p with
    | true => simp [hstarted]
    | false => simp [hstarted, entriesAfter]

theorem entries_concat (p : String → Bool) (events : List Event) (e : Event) :
    entries p (events ++ [e]) =
      if e.started?.any p then []
      else entries p events ++ if (active? events).any p then e.entry else [] :=
  entriesAfter_concat p [] events e

-- Only the paths of logs that were started count.
theorem entries_congr (h : ∀ path, Started events path → p path = q path) :
    entries p events = entries q events := by
  induction events using List.reverseRecOn with
  | nil => rfl
  | append_singleton events e ih =>
    have hbefore : ∀ path, Started events path → p path = q path :=
      fun path hpath => h path (started_concat_iff.mpr (.inl hpath))
    have hstarted : e.started?.any p = e.started?.any q := by
      cases he : e.started? with
      | none => rfl
      | some path => exact h path (started_concat_iff.mpr (.inr he))
    have hactive : (active? events).any p = (active? events).any q := by
      cases ha : active? events with
      | none => rfl
      | some path => exact hbefore path (started_of_active? ha)
    rw [entries_concat, entries_concat, ih hbefore, hstarted, hactive]

end Recorder

/-! ## Logs -/

namespace Log

/-- Whether a log stands at the end of the file that its path leads to, and nothing waits to be
written. -/
structure AtEnd (log : Log) (t : FileTree) : Prop where
  pending : log.pending = []
  file : ∃ id, t.fileId? log.path = some id ∧ log.handle = ⟨.file id, (t.content id).length⟩

variable {log : Log} {t : FileTree}

theorem AtEnd.settled (h : log.AtEnd t) : log.Settled := by
  obtain ⟨id, -, hhandle⟩ := h.file
  refine ⟨?_, .inr h.pending⟩
  rw [hhandle]
  exact fun h => by cases h

/-- An entry goes to the end of the file, where the log stands afterwards. -/
theorem AtEnd.record (h : log.AtEnd t) (hb : t.Backed) (statement response : String) :
    ∃ u next id, log.record t statement response = (u, next, .ok ()) ∧ next.path = log.path ∧
      next.AtEnd u ∧ t.fileId? log.path = some id ∧
      u.content id = t.content id ++ entry statement response ∧ t.Confined u {id} := by
  obtain ⟨id, hid, hhandle⟩ := h.file
  obtain ⟨u, hwrite, hcontent, hconfined⟩ :=
    FileTree.write_end hb (hb.lt_of_fileId? hid) (entry statement response)
  refine ⟨u, { log with handle := ⟨.file id, (u.content id).length⟩, pending := [] }, id, ?_, rfl,
    ⟨rfl, id, hconfined.fileId? hid, rfl⟩, hid, hcontent, hconfined⟩
  rw [Log.record, h.pending, List.nil_append, flush]
  dsimp only
  rw [hhandle, hwrite]

end Log

/-! ## Steps -/

namespace Recorder

/-- Whether the log that is kept, if one is, stands at its end. -/
def AtEnd (r : Recorder) : Prop :=
  ∀ log, r.log = some log → log.AtEnd r.files

/-- What a step can do: end the log that is kept, start one whose file is empty, or record an entry
at the end of its file. Nothing is recorded without a log. -/
inductive Taken (r : Recorder) : Event → Recorder → Prop
  | ended (e : Event) (hrecord : e.isRecord = false) (hstarted : e.started? = none) :
      Taken r e ⟨none, r.files⟩
  | started (message : Option String) (log : Log) (files : FileTree) (id : Nat)
      (hlog : log.AtEnd files) (hid : files.fileId? log.path = some id)
      (hempty : files.content id = []) (hconfined : r.files.Confined files {id}) :
      Taken r ⟨.start log.path, .ok message⟩ ⟨some log, files⟩
  | ignored (statement response : String) (hnone : r.log = none) :
      Taken r ⟨.record statement response, .ok none⟩ r
  | recorded (statement response : String) (log next : Log) (files : FileTree) (id : Nat)
      (hsome : r.log = some log) (hpath : next.path = log.path) (hnext : next.AtEnd files)
      (hid : r.files.fileId? log.path = some id)
      (hcontent : files.content id = r.files.content id ++
        Event.entry ⟨.record statement response, .ok none⟩)
      (hconfined : r.files.Confined files {id}) :
      Taken r ⟨.record statement response, .ok none⟩ ⟨some next, files⟩

variable {r : Recorder}

theorem AtEnd.stop (h : r.AtEnd) : (Log.stop r.log r.files).1 = r.files :=
  Log.stop_of_settled (fun log hlog => (h log hlog).settled) r.files

theorem AtEnd.perform_start (h : r.AtEnd) {path : String} {files : FileTree}
    {handle : FileTree.Handle} (hopen : r.files.openWrite path = .ok (files, handle)) :
    r.perform (.start path) =
      (⟨some ⟨path, handle, []⟩, files⟩, .ok (some (Log.startedMessage path))) := by
  rw [perform, Log.start]
  dsimp only
  rw [h.stop, hopen]
  rfl

theorem AtEnd.perform_start_of_error (h : r.AtEnd) {path : String} {e : FileError}
    (hopen : r.files.openWrite path = .error e) :
    r.perform (.start path) = (⟨none, r.files⟩, .error e) := by
  rw [perform, Log.start]
  dsimp only
  rw [h.stop, hopen]
  rfl

/-- A start that fails ends the log that is kept, and leaves the files as they were. -/
theorem AtEnd.perform_start_error (h : r.AtEnd) {path : String} {e : FileError}
    (hfails : (r.perform (.start path)).2 = .error e) :
    (r.perform (.start path)).1 = ⟨none, r.files⟩ := by
  cases hopen : r.files.openWrite path with
  | error e' => rw [h.perform_start_of_error hopen]
  | ok opened =>
    rw [h.perform_start hopen] at hfails
    cases hfails

theorem taken_perform (h : r.AtEnd) (hb : r.files.Backed) (step : Step)
    (htakes : ∀ path, step = .start path → r.files.TakesBytes path) :
    r.Taken ⟨step, (r.perform step).2⟩ (r.perform step).1 := by
  cases step with
  | start path =>
    cases hopen : r.files.openWrite path with
    | error e =>
      rw [h.perform_start_of_error hopen]
      exact .ended _ rfl rfl
    | ok opened =>
      obtain ⟨files, handle⟩ := opened
      obtain ⟨id, rfl, hid, hempty, hconfined⟩ :=
        FileTree.confined_openWrite hb (htakes path rfl) hopen
      rw [h.perform_start hopen]
      refine .started _ ⟨path, ⟨.file id, 0⟩, []⟩ files id ⟨rfl, id, hid, ?_⟩ hid hempty hconfined
      rw [hempty]
      rfl
  | stop =>
    rw [perform]
    dsimp only
    rw [h.stop]
    exact .ended _ rfl rfl
  | record statement response =>
    rw [perform]
    cases hlog : r.log with
    | none => exact .ignored statement response hlog
    | some log =>
      obtain ⟨files, next, id, hrecord, hpath, hnext, hid, hcontent, hconfined⟩ :=
        (h log hlog).record hb statement response
      dsimp only
      rw [hrecord]
      exact .recorded statement response log next files id hlog hpath hnext hid hcontent hconfined

/-! ## Runs -/

/-- What files hold after some events, among files that were `t` before. -/
structure Held (t files : FileTree) (events : List Event) : Prop where
  confined : t.Confined files {id | ∃ path, Started events path ∧ files.fileId? path = some id}
  found (path : String) : Started events path → ∃ id, files.fileId? path = some id
  content (path : String) (id : Nat) : Started events path → files.fileId? path = some id →
    files.content id = entries (files.leadsTo id) events

namespace Held

variable {t u v : FileTree} {events : List Event} {e : Event} {path : String} {id : Nat}

theorem begin (hb : t.Backed) : Held t t [] where
  confined := .refl hb _
  found path h := by
    obtain ⟨e, he, -⟩ := h
    cases he
  content path id h := by
    obtain ⟨e, he, -⟩ := h
    cases he

/-- A step that starts no log and records nothing leaves everything as it is. -/
theorem quiet (h : Held t u events) (hstarted : e.started? = none)
    (hentry : active? events ≠ none → e.entry = []) : Held t u (events ++ [e]) := by
  have hsame : ∀ path, Started (events ++ [e]) path ↔ Started events path :=
    fun _ => started_concat_of_none hstarted
  have hentries : ∀ p, entries p (events ++ [e]) = entries p events := by
    intro p
    rw [entries_concat, hstarted]
    cases hactive : active? events with
    | none => exact List.append_nil _
    | some path =>
      rw [hentry (by rw [hactive]; exact Option.some_ne_none path), ite_self]
      exact List.append_nil _
  refine ⟨?_, fun path hpath => h.found path ((hsame path).mp hpath), fun path id hpath hid => ?_⟩
  · simp only [hsame]
    exact h.confined
  · rw [hentries]
    exact h.content path id ((hsame path).mp hpath) hid

/-- A path that leads to the file of a log goes on to do so. -/
theorem fileId?_eq (h : Held t u events) {ids : Set Nat} (hconfined : u.Confined v ids)
    (hpath : Started events path) : v.fileId? path = u.fileId? path := by
  obtain ⟨id, hid⟩ := h.found path hpath
  rw [hid]
  exact hconfined.fileId? hid

theorem entries_eq (h : Held t u events) {ids : Set Nat} (hconfined : u.Confined v ids)
    (id : Nat) : entries (v.leadsTo id) events = entries (u.leadsTo id) events := by
  refine entries_congr (fun path hpath => ?_)
  rw [FileTree.leadsTo, FileTree.leadsTo, h.fileId?_eq hconfined hpath]

-- All changes are to files of logs, if the last one is.
theorem confined_concat (h : Held t u events) (hconfined : u.Confined v {id})
    (hpath : Started (events ++ [e]) path) (hid : v.fileId? path = some id) :
    t.Confined v {id | ∃ path, Started (events ++ [e]) path ∧ v.fileId? path = some id} := by
  refine (h.confined.mono ?_).trans (hconfined.mono ?_)
  · rintro k ⟨p, hp, hk⟩
    exact ⟨p, started_concat_iff.mpr (.inl hp), hconfined.fileId? hk⟩
  · rintro k rfl
    exact ⟨path, hpath, hid⟩

/-- A log that is started is empty, and the other ones hold what they held. -/
theorem started (h : Held t u events) (hconfined : u.Confined v {id})
    (hstarted : e.started? = some path) (hid : v.fileId? path = some id)
    (hempty : v.content id = []) : Held t v (events ++ [e]) where
  confined := h.confined_concat hconfined (started_concat_iff.mpr (.inr hstarted)) hid
  found p hp := by
    rcases started_concat_iff.mp hp with hp | hp
    · rw [h.fileId?_eq hconfined hp]
      exact h.found p hp
    · cases hstarted.symm.trans hp
      exact ⟨id, hid⟩
  content p k hp hk := by
    have hnone : e.entry = [] :=
      Event.entry_of_not_isRecord (Event.isRecord_of_started? hstarted)
    rw [entries_concat, hstarted, Option.any_some, FileTree.leadsTo, hid, hnone, ite_self,
      List.append_nil]
    -- The path may be another name of the file that was emptied.
    by_cases hsame : id = k
    · subst hsame
      rw [decide_eq_true rfl, if_pos rfl]
      exact hempty
    · rw [decide_eq_false (fun heq => hsame (Option.some.inj heq)), if_neg Bool.false_ne_true]
      rcases started_concat_iff.mp hp with hp | hp
      · rw [hconfined.content hk (Ne.symm hsame), h.entries_eq hconfined]
        exact h.content p k hp ((h.fileId?_eq hconfined hp).symm.trans hk)
      · cases hstarted.symm.trans hp
        exact absurd (Option.some.inj (hid.symm.trans hk)) hsame

/-- An entry is added to the file of the log that is active, and to no other one. -/
theorem recorded (h : Held t u events) (hconfined : u.Confined v {id})
    (hstarted : e.started? = none) (hactive : active? events = some path)
    (hid : u.fileId? path = some id) (hcontent : v.content id = u.content id ++ e.entry) :
    Held t v (events ++ [e]) where
  confined := h.confined_concat hconfined
    (started_concat_iff.mpr (.inl (started_of_active? hactive))) (hconfined.fileId? hid)
  found p hp := by
    have hbefore := (started_concat_of_none hstarted).mp hp
    rw [h.fileId?_eq hconfined hbefore]
    exact h.found p hbefore
  content p k hp hk := by
    have hbefore := (started_concat_of_none hstarted).mp hp
    have hheld := h.content p k hbefore ((h.fileId?_eq hconfined hbefore).symm.trans hk)
    rw [entries_concat, hstarted, hactive, Option.any_some, FileTree.leadsTo, hconfined.fileId? hid,
      h.entries_eq hconfined, ← hheld]
    show _ = u.content k ++ _
    by_cases hsame : id = k
    · subst hsame
      rw [decide_eq_true rfl, if_pos rfl]
      exact hcontent
    · rw [decide_eq_false (fun heq => hsame (Option.some.inj heq)), if_neg Bool.false_ne_true,
        List.append_nil]
      exact hconfined.content hk (Ne.symm hsame)

end Held

/-- What holds of a recorder after some events, among files that were `t` before. -/
structure Standing (t : FileTree) (events : List Event) (r : Recorder) : Prop where
  held : Held t r.files events
  path : r.path? = active? events
  atEnd : r.AtEnd
  recorded (e : Event) : e ∈ events → e.isRecord = true → e.answer = .ok none

namespace Standing

variable {t : FileTree} {events : List Event} {e : Event} {r r' : Recorder}

theorem taken (h : Standing t events r) (htaken : r.Taken e r') :
    Standing t (events ++ [e]) r' := by
  have hrecorded : (e.isRecord = true → e.answer = .ok none) →
      ∀ x ∈ events ++ [e], x.isRecord = true → x.answer = .ok none :=
    fun he => List.forall_mem_append.mpr ⟨h.recorded, List.forall_mem_singleton.mpr he⟩
  cases htaken with
  | ended _ hrecord hstarted =>
    refine ⟨h.held.quiet hstarted (fun _ => Event.entry_of_not_isRecord hrecord), ?_,
      (fun log hlog => by cases hlog), hrecorded (fun he => ?_)⟩
    · rw [active?_concat, hrecord, if_neg Bool.false_ne_true, hstarted]
      rfl
    · rw [hrecord] at he
      cases he
  | started message log files id hlog hid hempty hconfined =>
    refine ⟨h.held.started hconfined rfl hid hempty, ?_, ?_, hrecorded (fun he => by cases he)⟩
    · rw [active?_concat]
      rfl
    · intro log' hlog'
      cases hlog'
      exact hlog
  | ignored statement response hnone =>
    have hactive : active? events = none := by
      rw [← h.path, path?, hnone]
      rfl
    refine ⟨h.held.quiet rfl (fun hsome => absurd hactive hsome), ?_, h.atEnd,
      hrecorded (fun _ => rfl)⟩
    rw [active?_concat]
    exact h.path
  | recorded statement response log next files id hsome hpath hnext hid hcontent hconfined =>
    have hactive : active? events = some log.path := by
      rw [← h.path, path?, hsome]
      rfl
    refine ⟨h.held.recorded hconfined rfl hactive hid hcontent, ?_, ?_, hrecorded (fun _ => rfl)⟩
    · rw [active?_concat, path?]
      exact (congrArg some hpath).trans hactive.symm
    · intro log' hlog'
      cases hlog'
      exact hnext

theorem run {steps : List Step} (h : Standing t events r)
    (htakes : ∀ path, .start path ∈ steps → t.TakesBytes path) :
    Standing t (events ++ (r.run steps).2) (r.run steps).1 := by
  -- What came before is general, so that every step adds its event to it.
  induction steps generalizing events r with
  | nil =>
    rw [Recorder.run, List.append_nil]
    exact h
  | cons step steps ih =>
    -- Only files were added since, so a path that led to no device still leads to none.
    have hstep : ∀ path, step = .start path → r.files.TakesBytes path := by
      rintro path rfl
      exact h.held.confined.takesBytes (htakes path List.mem_cons_self)
    have hnext := h.taken (taken_perform h.atEnd h.held.confined.backed step hstep)
    have hlast := ih hnext (fun path hpath => htakes path (List.mem_cons_of_mem _ hpath))
    rw [List.append_assoc] at hlast
    exact hlast

end Standing

/-- What a recorder that began with no log and files `t` tells and has written, after some events.
A file counts under all its names: records belong to it whichever path its log was started at. -/
structure Reflects (t : FileTree) (events : List Event) (r : Recorder) : Prop where
  /-- Every record succeeds. -/
  recorded (e : Event) : e ∈ events → e.isRecord = true → e.answer = .ok none
  /-- The file of each log holds its entries. -/
  holds (path : String) : Started events path → ∃ id, r.files.fileId? path = some id ∧
    r.files.readFile path = .ok (entries (r.files.leadsTo id) events)
  /-- All that is no file of a log is as it was. -/
  others (l : Location) : (∀ path id, Started events path → r.files.fileId? path = some id →
    r.files.lookup l ≠ some (.file id)) → t.Keeps r.files l
  path (path : String) : r.path? = some path ↔ Active events path
  active : r.isActive = true ↔ ∃ path, Active events path
  /-- A start that fails ends the log and changes no file, so that of the log that was active keeps
  all its entries. -/
  failed (path : String) (e : FileError) : (r.perform (.start path)).2 = .error e →
    (r.perform (.start path)).1 = ⟨none, r.files⟩
  /-- Without a log nothing is recorded. -/
  idle (statement response : String) : (∀ path, ¬ Active events path) →
    r.perform (.record statement response) = (r, .ok none)

theorem Standing.reflects {t : FileTree} {events : List Event} {r : Recorder}
    (h : Standing t events r) : Reflects t events r where
  recorded := h.recorded
  holds path hpath := by
    obtain ⟨id, hid⟩ := h.held.found path hpath
    refine ⟨id, hid, ?_⟩
    rw [FileTree.readFile_of_fileId? hid, h.held.content path id hpath hid]
  others l hl := h.held.confined.keeps l (fun id ⟨path, hpath, hid⟩ => hl path id hpath hid)
  path path := by rw [h.path, active?_eq_some_iff]
  active := by
    have hisActive : r.isActive = (active? events).isSome := by
      rw [← h.path, isActive, path?, Option.isSome_map]
    rw [hisActive, Option.isSome_iff_exists]
    exact exists_congr (fun _ => active?_eq_some_iff)
  failed path e := h.atEnd.perform_start_error
  idle statement response hidle := by
    have hnone : r.log = none := by
      cases hlog : r.log with
      | none => rfl
      | some log =>
        refine absurd (active_of_active? ?_) (hidle log.path)
        rw [← h.path, path?, hlog]
        rfl
    rw [perform, hnone]

/-- Whatever steps a recorder takes, after each of them the file of every log that was started holds
the entries recorded in it since it was started last, and nothing else has changed. It is assumed
that a file can be written once a log is started in it. -/
theorem run_reflects {t : FileTree} (hb : t.Backed) (steps : List Step)
    (htakes : ∀ path, .start path ∈ steps → t.TakesBytes path) :
    Reflects t ((fresh t).run steps).2 ((fresh t).run steps).1 := by
  have hfresh : Standing t [] (fresh t) :=
    ⟨.begin hb, rfl, (fun log h => by cases h), (fun e he => by cases he)⟩
  exact (hfresh.run htakes).reflects

/-- Files of which one has two names. -/
def linked : FileTree :=
  (((FileTree.empty ["home"]).addFile ["home", "old"] [1, 2]).addFile ["home", "other"] [3]).bind
    ["home", "link"] (.file 0)

theorem backed_linked : linked.Backed := by
  have hsound := ((FileTree.sound_empty ["home"]).addFile (l := ["home", "old"]) (by decide)
    [1, 2]).addFile (l := ["home", "other"]) (by decide) [3]
  exact hsound.backed.bind (by decide) (by decide +kernel)

/-- Steps that start a log in a file twice, under each of its names, and then fail to start one
before they start another. -/
def interleaved : List Step :=
  [.start "old", .record "STATES q;" "", .record "CLEAR;" "CLEARED", .start "link",
    .record "SYMBOLS a;" "", .start "missing/log", .record "EXECUTE a;" "NO", .start "new",
    .record "PRINT;" "FSM is empty"]

/-- The premises hold of such steps: the entry that came between two logs is in no file. -/
theorem run_reflects_interleaved :
    let r := ((fresh linked).run interleaved).1
    r.files.readFile "old" = .ok (Text.Utf8.encode "> SYMBOLS a;\n\n".toList) ∧
      r.files.readFile "new" = .ok (Text.Utf8.encode "> PRINT;\nFSM is empty\n".toList) ∧
      linked.Keeps r.files ["home", "other"] ∧ r.path? = some "new" ∧
      (r.perform (.start "missing/log")).1 = ⟨none, r.files⟩ := by
  intro r
  have htakes : ∀ path, .start path ∈ interleaved → linked.TakesBytes path := by
    have hall : interleaved.all (fun step =>
        match step with
        | .start path => (linked.openWrite path).toOption.all (fun p => p.2.entry ≠ .fullDevice)
        | _ => true) = true := by
      decide +kernel
    intro path hpath
    refine FileTree.takesBytes_of_entry (fun u handle hopen => ?_)
    have hentry := List.all_eq_true.mp hall _ hpath
    dsimp only at hentry
    rw [hopen] at hentry
    exact of_decide_eq_true hentry
  have h := run_reflects backed_linked interleaved htakes
  have hstarted : ((fresh linked).run interleaved).2.filterMap Event.started? =
      ["old", "link", "new"] := by
    decide +kernel
  have hread : ∀ path ∈ ["old", "link", "new"], ∀ id bytes, r.files.fileId? path = some id →
      entries (r.files.leadsTo id) ((fresh linked).run interleaved).2 = bytes →
      r.files.readFile path = .ok bytes := by
    rintro path hpath id bytes hid rfl
    rw [← hstarted] at hpath
    obtain ⟨k, hk, hholds⟩ := h.holds path (List.mem_filterMap.mp hpath)
    cases hid.symm.trans hk
    exact hholds
  refine ⟨?_, ?_, ?_, ?_, ?_⟩
  · exact hread "old" (by decide) 0 _ (by decide +kernel) (by decide +kernel)
  · exact hread "new" (by decide) 2 _ (by decide +kernel) (by decide +kernel)
  · refine h.others _ (fun path id hpath hid => ?_)
    have hmem := List.mem_filterMap.mpr hpath
    rw [hstarted] at hmem
    have hother : ∀ path ∈ ["old", "link", "new"], r.files.fileId? path ≠ some 1 := by
      decide +kernel
    have hlookup : r.files.lookup ["home", "other"] = some (.file 1) := by decide +kernel
    rw [hlookup]
    rintro heq
    cases heq
    exact hother path hmem hid
  · exact (h.path "new").mpr (active_of_active? (by decide +kernel))
  · exact h.failed "missing/log" .notFound (by decide +kernel)

end Recorder

/-! ## Sessions -/

namespace Session

/-- The log of a session, by itself. -/
def recorder (s : Session) : Recorder :=
  ⟨s.log, s.files⟩

/-- What a session does with its log are steps of a recorder. -/
theorem recorder_steps (s : Session) :
    (∀ path, (s.startLog path).1.recorder = (s.recorder.perform (.start path)).1) ∧
      s.stopLog.1.recorder = (s.recorder.perform .stop).1 ∧
      ∀ statement response, (s.record statement response).recorder =
        (s.recorder.perform (.record statement response)).1 := by
  refine ⟨fun path => ?_, rfl, fun statement response => ?_⟩
  · rw [startLog_eq]
    rfl
  · rw [Recorder.perform]
    cases hlog : s.log with
    | none =>
      rw [record_of_no_log hlog, recorder, hlog]
    | some log =>
      rw [record_of_log hlog, recorder, recorder, hlog]

end Session

end Statewright
