import Statewright.Proofs.Compiled

/-!
# Saves that fail half-way

A snapshot is saved beside its path first, and the path is changed by giving it the finished file
only. The temporary path leads through the directories that the path itself leads through, so that
whatever becomes of the temporary file, the path leads where it led before. A save that fails, at
whichever step, leaves what is read under its path as it was.
-/

open Statewright.Text Statewright.Fallible

namespace Statewright

/-! ## Temporary paths -/

-- What follows a list without separators belongs to the last part of it.
theorem Text.splitOnP_append_part {α : Type} {p : α → Bool} {part : List α}
    (h : ∀ x ∈ part, p x = false) (xs : List α) :
    (xs ++ part).splitOnP p = splice (xs.splitOnP p) [part] := by
  induction xs using cut_induction (p := p) with
  | last front hfront =>
    rw [splitOnP_append hfront, List.splitOnP_eq_singleton h, List.splitOnP_eq_singleton hfront]
  | cons front s rest hfront hs ih =>
    rw [List.append_assoc, List.cons_append, List.splitOnP_append_cons _ _ hs, ih,
      List.splitOnP_append_cons _ _ hs, splice_append _ (List.splitOnP_ne_nil p rest)]

namespace Path

open Snapshot

-- The temporary path has the parts of the path, the last one with an extension more.
theorem exists_parts (raw : String) :
    ∃ front last, parts raw = front ++ [last] ∧
      parts (temporaryPath raw) = front ++ [last ++ ".tmp"] := by
  have hfree : ∀ c ∈ ".tmp".toList, decide (c = '/') = false := by simp
  obtain ⟨front, last, hcut⟩ : ∃ front last, raw.toList.splitOnP (· = '/') = front ++ [last] :=
    ⟨_, _, (List.dropLast_append_getLast (List.splitOnP_ne_nil _ _)).symm⟩
  refine ⟨front.map String.ofList, String.ofList last, ?_, ?_⟩
  · rw [parts, hcut, List.map_append, List.map_singleton]
  · rw [parts, temporaryPath, String.toList_append, splitOnP_append_part hfree, hcut,
      splice_append _ (List.cons_ne_nil _ _), splice_singleton, List.map_append, List.map_singleton,
      String.ofList_append, String.ofList_toList]

theorem parse_eq_ok_iff {raw : String} {p : Path} : parse raw = .ok p ↔
    '\x00' ∉ raw.toList ∧ raw ≠ "" ∧ raw.utf8ByteSize < maxPath ∧
      p = ⟨raw.toList.head? = some '/', (parts raw).filter (· ≠ ""),
        raw.toList.getLast? = some '/'⟩ := by
  unfold parse
  split
  · next hnul => simp [hnul]
  · next hnul =>
    split
    · next hempty => simp [hempty]
    · next hempty =>
      split
      · next hlong => simp [Nat.not_lt.mpr hlong]
      · next hlong => simp [hnul, hempty, Nat.lt_of_not_le hlong, eq_comm]

theorem filter_concat (front : List String) (last : String) :
    (front ++ [last]).filter (· ≠ "") =
      front.filter (· ≠ "") ++ if last = "" then [] else [last] := by
  by_cases hlast : last = ""
  · simp [hlast]
  · simp [hlast]

/-- A path whose temporary path can be followed is none, or it has the names of the temporary path,
with the last one shorter or missing. -/
theorem parse_of_temporaryPath {raw : String} {q : Path}
    (h : parse (temporaryPath raw) = .ok q) : raw = "" ∨
    ∃ p front last, parse raw = .ok p ∧ p.absolute = q.absolute ∧
      q.names = front ++ [last ++ ".tmp"] ∧
      ((last = "" ∧ p.names = front) ∨ (last ≠ "" ∧ p.names = front ++ [last])) := by
  by_cases hraw : raw = ""
  · exact .inl hraw
  right
  obtain ⟨front, last, hparts, htemporary⟩ := exists_parts raw
  obtain ⟨hnul, -, hshort, rfl⟩ := parse_eq_ok_iff.mp h
  have hnul' : '\x00' ∉ raw.toList := by
    intro hmem
    apply hnul
    rw [temporaryPath, String.toList_append]
    exact List.mem_append_left _ hmem
  have hshort' : raw.utf8ByteSize < maxPath := by
    rw [temporaryPath, String.utf8ByteSize_append] at hshort
    omega
  have hhead : raw.toList.head? = (temporaryPath raw).toList.head? := by
    obtain ⟨c, cs, hcs⟩ := List.exists_cons_of_ne_nil
      (fun hnil => hraw (String.toList_eq_nil_iff.mp hnil))
    rw [temporaryPath, String.toList_append, hcs]
    rfl
  have hnamed : last ++ ".tmp" ≠ "" := by
    rw [ne_eq, String.append_eq_empty_iff]
    exact fun hboth => absurd hboth.2 (by decide)
  refine ⟨_, front.filter (· ≠ ""), last, parse_eq_ok_iff.mpr ⟨hnul', hraw, hshort', rfl⟩, ?_, ?_,
    ?_⟩
  · rw [hhead]
  · rw [htemporary, filter_concat, if_neg hnamed]
  · rw [hparts, filter_concat]
    by_cases hlast : last = ""
    · rw [if_pos hlast, List.append_nil]
      exact .inl ⟨hlast, rfl⟩
    · rw [if_neg hlast]
      exact .inr ⟨hlast, rfl⟩

theorem append_tmp_ne (name : String) : name ++ ".tmp" ≠ name := by
  intro h
  have hlength := congrArg String.length h
  rw [String.length_append] at hlength
  have htmp : ".tmp".length = 4 := rfl
  omega

-- The name of a temporary file is a name, and no way to stay in a directory or to leave it.
theorem append_tmp_not_dots (name : String) : ¬ (name ++ ".tmp" = "." ∨ name ++ ".tmp" = "..") := by
  have htmp : ".tmp".length = 4 := rfl
  rintro (h | h)
  · have hlength : (name ++ ".tmp").length = 1 := by rw [h]; rfl
    rw [String.length_append] at hlength
    omega
  · have hlength : (name ++ ".tmp").length = 2 := by rw [h]; rfl
    rw [String.length_append] at hlength
    omega

end Path

namespace FileTree

variable {t u : FileTree} {raw : String}

/-! ## What a change spares -/

namespace Change

variable {places : Set Location} {ids : Set Nat} {p : Path} {goal : Goal}

/-- A path that leads past the places of a change leads where it led before. -/
theorem locate (h : t.Change u places ids) (hp : Path.parse raw = .ok p)
    (hgoal : t.follow p = .ok goal)
    (hspared : ∀ parent name, goal = .named parent name → parent ++ [name] ∉ places) :
    u.locate raw = t.locate raw := by
  unfold FileTree.locate
  rw [hp, ok_bind, ok_bind, hgoal, h.alike.follow hgoal, ok_bind, ok_bind]
  cases goal with
  | unnamed dir => rfl
  | named parent name =>
    dsimp only
    rw [h.lookup _ (hspared parent name rfl)]

-- Where every file has one name, the files that are changed are at the places of the change.
theorem content_of_sound (h : t.Change u places ids) (hs : t.Sound)
    (hids : ∀ id ∈ ids, ∃ l ∈ places, t.lookup l = some (.file id)) {l : Location} {id : Nat}
    (hl : l ∉ places) (hlookup : t.lookup l = some (.file id)) : u.content id = t.content id := by
  refine h.content id (hs.bounded l id hlookup) (fun hid => ?_)
  obtain ⟨k, hk, hfile⟩ := hids id hid
  exact hl (hs.apart l k id hlookup hfile ▸ hk)

theorem readFile (h : t.Change u places ids) (hs : t.Sound)
    (hids : ∀ id ∈ ids, ∃ l ∈ places, t.lookup l = some (.file id))
    (hp : Path.parse raw = .ok p) (hgoal : t.follow p = .ok goal)
    (hspared : ∀ parent name, goal = .named parent name → parent ++ [name] ∉ places) :
    u.readFile raw = t.readFile raw := by
  unfold FileTree.readFile
  rw [h.locate hp hgoal hspared]
  cases hlocate : t.locate raw with
  | error e => rfl
  | ok found =>
    obtain ⟨l, e⟩ := found
    rw [ok_bind, ok_bind]
    cases e with
    | directory => rfl
    | fullDevice => rfl
    | file id =>
      rcases locate_eq_ok hlocate with ⟨hdirectory, -⟩ | ⟨hnames, hlookup⟩
      · cases hdirectory
      · obtain ⟨q, parent, name, hq, hgoal', -, -, rfl⟩ := hnames
        cases hp.symm.trans hq
        cases hgoal.symm.trans hgoal'
        exact congrArg Except.ok (h.content_of_sound hs hids (hspared parent name rfl) hlookup)

end Change

/-! ## Paths and their temporary files -/

-- A step that is no dots leads down by its name.
theorem eq_append_of_enter {dir l : Location} {name : String} (h : t.enter dir name = .ok l)
    (hname : ¬ (name = "." ∨ name = "..")) : l = dir ++ [name] := by
  rw [not_or] at hname
  unfold enter at h
  rw [if_neg hname.1, if_neg hname.2] at h
  split at h
  · cases h
  · split at h
    · cases h
    · cases h
      rfl
    · cases h

/-- The directory at which a path begins. -/
def beginning (t : FileTree) (p : Path) : Location :=
  if p.absolute then [] else t.working

-- A path leads somewhere if the names in front of its last one are those of directories.
theorem exists_follow {p : Path} {front : List String} {last : String} {dir : Location}
    (hnames : p.names = front ++ [last]) (hdir : front.foldlM t.enter (t.beginning p) = .ok dir) :
    ∃ goal, t.follow p = .ok goal ∧ ∀ parent name, goal = .named parent name →
      parent = dir ∧ name = last ∧ ¬ (last = "." ∨ last = "..") := by
  have hfollow : t.follow p = if last = "." ∨ last = ".." then
      (do return .unnamed (← t.enter dir last)) else .ok (.named dir last) := by
    unfold follow
    rw [hnames, List.getLast?_concat, List.dropLast_concat]
    show (front.foldlM t.enter (t.beginning p) >>= _) = _
    rw [hdir]
    rfl
  by_cases hdots : last = "." ∨ last = ".."
  · rw [if_pos hdots] at hfollow
    -- Dots always lead somewhere, and never to a name.
    obtain ⟨l, hl⟩ : ∃ l, t.enter dir last = .ok l := by
      rcases hdots with rfl | rfl
      · exact ⟨dir, rfl⟩
      · exact ⟨dir.dropLast, rfl⟩
    rw [hl] at hfollow
    exact ⟨_, hfollow, fun parent name h => by cases h⟩
  · rw [if_neg hdots] at hfollow
    refine ⟨_, hfollow, fun parent name h => ?_⟩
    cases h
    exact ⟨rfl, rfl, hdots⟩

-- A path whose names are all those of directories leads to the last of these.
theorem exists_follow_directory {p : Path} {dir : Location}
    (hdir : p.names.foldlM t.enter (t.beginning p) = .ok dir) :
    ∃ goal, t.follow p = .ok goal ∧
      ∀ parent name, goal = .named parent name → parent ++ [name] = dir := by
  rcases List.eq_nil_or_concat p.names with hnames | ⟨front, last, hnames⟩
  · refine ⟨.unnamed (t.beginning p), ?_, fun parent name h => by cases h⟩
    unfold follow
    rw [hnames]
    rfl
  · rw [List.concat_eq_append] at hnames
    rw [hnames, List.foldlM_append] at hdir
    obtain ⟨mid, hmid, hdir⟩ := bind_eq_ok_iff.mp hdir
    rw [List.foldlM_cons] at hdir
    obtain ⟨l, hlast, hdir⟩ := bind_eq_ok_iff.mp hdir
    cases hdir
    obtain ⟨goal, hgoal, hnamed⟩ := exists_follow hnames hmid
    refine ⟨goal, hgoal, fun parent name h => ?_⟩
    obtain ⟨rfl, rfl, hdots⟩ := hnamed parent name h
    exact (eq_append_of_enter hlast hdots).symm

/-- Where a temporary file can be, the path itself leads somewhere, and not to that file. -/
theorem follow_of_temporaryPath {l : Location} (h : t.NamesFile (Snapshot.temporaryPath raw) l) :
    raw = "" ∨ ∃ p goal, Path.parse raw = .ok p ∧ t.follow p = .ok goal ∧
      ∀ parent name, goal = .named parent name → parent ++ [name] ≠ l := by
  obtain ⟨q, dir, name, hq, hgoal, -, -, rfl⟩ := h
  rcases Path.parse_of_temporaryPath hq with hraw | ⟨p, front, last, hp, habsolute, hnames, hlast⟩
  · exact .inl hraw
  right
  have hdir : front.foldlM t.enter (t.beginning p) = .ok dir ∧ name = last ++ ".tmp" := by
    unfold follow at hgoal
    rw [hnames, List.getLast?_concat, List.dropLast_concat] at hgoal
    dsimp only at hgoal
    obtain ⟨parent, hparent, hgoal⟩ := bind_eq_ok_iff.mp hgoal
    rw [if_neg (Path.append_tmp_not_dots last)] at hgoal
    cases hgoal
    rw [beginning, habsolute]
    exact ⟨hparent, rfl⟩
  obtain ⟨hdir, rfl⟩ := hdir
  rcases hlast with ⟨rfl, hfront⟩ | ⟨-, hfront⟩
  · -- The path ends with a slash: it leads to the directory of the temporary file.
    rw [← hfront] at hdir
    obtain ⟨goal, hgoal, hnamed⟩ := exists_follow_directory hdir
    refine ⟨p, goal, hp, hgoal, fun parent name h heq => ?_⟩
    rw [hnamed parent name h] at heq
    exact List.cons_ne_nil _ _ (List.self_eq_append_right.mp heq)
  · obtain ⟨goal, hgoal, hnamed⟩ := exists_follow hfront hdir
    refine ⟨p, goal, hp, hgoal, fun parent name h heq => ?_⟩
    obtain ⟨rfl, rfl, -⟩ := hnamed parent name h
    exact Path.append_tmp_ne _ (List.singleton_inj.mp (List.append_cancel_left heq)).symm

/-- A file and its temporary file have two names. -/
theorem NamesFile.ne_temporaryPath {l target : Location} (htarget : t.NamesFile raw target)
    (h : t.NamesFile (Snapshot.temporaryPath raw) l) : l ≠ target := by
  obtain ⟨p', parent, name, hp', hgoal', -, -, rfl⟩ := htarget
  rcases follow_of_temporaryPath h with rfl | ⟨p, goal, hp, hgoal, hbeside⟩
  · cases hp'
  · cases hp.symm.trans hp'
    exact (hbeside parent name (Except.ok.inj (hgoal.symm.trans hgoal'))).symm

theorem locate_of_lookup_eq_none {l : Location} (h : t.NamesFile raw l)
    (hlookup : t.lookup l = none) : t.locate raw = .error .notFound := by
  obtain ⟨p, parent, name, hp, hgoal, -, hlength, rfl⟩ := h
  unfold locate
  rw [hp, ok_bind, hgoal, ok_bind]
  dsimp only
  rw [if_neg (Nat.not_lt.mpr hlength), hlookup]
  rfl

end FileTree

/-! ## Saving -/

namespace Snapshot

variable {c : Snapshot} {t u : FileTree} {path : String} {format : Format} {e : SnapshotError}

/-- A save fails before it changes anything, or when the temporary file is complete. -/
theorem change_of_save_error (hb : t.Backed) (h : c.save t path format = (u, .error e)) :
    u = t ∨ ∃ l id, t.NamesFile (temporaryPath path) l ∧
      t.Change u {l} {id | t.lookup l = some (.file id)} ∧
      u.lookup l = some (.file id) ∧ u.content id = c.encode format := by
  unfold save at h
  split at h
  · cases h
    exact .inl rfl
  · next written hwrite =>
    obtain ⟨l, hnames, hchange, hwritten⟩ := FileTree.writeFile_eq_ok hb hwrite
    obtain ⟨id, hlookup, hcontent, -⟩ := hwritten (c.encode_ne_nil format)
    split at h
    · cases h
      exact .inr ⟨l, id, hnames, hchange, hlookup, hcontent⟩
    · cases h

theorem readFile_of_save_error (hs : t.Sound) (h : c.save t path format = (u, .error e)) :
    u.readFile path = t.readFile path := by
  rcases change_of_save_error hs.backed h with rfl | ⟨l, id, hnames, hchange, -, -⟩
  · rfl
  · rcases FileTree.follow_of_temporaryPath hnames with rfl | ⟨p, goal, hp, hgoal, hbeside⟩
    · rfl
    · exact hchange.readFile hs (fun id hid => ⟨l, rfl, hid⟩) hp hgoal hbeside

/-- Behind a save that succeeds, nothing has the name of the temporary file. -/
theorem lookup_temporary_of_save (hs : t.Sound) (h : c.save t path format = (u, .ok ())) :
    t.Alike u ∧ (∃ l, t.NamesFile (temporaryPath path) l) ∧
      ∀ l, t.NamesFile (temporaryPath path) l → u.lookup l = none := by
  unfold save at h
  split at h
  · cases h
  · next written hwrite =>
    obtain ⟨l, hnames, hchange, hwritten⟩ := FileTree.writeFile_eq_ok hs.backed hwrite
    obtain ⟨id, hlookup, -, hold⟩ := hwritten (c.encode_ne_nil format)
    split at h
    · cases h
    · next saved hrename =>
      cases h
      have hnames' := hchange.alike.namesFile.mpr hnames
      obtain ⟨target, htarget, hmoved, -, -, hlost⟩ :=
        FileTree.rename_eq_ok hchange.backed hnames' hrename
      refine ⟨hchange.alike.trans hmoved.alike, ⟨l, hnames⟩, fun k hk => ?_⟩
      cases hk.unique hnames
      -- The path is no other name of the file that was written.
      refine hlost.resolve_right (fun hboth => ?_)
      have hne : l ≠ target := htarget.ne_temporaryPath hnames'
      have hfile : t.lookup target = some (.file id) := by
        rw [← hchange.lookup target (fun heq => hne heq.symm), hboth, hlookup]
      exact hne (hs.apart l target id (hold (hs.bounded target id hfile)) hfile)

/-- A snapshot that is saved leaves no temporary file. -/
theorem exists?_of_save (hs : t.Sound) (h : c.save t path format = (u, .ok ())) :
    u.exists? (temporaryPath path) = false := by
  obtain ⟨halike, ⟨l, hnames⟩, hlost⟩ := lookup_temporary_of_save hs h
  rw [FileTree.exists?, FileTree.locate_of_lookup_eq_none (halike.namesFile.mpr hnames)
    (hlost l hnames)]
  rfl

/-- A save that fails leaves what is read under its path as it was, be it bytes or an error. A save
that succeeds leaves the encoding of the snapshot there, which is decoded to the snapshot, and no
temporary file. So what COMPILE saved before under a path stays whole when it fails there. -/
theorem save_atomic {t : FileTree} (hs : t.Sound) (c : Snapshot) (path : String)
    (format : Format) :
    (∀ u e, c.save t path format = (u, .error e) → u.readFile path = t.readFile path) ∧
    (∀ u, c.save t path format = (u, .ok ()) →
      u.readFile path = .ok (c.encode format) ∧ u.exists? (temporaryPath path) = false ∧
      ((format = .binary → Binary.Fits c) → load u path format = .ok c)) ∧
    ∀ (s u : Session) (e : Failure), s.files = t → s.compile path = (u, .error e) →
      ∀ format', loadMachine u.files path format' = loadMachine t path format' := by
  refine ⟨fun u e h => readFile_of_save_error hs h, fun u h => ?_, ?_⟩
  · exact ⟨readFile_save hs.backed (c.encode_ne_nil format) h, exists?_of_save hs h,
      fun hfits => load_save hs.backed hfits h⟩
  · rintro s u e rfl h format'
    have hread : u.files.readFile path = s.files.readFile path := by
      unfold Session.compile at h
      dsimp only at h
      split at h
      · cases h
      · next files e' hsave =>
        cases h
        exact readFile_of_save_error hs hsave
    rw [loadMachine, loadMachine, load, load, hread]

/-- Files among which a directory has the name of a temporary file. -/
def crowded : FileTree :=
  ((FileTree.empty ["home"]).addFile ["home", "m.fs"] [1, 2]).addDirectory ["home", "m.fs.tmp"]

theorem sound_crowded : crowded.Sound :=
  ((FileTree.sound_empty _).addFile (by decide) _).addDirectory _

/-- The premises hold of a save whose temporary file cannot be written, of one whose temporary file
stays because it cannot be given the name of a directory, and of one that succeeds. -/
theorem save_atomic_crowded :
    (∃ u e, movedSnapshot.save crowded "m.fs" .binary = (u, .error e) ∧
      u.readFile "m.fs" = .ok [1, 2]) ∧
    (∃ u e, movedSnapshot.save crowded "m.fs.tmp/" .binary = (u, .error e) ∧
      u.exists? "m.fs.tmp/.tmp" = true ∧ u.readFile "m.fs.tmp/" = .error .isDirectory) ∧
    ∃ u, movedSnapshot.save crowded "./m.fs.tmp/n" .binary = (u, .ok ()) ∧
      u.readFile "./m.fs.tmp/n" = .ok (movedSnapshot.encode .binary) ∧
      u.exists? "./m.fs.tmp/n.tmp" = false ∧
      load u "./m.fs.tmp/n" .binary = .ok movedSnapshot := by
  have hfails : ∀ path, (movedSnapshot.save crowded path .binary).2.isOk = false →
      ∃ e, movedSnapshot.save crowded path .binary =
        ((movedSnapshot.save crowded path .binary).1, .error e) := by
    intro path h
    cases hsave : movedSnapshot.save crowded path .binary with
    | mk u result =>
      cases result with
      | ok r =>
        rw [hsave] at h
        cases h
      | error e => exact ⟨e, rfl⟩
  refine ⟨?_, ?_, ?_⟩
  · obtain ⟨e, h⟩ := hfails "m.fs" (by decide +kernel)
    have hread := (save_atomic sound_crowded movedSnapshot "m.fs" .binary).1 _ e h
    exact ⟨_, e, h, hread.trans (by decide +kernel)⟩
  · obtain ⟨e, h⟩ := hfails "m.fs.tmp/" (by decide +kernel)
    have hread := (save_atomic sound_crowded movedSnapshot "m.fs.tmp/" .binary).1 _ e h
    exact ⟨_, e, h, by decide +kernel, hread.trans (by decide +kernel)⟩
  · have hsaves : (movedSnapshot.save crowded "./m.fs.tmp/n" .binary).2 = .ok () := by
      decide +kernel
    have hsave : movedSnapshot.save crowded "./m.fs.tmp/n" .binary = (_, .ok ()) :=
      Prod.ext rfl hsaves
    obtain ⟨hread, hgone, hload⟩ :=
      (save_atomic sound_crowded movedSnapshot "./m.fs.tmp/n" .binary).2.1 _ hsave
    exact ⟨_, hsave, hread, hgone, hload (fun _ => fits_moved)⟩

end Snapshot

end Statewright
