import Statewright.Proofs.Atomic

/-!
# What a save leaves alone

A save writes under two names, that of its path and that of the temporary file beside it. What has
any other name stays as it was, whether the save succeeds or fails. The temporary name is taken from
whatever file has it: after a save that succeeds nothing has it any more, and after one that fails in
its second step it is the name of the whole file that was to be saved.
-/

namespace Statewright

namespace FileTree

variable {t u : FileTree}

/-- Whether a location holds what it held, and the same bytes if that is a file. -/
structure Keeps (t u : FileTree) (l : Location) : Prop where
  entry : u.lookup l = t.lookup l
  bytes : u.file? l = t.file? l

theorem Keeps.refl (t : FileTree) (l : Location) : t.Keeps t l :=
  ⟨rfl, rfl⟩

theorem keeps_of_lookup_eq_none {l : Location} (ht : t.lookup l = none) (hu : u.lookup l = none) :
    t.Keeps u l := by
  refine ⟨hu.trans ht.symm, ?_⟩
  unfold file?
  rw [ht, hu]

theorem Change.keeps {places : Set Location} {ids : Set Nat} (h : t.Change u places ids)
    (hs : t.Sound) (hids : ∀ id ∈ ids, ∃ l ∈ places, t.lookup l = some (.file id)) {l : Location}
    (hl : l ∉ places) : t.Keeps u l := by
  have hlookup := h.lookup l hl
  refine ⟨hlookup, ?_⟩
  unfold file?
  rw [hlookup]
  cases hentry : t.lookup l with
  | none => rfl
  | some e =>
    cases e with
    | directory => rfl
    | fullDevice => rfl
    | file id => exact congrArg some (h.content_of_sound hs hids hl hentry)

theorem openWrite_of_directory {raw : String} {l : Location} (h : t.NamesFile raw l)
    (hlookup : t.lookup l = some .directory) : t.openWrite raw = .error .isDirectory := by
  rw [openWrite_of_namesFile h, openAt, hlookup]

end FileTree

namespace Snapshot

variable {t : FileTree} {path : String} {format : Format}

theorem keeps_save (hs : t.Sound) (c : Snapshot) {l : Location} (hpath : ¬ t.NamesFile path l)
    (htemporary : ¬ t.NamesFile (temporaryPath path) l) :
    t.Keeps (c.save t path format).1 l := by
  refine (change_save c hs.backed path format).keeps hs
    (fun id hid => FileTree.exists_place (List.subset_cons_self _ _) hid) ?_
  rintro ⟨raw, hraw, hnames⟩
  rw [List.mem_cons, List.mem_singleton] at hraw
  rcases hraw with rfl | rfl
  · exact hpath hnames
  · exact htemporary hnames

-- A directory cannot be opened for writing, so a save ends before it has written anything.
theorem save_of_directory (c : Snapshot) {l : Location} (h : t.NamesFile (temporaryPath path) l)
    (hlookup : t.lookup l = some .directory) :
    c.save t path format = (t, .error (.file path .isDirectory)) := by
  unfold save FileTree.writeFile
  rw [FileTree.openWrite_of_directory h hlookup]
  rfl

/-- A save that fails changes nothing, or the temporary file only, which it leaves complete. -/
theorem keeps_of_save_error (hs : t.Sound) {c : Snapshot} {e : SnapshotError}
    (h : (c.save t path format).2 = .error e) :
    (c.save t path format).1 = t ∨ ∃ l, t.NamesFile (temporaryPath path) l ∧
      (c.save t path format).1.file? l = some (c.encode format) ∧
      ∀ k, k ≠ l → t.Keeps (c.save t path format).1 k := by
  rcases change_of_save_error hs.backed (Prod.ext rfl h) with
    heq | ⟨l, id, hnames, hchange, hlookup, hcontent⟩
  · exact .inl heq
  · refine .inr ⟨l, hnames, ?_, fun k hk => ?_⟩
    · unfold FileTree.file?
      rw [hlookup]
      exact congrArg some hcontent
    · exact hchange.keeps hs (fun id hid => ⟨l, rfl, hid⟩) hk

/-- A save leaves everything as it was but what has the name of its path or that of the temporary
file beside it, whether it succeeds or fails, and so does COMPILE. A directory with the temporary
name stays, and with it everything else. After a save that succeeds nothing has the temporary name,
so that it changes nothing but its path where nothing had that name before. A save that fails leaves
its path alone as well: either nothing changes at all, or the temporary file stays, complete. -/
theorem save_spares (hs : t.Sound) (c : Snapshot) (path : String) (format : Format) :
    (∀ l, ¬ t.NamesFile path l → ¬ t.NamesFile (temporaryPath path) l →
      t.Keeps (c.save t path format).1 l) ∧
    (∀ l, t.NamesFile (temporaryPath path) l → t.lookup l = some .directory →
      (c.save t path format).1 = t) ∧
    ((c.save t path format).2 = .ok () →
      (∀ l, t.NamesFile (temporaryPath path) l → (c.save t path format).1.lookup l = none) ∧
      ((∀ l, t.NamesFile (temporaryPath path) l → t.lookup l = none) →
        ∀ l, ¬ t.NamesFile path l → t.Keeps (c.save t path format).1 l)) ∧
    (∀ e, (c.save t path format).2 = .error e →
      (c.save t path format).1 = t ∨ ∃ l, t.NamesFile (temporaryPath path) l ∧
        (c.save t path format).1.file? l = some (c.encode format) ∧
        ∀ k, k ≠ l → t.Keeps (c.save t path format).1 k) ∧
    ∀ s : Session, s.files = t → ∀ l, ¬ t.NamesFile path l →
      ¬ t.NamesFile (temporaryPath path) l → t.Keeps (s.compile path).1.files l := by
  refine ⟨fun l hpath htemporary => keeps_save hs c hpath htemporary, fun l hl hlookup => ?_,
    fun hsave => ?_, fun e hsave => keeps_of_save_error hs hsave, ?_⟩
  · rw [save_of_directory c hl hlookup]
  · have hgone : ∀ l, t.NamesFile (temporaryPath path) l →
        (c.save t path format).1.lookup l = none := fun l hl =>
      (lookup_temporary_of_save hs (Prod.ext rfl hsave)).2.2 l hl
    refine ⟨hgone, fun hfree l hpath => ?_⟩
    by_cases htemporary : t.NamesFile (temporaryPath path) l
    · exact FileTree.keeps_of_lookup_eq_none (hfree l htemporary) (hgone l htemporary)
    · exact keeps_save hs c hpath htemporary
  · rintro s rfl l hpath htemporary
    rw [s.compile_eq]
    exact keeps_save hs _ hpath htemporary

/-- Files of which one has the name of a temporary file, and one another name. -/
def littered : FileTree :=
  ((FileTree.empty ["home"]).addFile ["home", "m.fs.tmp"] [7]).addFile ["home", "n"] [8]

theorem sound_littered : littered.Sound :=
  ((FileTree.sound_empty _).addFile (by decide) _).addFile (by decide) _

theorem namesFile_littered :
    littered.NamesFile "m.fs" ["home", "m.fs"] ∧
    littered.NamesFile (temporaryPath "m.fs") ["home", "m.fs.tmp"] :=
  ⟨⟨_, ["home"], "m.fs", rfl, by decide +kernel, rfl, by decide, rfl⟩,
    ⟨_, ["home"], "m.fs.tmp", rfl, by decide +kernel, rfl, by decide, rfl⟩⟩

/-- The same files beside a directory, which is no place for another file. -/
def cluttered : FileTree :=
  littered.addDirectory ["home", "d"]

theorem sound_cluttered : cluttered.Sound :=
  sound_littered.addDirectory _

theorem namesFile_cluttered : cluttered.NamesFile (temporaryPath "d") ["home", "d.tmp"] :=
  ⟨_, ["home"], "d.tmp", rfl, by decide +kernel, rfl, by decide, rfl⟩

/-- The premises hold of a save among such files: the file with another name stays. They hold as
well of a save that fails because its path is a directory, and that leaves its temporary file. -/
theorem save_spares_littered :
    ((movedSnapshot.save littered "m.fs" .binary).2 = .ok () ∧
      littered.Keeps (movedSnapshot.save littered "m.fs" .binary).1 ["home", "n"] ∧
      littered.file? ["home", "n"] = some [8] ∧
      (movedSnapshot.save littered "m.fs" .binary).1.lookup ["home", "m.fs.tmp"] = none) ∧
    (movedSnapshot.save cluttered "d" .binary).2 = .error (.file "d" .isDirectory) ∧
    cluttered.Keeps (movedSnapshot.save cluttered "d" .binary).1 ["home", "d"] ∧
    cluttered.lookup ["home", "d.tmp"] = none ∧
    (movedSnapshot.save cluttered "d" .binary).1.file? ["home", "d.tmp"] =
      some (movedSnapshot.encode .binary) := by
  have hsaves : (movedSnapshot.save littered "m.fs" .binary).2 = .ok () := by decide +kernel
  obtain ⟨hkeeps, -, hsaved, -⟩ := save_spares sound_littered movedSnapshot "m.fs" .binary
  refine ⟨⟨hsaves, hkeeps _ (fun h => ?_) (fun h => ?_), by decide, ?_⟩, ?_⟩
  · exact absurd (h.unique namesFile_littered.1) (by decide)
  · exact absurd (h.unique namesFile_littered.2) (by decide)
  · exact (hsaved hsaves).1 _ namesFile_littered.2
  · have hfails : (movedSnapshot.save cluttered "d" .binary).2 = .error (.file "d" .isDirectory) := by
      decide +kernel
    have hchanges : (movedSnapshot.save cluttered "d" .binary).1 ≠ cluttered := by decide +kernel
    obtain ⟨-, -, -, hfailed, -⟩ := save_spares sound_cluttered movedSnapshot "d" .binary
    obtain ⟨l, hl, hfile, hothers⟩ := (hfailed _ hfails).resolve_left hchanges
    cases hl.unique namesFile_cluttered
    exact ⟨hfails, hothers _ (by decide), by decide, hfile⟩

/-- A save that succeeds takes away a file with another name than that of its path, if that is the
temporary name. -/
theorem save_takes_temporary_name :
    littered.Sound ∧ ¬ littered.NamesFile "m.fs" ["home", "m.fs.tmp"] ∧
    littered.file? ["home", "m.fs.tmp"] = some [7] ∧
    (movedSnapshot.save littered "m.fs" .binary).2 = .ok () ∧
    (movedSnapshot.save littered "m.fs" .binary).1.file? ["home", "m.fs.tmp"] = none ∧
    ¬ littered.Keeps (movedSnapshot.save littered "m.fs" .binary).1 ["home", "m.fs.tmp"] := by
  have hheld : littered.file? ["home", "m.fs.tmp"] = some [7] := by decide
  have hgone : (movedSnapshot.save littered "m.fs" .binary).1.file? ["home", "m.fs.tmp"] = none := by
    decide +kernel
  refine ⟨sound_littered, fun h => ?_, hheld, by decide +kernel, hgone, fun h => ?_⟩
  · exact absurd (h.unique namesFile_littered.1) (by decide)
  · have hbytes := h.bytes
    rw [hheld, hgone] at hbytes
    cases hbytes

end Snapshot

end Statewright
