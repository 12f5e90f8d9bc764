import Statewright.Proofs.FileUpdate
import Statewright.Proofs.Steps

/-!
# What commands write

PRINT and COMPILE change the files that their paths name, and a snapshot that is saved can be read
where it was saved. The log is written as well; in all cases the files stay in order.
-/

open Statewright.Fallible

namespace Statewright

/-! ## Saving snapshots -/

/-- The paths whose names a command can give to other files. -/
def Command.named : Command → List String
  | .print (some path) => [path]
  | .compile path => [path, Snapshot.temporaryPath path]
  | _ => []

/-- The paths whose files a command can write. -/
def Command.filled : Command → List String
  | .print (some path) => [path]
  | .compile path => [Snapshot.temporaryPath path]
  | _ => []

namespace FileTree

/-- The locations of files that some paths name. -/
def places (t : FileTree) (paths : List String) : Set Location :=
  {l | ∃ path ∈ paths, t.NamesFile path l}

/-- The numbers of the files that some paths lead to. -/
def fileIds (t : FileTree) (paths : List String) : Set Nat :=
  {id | ∃ path ∈ paths, t.fileId? path = some id}

theorem mem_places {t : FileTree} {paths : List String} {path : String} {l : Location}
    (hpath : path ∈ paths) (h : t.NamesFile path l) : l ∈ t.places paths :=
  ⟨path, hpath, h⟩

theorem mem_fileIds {t : FileTree} {paths : List String} {path : String} {l : Location} {id : Nat}
    (hpath : path ∈ paths) (h : t.NamesFile path l) (hlookup : t.lookup l = some (.file id)) :
    id ∈ t.fileIds paths :=
  ⟨path, hpath, fileId?_eq_some_iff.mpr ⟨l, h, hlookup⟩⟩

-- Files that paths lead to are at the places of these paths.
theorem exists_place {t : FileTree} {paths more : List String} (hmore : paths ⊆ more) {id : Nat}
    (h : id ∈ t.fileIds paths) : ∃ l ∈ t.places more, t.lookup l = some (.file id) := by
  obtain ⟨path, hpath, hid⟩ := h
  obtain ⟨l, hnames, hlookup⟩ := fileId?_eq_some_iff.mp hid
  exact ⟨l, mem_places (hmore hpath) hnames, hlookup⟩

theorem change_writeFile {t u : FileTree} {path : String} {bytes : List UInt8} (hb : t.Backed)
    (h : t.writeFile path bytes = .ok u) : t.Change u (t.places [path]) (t.fileIds [path]) := by
  obtain ⟨l, hnames, hchange, -⟩ := writeFile_eq_ok hb h
  have hplace : l ∈ t.places [path] := mem_places List.mem_cons_self hnames
  exact hchange.mono (Set.singleton_subset_iff.mpr hplace)
    (fun id hid => mem_fileIds List.mem_cons_self hnames hid)

end FileTree

namespace Snapshot

theorem change_save (c : Snapshot) {t : FileTree} (hb : t.Backed) (path : String)
    (format : Format) :
    t.Change (c.save t path format).1 (t.places [path, temporaryPath path])
      (t.fileIds [temporaryPath path]) := by
  have htemporary : temporaryPath path ∈ [path, temporaryPath path] :=
    List.mem_cons_of_mem _ List.mem_cons_self
  unfold save
  split
  · exact .refl hb _ _
  · next written hwrite =>
    obtain ⟨l, hnames, hwritten, -⟩ := FileTree.writeFile_eq_ok hb hwrite
    have hchange : t.Change written (t.places [path, temporaryPath path])
        (t.fileIds [temporaryPath path]) :=
      hwritten.mono (Set.singleton_subset_iff.mpr (FileTree.mem_places htemporary hnames))
        (fun id hid => FileTree.mem_fileIds List.mem_cons_self hnames hid)
    split
    · exact hchange
    · next saved hrename =>
      obtain ⟨target, htarget, hmoved, -⟩ :=
        FileTree.rename_eq_ok hchange.backed (hchange.alike.namesFile.mpr hnames) hrename
      refine hchange.trans hmoved (fun k hk => ?_) (fun id hid => absurd hid (Set.notMem_empty id))
      rcases hk with rfl | hk
      · exact FileTree.mem_places htemporary hnames
      · cases hk
        exact FileTree.mem_places List.mem_cons_self (hchange.alike.namesFile.mp htarget)

/-- What is saved under a path is read under it. -/
theorem readFile_save {c : Snapshot} {t u : FileTree} {path : String} {format : Format}
    (hb : t.Backed) (hne : c.encode format ≠ []) (h : c.save t path format = (u, .ok ())) :
    u.readFile path = .ok (c.encode format) := by
  unfold save at h
  split at h
  · cases h
  · next written hwrite =>
    obtain ⟨l, hnames, hchange, hread⟩ := FileTree.writeFile_eq_ok hb hwrite
    obtain ⟨id, hlookup, hcontent, -⟩ := hread hne
    split at h
    · cases h
    · next saved hrename =>
      cases h
      obtain ⟨target, htarget, hmoved, hheld, hcontents, -⟩ :=
        FileTree.rename_eq_ok hchange.backed (hchange.alike.namesFile.mpr hnames) hrename
      have hlocate := FileTree.locate_of_namesFile (hmoved.alike.namesFile.mpr htarget)
        (hheld.trans hlookup)
      unfold FileTree.readFile
      rw [hlocate, ok_bind]
      show Except.ok (u.content id) = _
      rw [← hcontent]
      unfold FileTree.content
      rw [hcontents]

end Snapshot

namespace Session

variable {s : Session}

theorem change_printTo (hb : s.files.Backed) (path : String) :
    s.files.Change (s.printTo path).1.files (s.files.places (Command.print (some path)).named)
      (s.files.fileIds (Command.print (some path)).filled) := by
  unfold printTo
  split
  · next written hwrite =>
    exact FileTree.change_writeFile hb (mapError_eq_ok_iff.mp hwrite)
  · exact .refl hb _ _

theorem change_compile (hb : s.files.Backed) (path : String) :
    s.files.Change (s.compile path).1.files (s.files.places (Command.compile path).named)
      (s.files.fileIds (Command.compile path).filled) := by
  rw [compile_eq]
  exact Snapshot.change_save _ hb path _

end Session

/-! ## Files stay in order -/

namespace Log

variable {t : FileTree}

theorem backed_flush (hb : t.Backed) (log : Log) : (log.flush t).1.Backed := by
  unfold flush
  split
  · next hwrite => exact hb.write hwrite
  · exact hb

theorem backed_stop (hb : t.Backed) (log : Option Log) : (stop log t).1.Backed := by
  cases log with
  | none => exact hb
  | some log =>
    rw [stop_kept]
    exact backed_flush hb log

theorem backed_start (hb : t.Backed) (log : Option Log) (path : String) :
    (start log t path).1.Backed := by
  have hstop := backed_stop hb log
  unfold start
  dsimp only
  split
  · next hopen =>
    obtain ⟨l, -, hchange, -⟩ := FileTree.openWrite_eq_ok hstop hopen
    exact hchange.backed
  · exact hstop

end Log

/-- Whatever a session does, every file has contents. -/
theorem Session.backed_invariant : Invariant (fun s => s.files.Backed) where
  frame _ _ h := h
  record {s} statement response h := by
    cases hlog : s.log with
    | none =>
      rw [record_of_no_log hlog]
      exact h
    | some log =>
      rw [record_of_log hlog]
      exact Log.backed_flush h _
  effect {s} c p heffect h := by
    cases heffect with
    | machine _ _ ops reply => exact h
    | print path => exact (change_printTo h path).backed
    | compile path => exact (change_compile h path).backed
    | startLog path =>
      rw [startLog_eq]
      exact Log.backed_start h s.log path
    | stopLog => exact Log.backed_stop h s.log
    | exit => exact Log.backed_stop h s.log

end Statewright
