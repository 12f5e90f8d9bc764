import Statewright.Proofs.Surroundings

/-!
# Files under all their names

A file can have several names, and stays the same file under each of them. What is written to one
that is open changes that file alone, whatever names it has, and takes no name away; so a path that
leads to a file goes on to lead to it.
-/

namespace Statewright.FileTree

/-- Whether a path leads to the file of a number. -/
def leadsTo (t : FileTree) (id : Nat) (raw : String) : Bool :=
  t.fileId? raw = some id

variable {t u v : FileTree} {raw : String} {id : Nat} {ids : Set Nat}

theorem Backed.lt_of_fileId? (hb : t.Backed) (h : t.fileId? raw = some id) :
    id < t.contents.length := by
  obtain ⟨l, -, hlookup⟩ := fileId?_eq_some_iff.mp h
  exact hb l id hlookup

/-- Another name for a file that is there. -/
theorem Backed.bind (hb : t.Backed) {l : Location} (hl : l ≠ []) (hid : id < t.contents.length) :
    (t.bind l (.file id)).Backed := by
  intro k i hk
  rw [lookup_bind t hl] at hk
  rw [bind_eq]
  split at hk
  · cases hk
    exact hid
  · exact hb k i hk

theorem Keeps.trans {l : Location} (h : t.Keeps u l) (h' : u.Keeps v l) : t.Keeps v l :=
  ⟨h'.entry.trans h.entry, h'.bytes.trans h.bytes⟩

/-! ## Changes to some files alone -/

/-- What an operation changes in some files, old or new, and keeps everywhere else. -/
structure Confined (t u : FileTree) (ids : Set Nat) : Prop where
  backed : u.Backed
  working : u.working = t.working
  kept (l : Location) (e : Entry) : t.lookup l = some e → u.lookup l = some e
  keeps (l : Location) : (∀ id ∈ ids, u.lookup l ≠ some (.file id)) → t.Keeps u l

namespace Confined

theorem refl (hb : t.Backed) (ids : Set Nat) : t.Confined t ids :=
  ⟨hb, rfl, fun _ _ h => h, fun l _ => .refl t l⟩

theorem mono {more : Set Nat} (h : t.Confined u ids) (hmore : ids ⊆ more) : t.Confined u more where
  backed := h.backed
  working := h.working
  kept := h.kept
  keeps l hl := h.keeps l (fun id hid => hl id (hmore hid))

theorem trans (h : t.Confined u ids) (h' : u.Confined v ids) : t.Confined v ids where
  backed := h'.backed
  working := h'.working.trans h.working
  kept l e hl := h'.kept l e (h.kept l e hl)
  keeps l hl := by
    have hlast := h'.keeps l hl
    refine (h.keeps l (fun id hid => ?_)).trans hlast
    rw [← hlast.entry]
    exact hl id hid

-- What is no file was there before, and is there still.
theorem lookup_iff (h : t.Confined u ids) {l : Location} {e : Entry} (he : ∀ id, e ≠ .file id) :
    u.lookup l = some e ↔ t.lookup l = some e := by
  constructor
  · intro hl
    have hother : ∀ id ∈ ids, u.lookup l ≠ some (.file id) := by
      intro id _ hfile
      exact he id (Option.some.inj (hl.symm.trans hfile))
    exact (h.keeps l hother).entry.symm.trans hl
  · exact h.kept l e

theorem alike (h : t.Confined u ids) : t.Alike u :=
  ⟨h.working, fun _ => h.lookup_iff (fun id hfile => by cases hfile)⟩

theorem fileId? (h : t.Confined u ids) (hid : t.fileId? raw = some id) :
    u.fileId? raw = some id := by
  obtain ⟨l, hnames, hlookup⟩ := fileId?_eq_some_iff.mp hid
  exact fileId?_eq_some_iff.mpr ⟨l, h.alike.namesFile.mpr hnames, h.kept l _ hlookup⟩

theorem content (h : t.Confined u ids) (hid : u.fileId? raw = some id) (hother : id ∉ ids) :
    u.content id = t.content id := by
  obtain ⟨l, -, hlookup⟩ := fileId?_eq_some_iff.mp hid
  have hkeeps : t.Keeps u l := by
    refine h.keeps l (fun k hk hfile => ?_)
    rw [hlookup] at hfile
    cases hfile
    exact hother hk
  have hbytes := hkeeps.bytes
  unfold file? at hbytes
  rw [← hkeeps.entry, hlookup] at hbytes
  exact Option.some.inj hbytes

end Confined

theorem confined_setContent (hb : t.Backed) (hid : id < t.contents.length) (bytes : List UInt8) :
    t.Confined (t.setContent id bytes) {id} where
  backed := hb.setContent id bytes
  working := rfl
  kept l e hl := (lookup_setContent t id bytes l).trans hl
  keeps l hl := by
    have hlookup := lookup_setContent t id bytes l
    refine ⟨hlookup, ?_⟩
    have hother := hl id rfl
    unfold file?
    rw [hlookup] at hother ⊢
    cases hentry : t.lookup l with
    | none => rfl
    | some e =>
      cases e with
      | directory => rfl
      | fullDevice => rfl
      | file k =>
        rw [hentry] at hother
        have hne : k ≠ id := fun heq => hother (congrArg _ (congrArg _ heq))
        exact congrArg some ((content_setContent t hid bytes k).trans (if_neg hne))

theorem confined_create (hb : t.Backed) {l : Location} (hl : l ≠ []) (hfree : t.lookup l = none)
    (bytes : List UInt8) : t.Confined (t.create l bytes) {t.contents.length} where
  backed := hb.create hl bytes
  working := by
    unfold create
    rw [bind_eq]
  kept k e hk := by
    have hne : k ≠ l := by
      rintro rfl
      rw [hfree] at hk
      cases hk
    rw [lookup_create t hl, if_neg hne]
    exact hk
  keeps k hk := by
    have hother := hk _ rfl
    rw [lookup_create t hl] at hother
    have hne : k ≠ l := by
      intro heq
      exact hother (if_pos heq)
    have hlookup : (t.create l bytes).lookup k = t.lookup k := by
      rw [lookup_create t hl, if_neg hne]
    refine ⟨hlookup, ?_⟩
    unfold file?
    rw [hlookup]
    cases hentry : t.lookup k with
    | none => rfl
    | some e =>
      cases e with
      | directory => rfl
      | fullDevice => rfl
      | file id => exact congrArg some (content_create_of_lt l bytes (hb k id hentry))

/-! ## Files that are open -/

/-- Whether a file can be written once it is opened under a path. -/
def TakesBytes (t : FileTree) (raw : String) : Prop :=
  ∀ u handle, t.openWrite raw = .ok (u, handle) →
    ∀ bytes, (u.write handle bytes).isOk = true

theorem openWrite_device {l : Location} (h : t.NamesFile raw l)
    (hlookup : t.lookup l = some .fullDevice) : t.openWrite raw = .ok (t, ⟨.fullDevice, 0⟩) := by
  rw [openWrite_of_namesFile h, openAt, hlookup]

/-- All that is named as a file can be written, but for the device. -/
theorem takesBytes_iff :
    t.TakesBytes raw ↔ ∀ l, t.NamesFile raw l → t.lookup l ≠ some .fullDevice := by
  constructor
  · intro h l hnames hlookup
    exact Bool.false_ne_true (h _ _ (openWrite_device hnames hlookup) [0])
  · intro h u handle hopen bytes
    obtain ⟨l, hnames, hopen⟩ := exists_openAt hopen
    have hlookup := h l hnames
    unfold openAt at hopen
    split at hopen
    · cases hopen
    · next hdevice => exact absurd hdevice hlookup
    · cases hopen
      cases bytes with
      | nil => rfl
      | cons b bytes => rfl
    · cases hopen
      cases bytes with
      | nil => rfl
      | cons b bytes => rfl

theorem takesBytes_of_entry
    (h : ∀ u handle, t.openWrite raw = .ok (u, handle) → handle.entry ≠ .fullDevice) :
    t.TakesBytes raw :=
  takesBytes_iff.mpr (fun _ hnames hlookup => h _ _ (openWrite_device hnames hlookup) rfl)

theorem Confined.takesBytes (h : t.Confined u ids) (htakes : t.TakesBytes raw) :
    u.TakesBytes raw := by
  rw [takesBytes_iff] at htakes ⊢
  intro l hnames hlookup
  refine htakes l (h.alike.namesFile.mp hnames) ?_
  exact (h.lookup_iff (fun id hfile => by cases hfile)).mp hlookup

/-- A file that is opened for writing is empty, and no other one has changed. -/
theorem confined_openWrite (hb : t.Backed) (htakes : t.TakesBytes raw) {handle : Handle}
    (hopen : t.openWrite raw = .ok (u, handle)) :
    ∃ id, handle = ⟨.file id, 0⟩ ∧ u.fileId? raw = some id ∧ u.content id = [] ∧
      t.Confined u {id} := by
  obtain ⟨l, hnames, hopen⟩ := exists_openAt hopen
  unfold openAt at hopen
  split at hopen
  · cases hopen
  · next hdevice => exact absurd hdevice (takesBytes_iff.mp htakes l hnames)
  · next id hlookup =>
    cases hopen
    have hid := hb l id hlookup
    have hconfined := confined_setContent hb hid []
    refine ⟨id, rfl, ?_, ?_, hconfined⟩
    · exact hconfined.fileId? (fileId?_eq_some_iff.mpr ⟨l, hnames, hlookup⟩)
    · rw [content_setContent t hid, if_pos rfl]
  · next hfree =>
    cases hopen
    have hconfined := confined_create hb hnames.ne_nil hfree []
    refine ⟨_, rfl, ?_, content_create t l [], hconfined⟩
    refine fileId?_eq_some_iff.mpr ⟨l, hconfined.alike.namesFile.mpr hnames, ?_⟩
    rw [lookup_create t hnames.ne_nil, if_pos rfl]

/-- What is written at the end of a file is behind what it held, and no other file has changed. -/
theorem write_end (hb : t.Backed) (hid : id < t.contents.length) (bytes : List UInt8) :
    ∃ u, t.write ⟨.file id, (t.content id).length⟩ bytes =
        .ok (u, ⟨.file id, (u.content id).length⟩) ∧
      u.content id = t.content id ++ bytes ∧ t.Confined u {id} := by
  cases bytes with
  | nil => exact ⟨t, rfl, (List.append_nil _).symm, .refl hb _⟩
  | cons b bytes =>
    have hcontent : (t.setContent id (t.content id ++ b :: bytes)).content id =
        t.content id ++ b :: bytes := by
      rw [content_setContent t hid, if_pos rfl]
    refine ⟨_, ?_, hcontent, confined_setContent hb hid _⟩
    rw [hcontent, List.length_append, ← overwrite_end]
    rfl

end Statewright.FileTree
