import Statewright.Proofs.FileTree

/-!
# What operations on files change

Creating, writing and renaming files leaves alone what other locations hold and what is in other
files. A file can have several names, so the locations and the files are told apart. Directories
stay what they are, so a path goes on to lead to the same location.
-/

open Statewright.Fallible

namespace Statewright.FileTree

/-! ## What locations hold -/

theorem lookup_nil (t : FileTree) : t.lookup [] = some .directory :=
  rfl

theorem lookup_of_ne_nil (t : FileTree) {l : Location} (hl : l ≠ []) :
    t.lookup l = (t.entries.find? (fun x => x.1 = l)).map Prod.snd := by
  unfold lookup
  split
  · exact absurd rfl hl
  · rfl

theorem lookup_bind (t : FileTree) {l : Location} (hl : l ≠ []) (e : Entry) (k : Location) :
    (t.bind l e).lookup k = if k = l then some e else t.lookup k := by
  by_cases hk : k = []
  · rw [hk, lookup_nil, lookup_nil, if_neg hl.symm]
  · rw [lookup_of_ne_nil _ hk, lookup_of_ne_nil _ hk]
    unfold bind
    split
    · next hsome =>
      -- The names of the entries stay what they are.
      have hnames : ((fun x : Location × Entry => decide (x.1 = k)) ∘
          fun x => if x.1 = l then (l, e) else x) = fun x => decide (x.1 = k) := by
        funext x
        show decide ((if x.1 = l then (l, e) else x).1 = k) = decide (x.1 = k)
        by_cases hx : x.1 = l
        · rw [if_pos hx, hx]
        · rw [if_neg hx]
      dsimp only
      rw [List.find?_map, hnames]
      cases hfind : t.entries.find? (fun x => x.1 = k) with
      | none =>
        have hne : k ≠ l := by
          rintro rfl
          rw [hfind] at hsome
          cases hsome
        rw [if_neg hne]
        rfl
      | some x =>
        have hfound := List.find?_some hfind
        have hx : x.1 = k := of_decide_eq_true hfound
        show some (if x.1 = l then (l, e) else x).2 = _
        rw [hx]
        by_cases hkl : k = l
        · rw [if_pos hkl, if_pos hkl]
        · rw [if_neg hkl, if_neg hkl]
          rfl
    · next hnone =>
      rw [Option.not_isSome_iff_eq_none] at hnone
      dsimp only
      rw [List.find?_append, List.find?_singleton]
      by_cases hkl : k = l
      · subst hkl
        rw [if_pos rfl, hnone]
        simp only [decide_true, if_pos, Option.none_or, Option.map_some]
      · rw [if_neg hkl, decide_eq_false (fun h => hkl h.symm), if_neg Bool.false_ne_true,
          Option.or_none]

theorem lookup_unbind (t : FileTree) {l : Location} (hl : l ≠ []) (k : Location) :
    (t.unbind l).lookup k = if k = l then none else t.lookup k := by
  by_cases hk : k = []
  · rw [hk, lookup_nil, lookup_nil, if_neg hl.symm]
  · rw [lookup_of_ne_nil _ hk, lookup_of_ne_nil _ hk]
    unfold unbind
    dsimp only
    rw [List.find?_filter]
    by_cases hkl : k = l
    · subst hkl
      rw [if_pos rfl, Option.map_eq_none_iff, List.find?_eq_none]
      intro x _ hx
      obtain ⟨hne, heq⟩ := of_decide_eq_true hx
      exact of_decide_eq_true hne (of_decide_eq_true heq)
    · rw [if_neg hkl]
      congr 2
      funext x
      rw [Bool.eq_iff_iff, decide_eq_true_iff, decide_eq_true_iff, decide_eq_true_iff]
      exact ⟨fun h => h.2, fun h => ⟨h ▸ hkl, h⟩⟩

theorem lookup_setContent (t : FileTree) (id : Nat) (bytes : List UInt8) (l : Location) :
    (t.setContent id bytes).lookup l = t.lookup l := by
  cases l with
  | nil => rfl
  | cons name l => rfl

theorem content_setContent (t : FileTree) {id : Nat} (h : id < t.contents.length)
    (bytes : List UInt8) (k : Nat) :
    (t.setContent id bytes).content k = if k = id then bytes else t.content k := by
  unfold content setContent
  dsimp only
  rw [List.getD_eq_getElem?_getD, List.getElem?_set, List.getD_eq_getElem?_getD]
  by_cases hk : k = id
  · rw [if_pos hk.symm, if_pos h, if_pos hk]
    rfl
  · rw [if_neg (Ne.symm hk), if_neg hk]

/-! ## Trees that paths lead through alike -/

/-- Whether two trees have the same directories. -/
structure Alike (t u : FileTree) : Prop where
  working : u.working = t.working
  directories (l : Location) : u.lookup l = some .directory ↔ t.lookup l = some .directory

namespace Alike

variable {t u v : FileTree}

theorem refl (t : FileTree) : t.Alike t :=
  ⟨rfl, fun _ => Iff.rfl⟩

theorem symm (h : t.Alike u) : u.Alike t :=
  ⟨h.working.symm, fun l => (h.directories l).symm⟩

theorem trans (h : t.Alike u) (h' : u.Alike v) : t.Alike v :=
  ⟨h'.working.trans h.working, fun l => (h'.directories l).trans (h.directories l)⟩

theorem enter (h : t.Alike u) {dir l : Location} {name : String}
    (henter : t.enter dir name = .ok l) : u.enter dir name = .ok l := by
  unfold FileTree.enter at henter ⊢
  split
  · next hdot =>
    rw [if_pos hdot] at henter
    exact henter
  · next hdot =>
    rw [if_neg hdot] at henter
    split
    · next hdots =>
      rw [if_pos hdots] at henter
      exact henter
    · next hdots =>
      rw [if_neg hdots] at henter
      split
      · next hlength =>
        rw [if_pos hlength] at henter
        exact henter
      · next hlength =>
        rw [if_neg hlength] at henter
        split at henter
        · cases henter
        · next hlookup =>
          rw [(h.directories _).mpr hlookup]
          exact henter
        · cases henter

theorem foldlM (h : t.Alike u) {dir l : Location} {names : List String}
    (hnames : names.foldlM t.enter dir = .ok l) : names.foldlM u.enter dir = .ok l := by
  induction names generalizing dir with
  | nil => exact hnames
  | cons name names ih =>
    rw [List.foldlM_cons] at hnames ⊢
    obtain ⟨next, hnext, hrest⟩ := bind_eq_ok_iff.mp hnames
    rw [h.enter hnext, ok_bind]
    exact ih hrest

theorem follow (h : t.Alike u) {p : Path} {goal : Goal} (hgoal : t.follow p = .ok goal) :
    u.follow p = .ok goal := by
  unfold FileTree.follow at hgoal ⊢
  dsimp only at hgoal ⊢
  rw [h.working]
  split at hgoal
  · exact hgoal
  · obtain ⟨dir, hdir, hgoal⟩ := bind_eq_ok_iff.mp hgoal
    rw [h.foldlM hdir, ok_bind]
    split
    · next hdots =>
      rw [if_pos hdots] at hgoal
      obtain ⟨l, hl, hgoal⟩ := bind_eq_ok_iff.mp hgoal
      rw [h.enter hl]
      exact hgoal
    · next hdots =>
      rw [if_neg hdots] at hgoal
      exact hgoal

theorem namesFile (h : t.Alike u) {raw : String} {l : Location} :
    u.NamesFile raw l ↔ t.NamesFile raw l := by
  constructor
  · rintro ⟨p, parent, name, hp, hgoal, hrest⟩
    exact ⟨p, parent, name, hp, h.symm.follow hgoal, hrest⟩
  · rintro ⟨p, parent, name, hp, hgoal, hrest⟩
    exact ⟨p, parent, name, hp, h.follow hgoal, hrest⟩

end Alike

/-! ## What operations change -/

/-- Whether every file has contents, whatever names lead to it. -/
def Backed (t : FileTree) : Prop :=
  ∀ l id, t.lookup l = some (.file id) → id < t.contents.length

/-- Whether every file has contents, and no two names lead to the same file. -/
structure Sound (t : FileTree) : Prop where
  bounded (l : Location) (id : Nat) : t.lookup l = some (.file id) → id < t.contents.length
  apart (k l : Location) (id : Nat) :
    t.lookup k = some (.file id) → t.lookup l = some (.file id) → k = l

theorem Sound.backed {t : FileTree} (h : t.Sound) : t.Backed :=
  h.bounded

/-- What an operation changes: what some locations hold, and the bytes of some files that were there
before. -/
structure Change (t u : FileTree) (places : Set Location) (ids : Set Nat) : Prop where
  backed : u.Backed
  alike : t.Alike u
  grown : t.contents.length ≤ u.contents.length
  lookup (l : Location) : l ∉ places → u.lookup l = t.lookup l
  content (id : Nat) : id < t.contents.length → id ∉ ids → u.content id = t.content id

namespace Change

variable {t u v : FileTree} {places : Set Location} {ids : Set Nat}

theorem refl (h : t.Backed) (places : Set Location) (ids : Set Nat) : t.Change t places ids :=
  ⟨h, .refl t, Nat.le_refl _, fun _ _ => rfl, fun _ _ _ => rfl⟩

-- Files that the first operation made do not count among those that the second one changes.
theorem trans {more : Set Location} {others : Set Nat} (h : t.Change u places ids)
    (h' : u.Change v more others) (hmore : more ⊆ places)
    (hothers : ∀ id ∈ others, id < t.contents.length → id ∈ ids) : t.Change v places ids where
  backed := h'.backed
  alike := h.alike.trans h'.alike
  grown := h.grown.trans h'.grown
  lookup l hl := (h'.lookup l (fun hmem => hl (hmore hmem))).trans (h.lookup l hl)
  content id hid hids := by
    have hother : id ∉ others := fun hmem => hids (hothers id hmem hid)
    exact (h'.content id (hid.trans_le h.grown) hother).trans (h.content id hid hids)

theorem mono {more : Set Location} {others : Set Nat} (h : t.Change u places ids)
    (hmore : places ⊆ more) (hothers : ids ⊆ others) : t.Change u more others where
  backed := h.backed
  alike := h.alike
  grown := h.grown
  lookup l hl := h.lookup l (fun hmem => hl (hmore hmem))
  content id hid hids := h.content id hid (fun hmem => hids (hothers hmem))

end Change

theorem Backed.setContent {t : FileTree} (h : t.Backed) (id : Nat) (bytes : List UInt8) :
    (t.setContent id bytes).Backed := by
  intro k i hk
  rw [lookup_setContent] at hk
  show i < (t.contents.set id bytes).length
  rw [List.length_set]
  exact h k i hk

/-- New bytes for a file change nothing else. -/
theorem change_setContent {t : FileTree} (h : t.Backed) {id : Nat} (hid : id < t.contents.length)
    (bytes : List UInt8) : t.Change (t.setContent id bytes) ∅ {id} where
  backed := h.setContent id bytes
  alike := ⟨rfl, fun k => by rw [lookup_setContent]⟩
  grown := Nat.le_of_eq List.length_set.symm
  lookup k _ := lookup_setContent t id bytes k
  content k _ hk := by rw [content_setContent t hid, if_neg (show k ≠ id from hk)]

theorem bind_eq (t : FileTree) (l : Location) (e : Entry) :
    t.bind l e = { t with entries := (t.bind l e).entries } := by
  unfold bind
  split
  · rfl
  · rfl

theorem lookup_withContents (t : FileTree) (contents : List (List UInt8)) (l : Location) :
    { t with contents := contents }.lookup l = t.lookup l := by
  cases l with
  | nil => rfl
  | cons name l => rfl

/-- The tree with a new file. -/
def create (t : FileTree) (l : Location) (bytes : List UInt8) : FileTree :=
  let created := t.bind l (.file t.contents.length)
  { created with contents := created.contents ++ [bytes] }

theorem contents_create (t : FileTree) (l : Location) (bytes : List UInt8) :
    (t.create l bytes).contents = t.contents ++ [bytes] := by
  unfold create
  rw [bind_eq]

theorem lookup_create (t : FileTree) {l : Location} (hl : l ≠ []) (bytes : List UInt8)
    (k : Location) :
    (t.create l bytes).lookup k = if k = l then some (.file t.contents.length) else t.lookup k :=
  (lookup_withContents _ _ k).trans (lookup_bind t hl _ k)

-- Every other file has a number below that of the new one.
theorem file_of_lookup_create {t : FileTree} (h : t.Backed) {l : Location} (hl : l ≠ [])
    {bytes : List UInt8} {k : Location} {id : Nat}
    (hk : (t.create l bytes).lookup k = some (.file id)) :
    (k = l ∧ id = t.contents.length) ∨
      (t.lookup k = some (.file id) ∧ id < t.contents.length) := by
  rw [lookup_create t hl] at hk
  split at hk
  · next hkl =>
    cases hk
    exact .inl ⟨hkl, rfl⟩
  · exact .inr ⟨hk, h k id hk⟩

theorem Backed.create {t : FileTree} (h : t.Backed) {l : Location} (hl : l ≠ [])
    (bytes : List UInt8) : (t.create l bytes).Backed := by
  intro k id hk
  rw [contents_create, List.length_append, List.length_singleton]
  rcases file_of_lookup_create h hl hk with ⟨-, rfl⟩ | ⟨-, hid⟩
  · omega
  · omega

theorem Sound.create {t : FileTree} (h : t.Sound) {l : Location} (hl : l ≠ [])
    (bytes : List UInt8) : (t.create l bytes).Sound where
  bounded := h.backed.create hl bytes
  apart k k' id hk hk' := by
    rcases file_of_lookup_create h.backed hl hk with ⟨hkl, hid⟩ | ⟨hk, hid⟩
    · rcases file_of_lookup_create h.backed hl hk' with ⟨hkl', -⟩ | ⟨-, hid'⟩
      · exact hkl.trans hkl'.symm
      · omega
    · rcases file_of_lookup_create h.backed hl hk' with ⟨-, hid'⟩ | ⟨hk', -⟩
      · omega
      · exact h.apart k k' id hk hk'

theorem content_create_of_lt {t : FileTree} (l : Location) (bytes : List UInt8) {id : Nat}
    (hid : id < t.contents.length) : (t.create l bytes).content id = t.content id := by
  unfold content
  rw [contents_create, List.getD_eq_getElem?_getD, List.getElem?_append_left hid,
    List.getD_eq_getElem?_getD]

/-- A new file changes nothing else. -/
theorem change_create {t : FileTree} (h : t.Backed) {l : Location} (hl : l ≠ [])
    (hfree : t.lookup l = none) (bytes : List UInt8) : t.Change (t.create l bytes) {l} ∅ where
  backed := h.create hl bytes
  alike := by
    refine ⟨?_, fun k => ?_⟩
    · unfold FileTree.create
      rw [bind_eq]
    · rw [lookup_create t hl]
      split
      · next hkl =>
        rw [hkl, hfree]
        exact iff_of_false (fun h => by cases h) (fun h => by cases h)
      · exact Iff.rfl
  grown := by
    rw [contents_create, List.length_append]
    exact Nat.le_add_right _ _
  lookup k hk := by rw [lookup_create t hl, if_neg (show k ≠ l from hk)]
  content k hk _ := content_create_of_lt l bytes hk

theorem content_create (t : FileTree) (l : Location) (bytes : List UInt8) :
    (t.create l bytes).content t.contents.length = bytes := by
  unfold content
  rw [contents_create, List.getD_eq_getElem?_getD, List.getElem?_append_right (Nat.le_refl _),
    Nat.sub_self]
  rfl

/-! ## Building trees -/

theorem mem_entries_of_lookup {t : FileTree} {l : Location} {id : Nat}
    (h : t.lookup l = some (.file id)) : (l, .file id) ∈ t.entries := by
  unfold lookup at h
  split at h
  · cases h
  · obtain ⟨x, hfind, hx⟩ := Option.map_eq_some_iff.mp h
    have hname := List.find?_some hfind
    have heq : x = (_, .file id) := Prod.ext (of_decide_eq_true hname) hx
    exact heq ▸ List.mem_of_find?_eq_some hfind

theorem sound_empty (working : Location) : (empty working).Sound := by
  have hnone : ∀ l id, (empty working).lookup l ≠ some (.file id) := by
    intro l id h
    have hmem := mem_entries_of_lookup h
    unfold empty at hmem
    simp only [List.mem_append, List.mem_cons, List.mem_map, Prod.mk.injEq, reduceCtorEq, and_false,
      List.not_mem_nil, or_self, exists_false] at hmem
  exact ⟨fun l id h => absurd h (hnone l id), fun k l id h => absurd h (hnone k id)⟩

theorem Sound.addDirectory {t : FileTree} (h : t.Sound) (l : Location) :
    (t.addDirectory l).Sound := by
  have hbind : ∀ (t : FileTree) (k : Location), t.Sound → k ≠ [] →
      (t.bind k .directory).Sound := by
    intro t k h hk
    have hold : ∀ i id, (t.bind k .directory).lookup i = some (.file id) →
        t.lookup i = some (.file id) := by
      intro i id hi
      rw [lookup_bind t hk] at hi
      split at hi
      · cases hi
      · exact hi
    refine ⟨fun i id hi => ?_, fun i j id hi hj => h.apart i j id (hold i id hi) (hold j id hj)⟩
    rw [bind_eq]
    exact h.bounded i id (hold i id hi)
  refine List.foldlRecOn (motive := FileTree.Sound) _ _ h (fun t h k hk => ?_)
  show (if (t.lookup k).isSome then t else t.bind k .directory).Sound
  split
  · exact h
  · refine hbind t k h ?_
    obtain ⟨n, hn, rfl⟩ := List.mem_map.mp hk
    intro htake
    have hlength := congrArg List.length htake
    rw [List.length_take, List.length_nil] at hlength
    have := List.mem_range.mp hn
    omega

theorem Sound.addFile {t : FileTree} (h : t.Sound) {l : Location} (hl : l ≠ [])
    (bytes : List UInt8) : (t.addFile l bytes).Sound :=
  (h.addDirectory l.dropLast).create hl bytes

/-! ## Writing files -/

/-- Opens for writing what a location holds. -/
def openAt (t : FileTree) (l : Location) : Except FileError (FileTree × Handle) :=
  match t.lookup l with
  | some .directory => .error .isDirectory
  | some .fullDevice => .ok (t, ⟨.fullDevice, 0⟩)
  | some (.file id) => .ok (t.setContent id [], ⟨.file id, 0⟩)
  | none => .ok (t.create l [], ⟨.file t.contents.length, 0⟩)

theorem openWrite_of_namesFile {t : FileTree} {raw : String} {l : Location}
    (h : t.NamesFile raw l) : t.openWrite raw = t.openAt l := by
  obtain ⟨p, parent, name, hp, hgoal, hslash, hlength, rfl⟩ := h
  unfold openWrite openAt
  rw [hp, ok_bind, hgoal, ok_bind]
  dsimp only
  rw [hslash, if_neg Bool.false_ne_true, if_neg (Nat.not_lt.mpr hlength)]
  rfl

/-- A file that can be opened for writing is named by its path. -/
theorem exists_openAt {t u : FileTree} {raw : String} {h : Handle}
    (hopen : t.openWrite raw = .ok (u, h)) :
    ∃ l, t.NamesFile raw l ∧ t.openAt l = .ok (u, h) := by
  have hopened := hopen
  unfold openWrite at hopen
  obtain ⟨p, hp, hopen⟩ := bind_eq_ok_iff.mp hopen
  obtain ⟨goal, hgoal, hopen⟩ := bind_eq_ok_iff.mp hopen
  cases goal with
  | unnamed dir => cases hopen
  | named parent name =>
    simp only [throw_bind, ite_throw_eq_ok_iff] at hopen
    obtain ⟨hslash, hlength, -⟩ := hopen
    have hnames : t.NamesFile raw (parent ++ [name]) :=
      ⟨p, parent, name, hp, hgoal, Bool.eq_false_iff.mpr hslash, Nat.le_of_not_lt hlength, rfl⟩
    exact ⟨_, hnames, (openWrite_of_namesFile hnames).symm.trans hopened⟩

/-- What it means that a file is open for writing: its name leads to it, it is empty unless it is the
device, and nothing else has changed. -/
theorem openWrite_eq_ok {t u : FileTree} {raw : String} {h : Handle} (hb : t.Backed)
    (hopen : t.openWrite raw = .ok (u, h)) :
    ∃ l, t.NamesFile raw l ∧ t.Change u {l} {id | t.lookup l = some (.file id)} ∧
      u.lookup l = some h.entry ∧ h.offset = 0 ∧
      (h.entry = .fullDevice ∨ ∃ id, h.entry = .file id ∧ u.content id = [] ∧
        (id < t.contents.length → t.lookup l = some (.file id))) := by
  obtain ⟨l, hnames, hopen⟩ := exists_openAt hopen
  refine ⟨l, hnames, ?_⟩
  unfold openAt at hopen
  split at hopen
  · cases hopen
  · next hlookup =>
    cases hopen
    exact ⟨.refl hb _ _, hlookup, rfl, .inl rfl⟩
  · next id hlookup =>
    cases hopen
    have hid := hb l id hlookup
    refine ⟨(change_setContent hb hid []).mono (Set.empty_subset _) ?_,
      (lookup_setContent _ _ _ _).trans hlookup, rfl, .inr ⟨id, rfl, ?_, fun _ => hlookup⟩⟩
    · exact Set.singleton_subset_iff.mpr hlookup
    · rw [content_setContent _ hid, if_pos rfl]
  · next hlookup =>
    cases hopen
    have hnew := lookup_create t hnames.ne_nil [] l
    rw [if_pos rfl] at hnew
    have hcreated := change_create hb hnames.ne_nil hlookup []
    exact ⟨hcreated.mono subset_rfl (Set.empty_subset _), hnew, rfl,
      .inr ⟨_, rfl, content_create _ _ _, fun hlt => absurd hlt (Nat.lt_irrefl _)⟩⟩

/-- Bytes that are written are in the file; nothing is written to the device. -/
theorem write_eq_ok {t u : FileTree} {h k : Handle} {bytes : List UInt8} (hb : t.Backed)
    {l : Location} (hlookup : t.lookup l = some h.entry) (hwrite : t.write h bytes = .ok (u, k)) :
    t.Change u ∅ {id | h.entry = .file id} ∧
      (bytes = [] ∧ u = t ∧ k = h ∨ ∃ id, h.entry = .file id ∧
        u.content id = overwrite (t.content id) h.offset bytes ∧
        k = { h with offset := h.offset + bytes.length }) := by
  unfold write at hwrite
  split at hwrite
  · cases hwrite
    exact ⟨.refl hb _ _, .inl ⟨rfl, rfl, rfl⟩⟩
  · split at hwrite
    · cases hwrite
    · cases hwrite
    · next id hentry =>
      cases hwrite
      have hid := hb l id (hlookup.trans (congrArg some hentry))
      refine ⟨(change_setContent hb hid _).mono subset_rfl ?_, .inr ⟨id, hentry, ?_, rfl⟩⟩
      · exact Set.singleton_subset_iff.mpr hentry
      · rw [content_setContent _ hid, if_pos rfl]

theorem Backed.write {t u : FileTree} {h k : Handle} {bytes : List UInt8} (hb : t.Backed)
    (hwrite : t.write h bytes = .ok (u, k)) : u.Backed := by
  unfold FileTree.write at hwrite
  split at hwrite
  · cases hwrite
    exact hb
  · split at hwrite
    · cases hwrite
    · cases hwrite
    · cases hwrite
      exact hb.setContent _ _

theorem overwrite_end (old bytes : List UInt8) :
    overwrite old old.length bytes = old ++ bytes := by
  unfold overwrite
  rw [List.take_length, Nat.sub_self, List.drop_of_length_le (Nat.le_add_right _ _)]
  simp only [List.replicate_zero, List.append_nil]

/-- A file that is written holds the bytes that were written, unless they are none. -/
theorem writeFile_eq_ok {t u : FileTree} {raw : String} {bytes : List UInt8} (hb : t.Backed)
    (h : t.writeFile raw bytes = .ok u) :
    ∃ l, t.NamesFile raw l ∧ t.Change u {l} {id | t.lookup l = some (.file id)} ∧
      (bytes ≠ [] → ∃ id, u.lookup l = some (.file id) ∧ u.content id = bytes ∧
        (id < t.contents.length → t.lookup l = some (.file id))) := by
  unfold writeFile at h
  obtain ⟨⟨opened, handle⟩, hopen, h⟩ := bind_eq_ok_iff.mp h
  obtain ⟨⟨written, after⟩, hwrite, h⟩ := bind_eq_ok_iff.mp h
  cases h
  obtain ⟨l, hnames, hopened, hlookup, hoffset, hentry⟩ := openWrite_eq_ok hb hopen
  obtain ⟨hchange, hwritten⟩ := write_eq_ok hopened.backed hlookup hwrite
  refine ⟨l, hnames, hopened.trans hchange (Set.empty_subset _) (fun id hid hlt => ?_),
    fun hne => ?_⟩
  · rcases hentry with hdevice | ⟨id', hid', -, hold⟩
    · cases hdevice.symm.trans hid
    · cases hid'.symm.trans hid
      exact hold hlt
  · obtain ⟨hempty, -⟩ | ⟨id, hid, hcontent, -⟩ := hwritten
    · exact absurd hempty hne
    · rcases hentry with hdevice | ⟨id', hid', hcleared, hold⟩
      · cases hdevice.symm.trans hid
      · cases hid'.symm.trans hid
        refine ⟨id, ?_, ?_, hold⟩
        · rw [hchange.lookup l (Set.notMem_empty l), hlookup, hid]
        · rw [hcontent, hcleared, hoffset]
          exact overwrite_end [] bytes

/-! ## Renaming files -/

/-- The tree with another name for what has a name. -/
def move (t : FileTree) (source target : Location) (e : Entry) : FileTree :=
  (t.unbind source).bind target e

section Move

variable {t : FileTree} {source target : Location} {e : Entry}

theorem move_eq (t : FileTree) (source target : Location) (e : Entry) :
    t.move source target e = { t with entries := (t.move source target e).entries } :=
  bind_eq (t.unbind source) target e

theorem contents_move (t : FileTree) (source target : Location) (e : Entry) :
    (t.move source target e).contents = t.contents := by
  rw [move_eq]

theorem lookup_move (hsource : source ≠ []) (htarget : target ≠ []) (k : Location) :
    (t.move source target e).lookup k =
      if k = target then some e else if k = source then none else t.lookup k := by
  unfold move
  rw [lookup_bind _ htarget, lookup_unbind t hsource]

-- What the new tree holds was held before, at the old name in place of the new one.
theorem file_of_lookup_move (hsource : source ≠ []) (htarget : target ≠ [])
    (hlookup : t.lookup source = some e) {k : Location} {id : Nat}
    (hk : (t.move source target e).lookup k = some (.file id)) :
    t.lookup (if k = target then source else k) = some (.file id) := by
  rw [lookup_move hsource htarget] at hk
  split at hk
  · next hkt =>
    cases hk
    rw [if_pos hkt]
    exact hlookup
  · next hkt =>
    split at hk
    · cases hk
    · rw [if_neg hkt]
      exact hk

/-- Another name for a file changes nothing else. -/
theorem change_move (h : t.Backed) (hsource : source ≠ []) (htarget : target ≠ [])
    (hlookup : t.lookup source = some e) (hfile : e ≠ .directory)
    (hfree : t.lookup target ≠ some .directory) :
    t.Change (t.move source target e) {source, target} ∅ where
  backed k id hk := by
    rw [contents_move]
    exact h _ id (file_of_lookup_move hsource htarget hlookup hk)
  alike := by
    refine ⟨by rw [move_eq], fun k => ?_⟩
    rw [lookup_move hsource htarget]
    split
    · next hkt =>
      rw [hkt]
      exact iff_of_false (fun h => hfile (Option.some.inj h)) hfree
    · split
      · next hks =>
        rw [hks, hlookup]
        exact iff_of_false (fun h => by cases h) (fun h => hfile (Option.some.inj h))
      · exact Iff.rfl
  grown := by rw [contents_move]
  lookup k hk := by
    have hkt : k ≠ target := fun heq => hk (.inr heq)
    have hks : k ≠ source := fun heq => hk (.inl heq)
    rw [lookup_move hsource htarget, if_neg hkt, if_neg hks]
  content id _ _ := by
    unfold content
    rw [contents_move]

end Move

/-- A file that is given another name keeps what it holds, and loses its old name. Only if it has
both names already, nothing changes. -/
theorem rename_eq_ok {t u : FileTree} {old new : String} {source : Location} (hb : t.Backed)
    (hold : t.NamesFile old source) (h : t.rename old new = .ok u) :
    ∃ target, t.NamesFile new target ∧ t.Change u {source, target} ∅ ∧
      u.lookup target = t.lookup source ∧ u.contents = t.contents ∧
      (u.lookup source = none ∨ t.lookup target = t.lookup source) := by
  have hsource := hold.ne_nil
  obtain ⟨p, parent, name, hp, hgoal, hslash, -, rfl⟩ := hold
  unfold rename at h
  rw [hp, ok_bind] at h
  obtain ⟨q, hq, h⟩ := bind_eq_ok_iff.mp h
  rw [hgoal, ok_bind] at h
  obtain ⟨goal, hgoal', h⟩ := bind_eq_ok_iff.mp h
  cases goal with
  | unnamed dir => cases h
  | named parent' name' =>
    dsimp only at h
    split at h
    · cases h
    · cases h
    · next e hfile hlookup =>
      simp only [throw_bind, ite_throw_eq_ok_iff] at h
      obtain ⟨hlength, hslashes, hfree, h⟩ := h
      have hnames : t.NamesFile new (parent' ++ [name']) :=
        ⟨q, parent', name', hq, hgoal', Bool.eq_false_iff.mpr (fun hq => hslashes (.inr hq)),
          Nat.le_of_not_lt hlength, rfl⟩
      refine ⟨parent' ++ [name'], hnames, ?_⟩
      split at h
      · next hsame =>
        cases h
        have hboth := hsame.trans hlookup.symm
        exact ⟨.refl hb _ _, hboth, rfl, .inr hboth⟩
      · next hother =>
        cases h
        have hne : parent ++ [name] ≠ parent' ++ [name'] := by
          intro heq
          rw [← heq] at hother
          exact hother hlookup
        have hmoved : ∀ k, (t.move _ _ e).lookup k = _ := lookup_move hsource hnames.ne_nil
        refine ⟨change_move hb hsource hnames.ne_nil hlookup hfile hfree, ?_,
          contents_move t _ _ e, .inl ?_⟩
        · rw [hlookup]
          exact (hmoved _).trans (if_pos rfl)
        · exact (hmoved _).trans ((if_neg hne).trans (if_pos rfl))

end Statewright.FileTree
