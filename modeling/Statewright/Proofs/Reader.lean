import Statewright.Language.Reader
import Statewright.Proofs.Lines

/-!
# Statements of a text

What the reader makes of lines is said by the groups of words between semicolons: the words that
wait run on into the first group, every group but the last is closed to a statement, and the words
of the last one wait. Where lines end plays no part, as long as no line is taken for a comment.
-/

open Statewright.Text

namespace Statewright

def statementsOf (findings : List Finding) : List Statement :=
  findings.filterMap fun
    | .statement s => some s
    | .remark _ _ => none

theorem statementsOf_append (fs gs : List Finding) :
    statementsOf (fs ++ gs) = statementsOf fs ++ statementsOf gs :=
  List.filterMap_append

theorem statementsOf_map {α : Type} (f : α → Statement) (xs : List α) :
    statementsOf (xs.map (fun x => .statement (f x))) = xs.map f := by
  rw [statementsOf, List.filterMap_map]
  exact congrFun List.filterMap_eq_map xs

namespace Reader

def pushAll (r : Reader) : List String → Reader × List Finding
  | [] => (r, [])
  | line :: lines =>
    let (next, findings) := r.push line
    let (last, rest) := next.pushAll lines
    (last, findings ++ rest)

/-- The groups of words that a reader has when a text follows what it read. -/
def groups (r : Reader) (cs : List Char) : List (List String) :=
  splice [r.pending] (between ';' cs)

theorem groups_ne_nil (r : Reader) (cs : List Char) : r.groups cs ≠ [] :=
  splice_ne_nil _ (between_ne_nil ';' cs)

/-! ## One line -/

-- Every group but the last is closed, and the last one waits.
theorem closeSegments_eq (line : Nat) (pending : List String) {segments : List (List Char)}
    (hne : segments ≠ []) :
    closeSegments line pending segments =
      ((splice [pending] (segments.map wordsIn)).dropLast.flatMap (fun g => close g line true),
        (splice [pending] (segments.map wordsIn)).getLastD []) := by
  induction segments generalizing pending with
  | nil => exact absurd rfl hne
  | cons segment segments ih =>
    cases segments with
    | nil => rfl
    | cons next segments =>
      have hmap : (next :: segments).map wordsIn ≠ [] := List.cons_ne_nil _ _
      rw [closeSegments, ih [] (List.cons_ne_nil _ _), splice_nil_left hmap]
      · rfl
      · exact fun h => List.cons_ne_nil _ _ h

theorem flatMap_close (groups : List (List String)) (line : Nat) :
    groups.flatMap (fun g => close g line true) =
      (groups.filter (· ≠ [])).map (fun g => .statement ⟨unwords g, line, true⟩) := by
  induction groups with
  | nil => rfl
  | cons g groups ih =>
    rw [List.flatMap_cons, ih]
    cases g with
    | nil => rfl
    | cons w ws => rfl

theorem statementsOf_close {groups : List (List String)} (h : ∀ g ∈ groups, g ≠ []) (line : Nat) :
    statementsOf (groups.flatMap (fun g => close g line true)) =
      groups.map (fun g => ⟨unwords g, line, true⟩) := by
  have hall : groups.filter (· ≠ []) = groups :=
    List.filter_eq_self.mpr (fun g hg => decide_eq_true (h g hg))
  rw [flatMap_close, hall, statementsOf_map]

theorem push_of_skips {r : Reader} {text : String} (h : r.skips text.toList = true) :
    r.push text = (⟨r.line + 1, r.pending⟩, []) := by
  unfold push
  dsimp only
  rw [if_pos h]

-- A line that is skipped would close no group, or an empty one.
theorem groups_of_skips {r : Reader} {cs : List Char} (h : r.skips cs = true) :
    r.groups cs = [r.pending] ∨ [] ∈ (r.groups cs).dropLast := by
  have hcs : cs.takeWhile isBlank ++ trimLeft cs = cs := List.takeWhile_append_dropWhile
  have hblanks : Blanks (cs.takeWhile isBlank) := blanks_takeWhile cs
  have hfree : ';' ∉ cs.takeWhile isBlank := fun hmem => absurd (hblanks ';' hmem) (by decide)
  unfold skips at h
  cases hrest : trimLeft cs with
  | nil =>
    left
    rw [hrest, List.append_nil] at hcs
    rw [groups, ← hcs, between_of_not_mem hfree, wordsIn_blanks hblanks, splice_singleton,
      List.append_nil]
  | cons c rest =>
    right
    rw [hrest] at h hcs
    simp only [Bool.and_eq_true, decide_eq_true_eq, isAccumulating, Bool.not_not,
      List.isEmpty_iff] at h
    rw [groups, h.2, ← hcs, h.1, between_append_sep, between_of_not_mem hfree,
      wordsIn_blanks hblanks, List.singleton_append, splice_singleton, List.append_nil,
      List.dropLast_cons_of_ne_nil (between_ne_nil ';' rest)]
    exact List.mem_cons_self

theorem length_groups (r : Reader) (cs : List Char) :
    (r.groups cs).length = cs.countP (· = ';') + 1 := by
  rw [groups, length_splice_singleton, between, List.length_map, length_splitOnP]

theorem push_of_not_skips {r : Reader} {text : String} (h : r.skips text.toList = false) :
    r.push text = (⟨r.line + 1, (r.groups text.toList).getLastD []⟩,
      (r.groups text.toList).dropLast.flatMap (fun g => close g (r.line + 1) true) ++
        if (r.groups text.toList).length = 1 then [.remark (r.line + 1) .semicolonExpected]
        else []) := by
  unfold push
  dsimp only
  rw [if_neg (by rw [h]; decide), closeSegments_eq _ _ (List.splitOnP_ne_nil _ _), length_groups,
    length_splitOnP]
  rfl

theorem push_eq {r : Reader} (text : String)
    (hclosed : ∀ g ∈ (r.groups text.toList).dropLast, g ≠ []) :
    (r.push text).1 = ⟨r.line + 1, (r.groups text.toList).getLastD []⟩ ∧
    statementsOf (r.push text).2 =
      (r.groups text.toList).dropLast.map (fun g => ⟨unwords g, r.line + 1, true⟩) := by
  cases hskips : r.skips text.toList with
  | true =>
    rw [push_of_skips hskips]
    rcases groups_of_skips hskips with hgroups | hempty
    · rw [hgroups]
      exact ⟨rfl, rfl⟩
    · exact absurd rfl (hclosed [] hempty)
  | false =>
    rw [push_of_not_skips hskips]
    refine ⟨rfl, ?_⟩
    rw [statementsOf_append, statementsOf_close hclosed]
    split
    · exact List.append_nil _
    · exact List.append_nil _

-- A line that closes statements, none of which is without words, and begins no other.
theorem push_closed {r : Reader} {text : String} {groups : List (List String)}
    (hgroups : r.groups text.toList = groups ++ [[]]) (hsome : groups ≠ [])
    (hne : ∀ g ∈ groups, g ≠ []) :
    r.push text =
      (⟨r.line + 1, []⟩, groups.map (fun g => .statement ⟨unwords g, r.line + 1, true⟩)) := by
  have hlength : (groups ++ [[]]).length ≠ 1 := by
    have hpos := List.length_pos_iff.mpr hsome
    rw [List.length_append, List.length_singleton]
    omega
  have hskips : r.skips text.toList = false := by
    cases hskips : r.skips text.toList with
    | false => rfl
    | true =>
      rcases groups_of_skips hskips with hone | hempty
      · rw [← hgroups, hone] at hlength
        exact absurd rfl hlength
      · rw [hgroups, List.dropLast_concat] at hempty
        exact absurd rfl (hne [] hempty)
  have hall : groups.filter (· ≠ []) = groups :=
    List.filter_eq_self.mpr (fun g hg => decide_eq_true (hne g hg))
  rw [push_of_not_skips hskips, hgroups, List.getLastD_concat, List.dropLast_concat, flatMap_close,
    hall, if_neg hlength, List.append_nil]

-- A line that is one statement.
theorem push_statement (line : Nat) {cs : List Char} (h : ';' ∉ cs) (hne : wordsIn cs ≠ []) :
    push ⟨line, []⟩ (String.ofList (cs ++ [';', '\n'])) =
      (⟨line + 1, []⟩, [.statement ⟨unwords (wordsIn cs), line + 1, true⟩]) := by
  have hbreak : between ';' ['\n'] = [[]] := by
    rw [between_of_not_mem (by decide), wordsIn_blanks (by decide)]
  have hgroups : groups ⟨line, []⟩ (cs ++ [';', '\n']) = [wordsIn cs] ++ [[]] := by
    rw [groups, between_append_sep, between_of_not_mem h, hbreak]
    exact splice_nil_left (List.cons_ne_nil _ _)
  rw [← String.toList_ofList (l := cs ++ [';', '\n'])] at hgroups
  exact push_closed hgroups (List.cons_ne_nil _ _) (List.forall_mem_singleton.mpr hne)

/-! ## All lines of a text -/

-- The groups of a text are those that a line closes, and then those of the reader after it.
theorem groups_line (r : Reader) (part rest : List Char) :
    r.groups (part ++ '\n' :: rest) =
      (r.groups part).dropLast ++ groups ⟨r.line + 1, (r.groups part).getLastD []⟩ rest := by
  rw [groups, between_append_blank rfl (by decide), ← splice_assoc _ (between_ne_nil ';' part)]
  exact splice_eq_append (r.groups_ne_nil part) _

theorem groups_lineBreak (r : Reader) (part : List Char) :
    r.groups (part ++ ['\n']) = r.groups part := by
  rw [groups, between_append_blank rfl (by decide), ← splice_assoc _ (between_ne_nil ';' part),
    between_of_not_mem List.not_mem_nil, wordsIn_nil]
  exact splice_nil_right (r.groups_ne_nil part)

-- The reader finds the same statements in the lines of a text as there are groups closed in the
-- text, and the same words wait.
theorem pushAll_textLines (cs : List Char) {r : Reader}
    (hclosed : ∀ g ∈ (r.groups cs).dropLast, g ≠ []) :
    (r.pushAll (Source.textLines cs)).1.pending = (r.groups cs).getLastD [] ∧
    (statementsOf (r.pushAll (Source.textLines cs)).2).map Statement.text =
      (r.groups cs).dropLast.map unwords := by
  -- The numbers of the lines are told with the statements, but here only their texts matter.
  have htexts : ∀ (groups : List (List String)) (line : Nat),
      (groups.map (fun g => (⟨unwords g, line, true⟩ : Statement))).map Statement.text =
        groups.map unwords := by
    intro groups line
    rw [List.map_map]
    rfl
  induction cs using cut_induction (p := (· = '\n')) generalizing r with
  | last part hpart =>
    have hfree : '\n' ∉ part := fun hmem => absurd rfl (of_decide_eq_false (hpart '\n' hmem))
    by_cases hne : part = []
    · rw [hne, Source.textLines_nil, groups, between_of_not_mem List.not_mem_nil, wordsIn_nil,
        splice_singleton, List.append_nil]
      exact ⟨rfl, rfl⟩
    · have hpush := push_eq (r := r) (String.ofList part)
      rw [String.toList_ofList] at hpush
      obtain ⟨hnext, hfound⟩ := hpush hclosed
      rw [Source.textLines_last hfree hne]
      show (r.push _).1.pending = _ ∧ (statementsOf ((r.push _).2 ++ [])).map _ = _
      rw [List.append_nil, hnext, hfound, htexts]
      exact ⟨rfl, rfl⟩
  | cons part s rest hpart hs ih =>
    have hfree : '\n' ∉ part := fun hmem => absurd rfl (of_decide_eq_false (hpart '\n' hmem))
    obtain rfl : s = '\n' := of_decide_eq_true hs
    have hpush := push_eq (r := r) (String.ofList (part ++ ['\n']))
    rw [String.toList_ofList, groups_lineBreak] at hpush
    -- What waits after the first line runs on into the first group of the others.
    rw [groups_line] at hclosed ⊢
    rw [List.dropLast_append_of_ne_nil (groups_ne_nil _ rest)] at hclosed ⊢
    obtain ⟨hnext, hfound⟩ := hpush (fun g hg => hclosed g (List.mem_append_left _ hg))
    obtain ⟨hwaiting, hrest⟩ := ih (r := (r.push (String.ofList (part ++ ['\n']))).1)
      (by rw [hnext]; exact fun g hg => hclosed g (List.mem_append_right _ hg))
    rw [Source.textLines_break hfree]
    show ((r.push _).1.pushAll _).1.pending = _ ∧
      (statementsOf ((r.push _).2 ++ ((r.push _).1.pushAll _).2)).map _ = _
    rw [statementsOf_append, List.map_append, hwaiting, hrest, hfound, htexts, hnext,
      List.map_append, getLastD_append _ (groups_ne_nil _ rest)]
    exact ⟨rfl, rfl⟩

end Reader

end Statewright
