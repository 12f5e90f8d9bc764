import Statewright.Text.Blank

/-!
# Words between separators

A text cut at a separator gives groups of words. What the groups of two texts are end to end is
settled by `splice`: the last group of the one runs on into the first of the other, as long as a
blank stands between them. So the groups of a text depend on its words alone, and neither on the
blanks between them nor on where its lines end.
-/

namespace Statewright.Text

variable {α : Type}

/-! ## Cutting -/

-- Cutting follows the separators: a text has none, or begins with a part in front of one.
theorem cut_induction {p : α → Bool} {motive : List α → Prop}
    (last : ∀ part, (∀ x ∈ part, p x = false) → motive part)
    (cons : ∀ part s rest, (∀ x ∈ part, p x = false) → p s = true → motive rest →
      motive (part ++ s :: rest)) (cs : List α) : motive cs := by
  -- The part in front grows until a separator ends it.
  have hgrow : ∀ (rest part : List α), (∀ x ∈ part, p x = false) → motive (part ++ rest) := by
    intro rest
    induction rest with
    | nil =>
      intro part hpart
      rw [List.append_nil]
      exact last part hpart
    | cons c rest ih =>
      intro part hpart
      cases hc : p c with
      | true =>
        apply cons part c rest hpart hc
        exact ih [] (fun x hx => by cases hx)
      | false =>
        rw [List.append_cons]
        apply ih
        intro x hx
        rcases List.mem_append.mp hx with hx | hx
        · exact hpart x hx
        · rw [List.mem_singleton.mp hx]
          exact hc
  exact hgrow cs [] (fun x hx => by cases hx)

/-- The last of the first groups runs on into the first of the others. -/
def splice : List (List α) → List (List α) → List (List α)
  | [], ys => ys
  | [x], ys => ys.modifyHead (x ++ ·)
  | x :: x' :: xs, ys => x :: splice (x' :: xs) ys

theorem splice_singleton (x y : List α) (ys : List (List α)) :
    splice [x] (y :: ys) = (x ++ y) :: ys :=
  rfl

theorem splice_cons (x : List α) {xs : List (List α)} (h : xs ≠ []) (ys : List (List α)) :
    splice (x :: xs) ys = x :: splice xs ys := by
  cases xs with
  | nil => exact absurd rfl h
  | cons x' xs => rfl

theorem splice_ne_nil (xs : List (List α)) {ys : List (List α)} (h : ys ≠ []) :
    splice xs ys ≠ [] := by
  cases xs with
  | nil => exact h
  | cons x xs =>
    cases xs with
    | nil => exact fun heq => h (List.modifyHead_eq_nil_iff.mp heq)
    | cons x' xs => exact List.cons_ne_nil _ _

theorem splice_append (xs : List (List α)) {ys : List (List α)} (h : ys ≠ [])
    (zs : List (List α)) : splice (xs ++ ys) zs = xs ++ splice ys zs := by
  induction xs with
  | nil => rfl
  | cons x xs ih =>
    rw [List.cons_append, splice_cons x (List.append_ne_nil_of_right_ne_nil xs h), ih,
      List.cons_append]

theorem splice_assoc (xs : List (List α)) {ys : List (List α)} (h : ys ≠ [])
    (zs : List (List α)) : splice (splice xs ys) zs = splice xs (splice ys zs) := by
  induction xs with
  | nil => rfl
  | cons x xs ih =>
    by_cases hxs : xs = []
    · subst hxs
      -- The one group runs on into the first of `ys`, which may be the only one there.
      cases ys with
      | nil => exact absurd rfl h
      | cons y ys =>
        cases ys with
        | nil =>
          cases zs with
          | nil => rfl
          | cons z zs =>
            rw [splice_singleton, splice_singleton, splice_singleton, splice_singleton,
              List.append_assoc]
        | cons y' ys => rfl
    · rw [splice_cons x hxs, splice_cons x (splice_ne_nil xs h), ih, splice_cons x hxs]

theorem splice_nil_left {ys : List (List α)} (h : ys ≠ []) : splice [[]] ys = ys := by
  cases ys with
  | nil => exact absurd rfl h
  | cons y ys => rfl

theorem splice_nil_right {xs : List (List α)} (h : xs ≠ []) : splice xs [[]] = xs := by
  induction xs with
  | nil => exact absurd rfl h
  | cons x xs ih =>
    by_cases hxs : xs = []
    · rw [hxs, splice_singleton, List.append_nil]
    · rw [splice_cons x hxs, ih hxs]

theorem getLastD_append (xs : List α) {ys : List α} (h : ys ≠ []) (a : α) :
    (xs ++ ys).getLastD a = ys.getLastD a := by
  rw [List.getLastD_eq_getLast?, List.getLast?_append, List.getLastD_eq_getLast?,
    List.getLast?_eq_some_getLast h, Option.some_or]

theorem splice_eq_append {xs : List (List α)} (h : xs ≠ []) (ys : List (List α)) :
    splice xs ys = xs.dropLast ++ splice [xs.getLastD []] ys := by
  induction xs with
  | nil => exact absurd rfl h
  | cons x xs ih =>
    by_cases hxs : xs = []
    · rw [hxs]
      rfl
    · have hlast : (x :: xs).getLastD [] = xs.getLastD [] := by
        cases xs with
        | nil => exact absurd rfl hxs
        | cons x' xs => rfl
      rw [splice_cons x hxs, ih hxs, hlast, List.dropLast_cons_of_ne_nil hxs, List.cons_append]

theorem flatten_splice (xs : List (List α)) {ys : List (List α)} (h : ys ≠ []) :
    (splice xs ys).flatten = xs.flatten ++ ys.flatten := by
  induction xs with
  | nil => rfl
  | cons x xs ih =>
    by_cases hxs : xs = []
    · rw [hxs]
      cases ys with
      | nil => exact absurd rfl h
      | cons y ys => simp [splice_singleton]
    · rw [splice_cons x hxs, List.flatten_cons, ih, List.flatten_cons, List.append_assoc]

theorem length_splice_singleton (x : List α) (ys : List (List α)) :
    (splice [x] ys).length = ys.length :=
  List.length_modifyHead

-- A part without separator runs on into whatever follows it.
theorem splitOnP_append {p : α → Bool} {part : List α} (h : ∀ x ∈ part, p x = false)
    (rest : List α) : (part ++ rest).splitOnP p = splice [part] (rest.splitOnP p) := by
  induction part with
  | nil => rw [List.nil_append, splice_nil_left (List.splitOnP_ne_nil p rest)]
  | cons c part ih =>
    have hc := h c List.mem_cons_self
    rw [List.cons_append, List.splitOnP_cons_eq_if_modifyHead, if_neg (by rw [hc]; decide),
      ih (fun x hx => h x (List.mem_cons_of_mem c hx))]
    cases rest.splitOnP p with
    | nil => rfl
    | cons g gs => rfl

theorem length_splitOnP (p : α → Bool) (xs : List α) :
    (xs.splitOnP p).length = xs.countP p + 1 := by
  induction xs with
  | nil => rfl
  | cons x xs ih =>
    rw [List.splitOnP_cons_eq_if_modifyHead, List.countP_cons]
    by_cases hx : p x = true
    · rw [if_pos hx, if_pos hx, List.length_cons, ih]
    · rw [if_neg hx, if_neg hx, List.length_modifyHead, ih, Nat.add_zero]

/-! ## Joining -/

theorem intercalate_concat (sep : List α) (xs : List (List α)) (x : List α) :
    sep.intercalate (xs ++ [x]) = if xs = [] then x else sep.intercalate xs ++ sep ++ x := by
  induction xs with
  | nil => exact List.intercalate_singleton
  | cons y xs ih =>
    have hne : xs ++ [x] ≠ [] := List.append_ne_nil_of_right_ne_nil xs (List.cons_ne_nil x [])
    rw [if_neg (List.cons_ne_nil y xs), List.cons_append, List.intercalate_cons_of_ne_nil hne, ih]
    by_cases hxs : xs = []
    · rw [hxs, if_pos rfl, List.intercalate_singleton]
    · rw [if_neg hxs, List.intercalate_cons_of_ne_nil hxs]
      simp only [List.append_assoc]

theorem countP_intercalate {p : α → Bool} {sep : List α} (hsep : sep.countP p = 0)
    (xs : List (List α)) : (sep.intercalate xs).countP p = xs.flatten.countP p := by
  induction xs with
  | nil => rfl
  | cons x xs ih =>
    by_cases hxs : xs = []
    · rw [hxs, List.intercalate_singleton, List.flatten_singleton]
    · rw [List.intercalate_cons_of_ne_nil hxs, List.flatten_cons, List.countP_append,
        List.countP_append, List.countP_append, hsep, ih, Nat.add_zero]

/-! ## Words -/

/-- The words of a text. -/
def wordsIn (cs : List Char) : List String :=
  (wordLists cs).map String.ofList

/-- A text that is one word. -/
def IsWord (w : String) : Prop :=
  w ≠ "" ∧ ∀ c ∈ w.toList, isBlank c = false

instance (w : String) : Decidable (IsWord w) :=
  decidable_of_iff (w ≠ "" ∧ w.toList.any isBlank = false)
    (and_congr_right fun _ => by simp only [List.any_eq_false, Bool.not_eq_true])

def Blanks (cs : List Char) : Prop :=
  ∀ c ∈ cs, isBlank c = true

instance (cs : List Char) : Decidable (Blanks cs) :=
  decidable_of_iff (cs.all isBlank = true) List.all_eq_true

theorem Blanks.not_mem {bs : List Char} (h : Blanks bs) {sep : Char} (hsep : isBlank sep = false) :
    sep ∉ bs := by
  intro hmem
  rw [h sep hmem] at hsep
  cases hsep

theorem wordsIn_nil : wordsIn [] = [] :=
  rfl

theorem wordsIn_append_blank {b : Char} (hb : isBlank b = true) (s t : List Char) :
    wordsIn (s ++ b :: t) = wordsIn s ++ wordsIn t := by
  rw [wordsIn, wordLists_append_blank hb, List.map_append]
  rfl

theorem wordsIn_cons_blank {b : Char} (hb : isBlank b = true) (t : List Char) :
    wordsIn (b :: t) = wordsIn t :=
  wordsIn_append_blank hb [] t

theorem wordsIn_blanks_append {bs : List Char} (h : Blanks bs) (t : List Char) :
    wordsIn (bs ++ t) = wordsIn t := by
  induction bs with
  | nil => rfl
  | cons b bs ih =>
    rw [List.cons_append, wordsIn_cons_blank (h b List.mem_cons_self),
      ih (fun c hc => h c (List.mem_cons_of_mem b hc))]

theorem wordsIn_blanks {bs : List Char} (h : Blanks bs) : wordsIn bs = [] := by
  rw [← List.append_nil bs, wordsIn_blanks_append h, wordsIn_nil]

theorem wordsIn_append_blanks {bs : List Char} (h : Blanks bs) (s : List Char) :
    wordsIn (s ++ bs) = wordsIn s := by
  cases bs with
  | nil => rw [List.append_nil]
  | cons b bs =>
    rw [wordsIn_append_blank (h b List.mem_cons_self),
      wordsIn_blanks (fun c hc => h c (List.mem_cons_of_mem b hc)), List.append_nil]

-- Blanks between two texts keep their words apart.
theorem wordsIn_apart {bs : List Char} (h : Blanks bs) (hne : bs ≠ []) (s t : List Char) :
    wordsIn (s ++ (bs ++ t)) = wordsIn s ++ wordsIn t := by
  cases bs with
  | nil => exact absurd rfl hne
  | cons b bs =>
    rw [List.cons_append, wordsIn_append_blank (h b List.mem_cons_self),
      wordsIn_blanks_append (fun c hc => h c (List.mem_cons_of_mem b hc))]

theorem wordsIn_of_isWord {w : String} (h : IsWord w) : wordsIn w.toList = [w] := by
  have hne : w.toList ≠ [] := fun heq => h.1 (String.toList_eq_nil_iff.mp heq)
  have hfilter : [w.toList].filter (fun g => !g.isEmpty) = [w.toList] := by
    apply List.filter_cons_of_pos
    rw [List.isEmpty_eq_false_iff.mpr hne]
    rfl
  rw [wordsIn, wordLists, List.splitOnP_eq_singleton h.2, hfilter, List.map_singleton,
    String.ofList_toList]

-- A text without blanks is one word, if it is not empty.
theorem wordsIn_part {part : List Char} (h : ∀ c ∈ part, isBlank c = false) :
    part = [] ∨ (IsWord (String.ofList part) ∧ wordsIn part = [String.ofList part]) := by
  by_cases hne : part = []
  · exact .inl hne
  · right
    have hword : IsWord (String.ofList part) := by
      refine ⟨fun heq => hne (String.ofList_eq_empty_iff.mp heq), ?_⟩
      rw [String.toList_ofList]
      exact h
    have hwords := wordsIn_of_isWord hword
    rw [String.toList_ofList] at hwords
    exact ⟨hword, hwords⟩

theorem isWord_of_mem {w : String} {cs : List Char} (h : w ∈ wordsIn cs) : IsWord w := by
  have hpart : ∀ part, (∀ c ∈ part, isBlank c = false) → w ∈ wordsIn part → IsWord w := by
    intro part hblank hmem
    rcases wordsIn_part hblank with rfl | ⟨hword, hwords⟩
    · cases hmem
    · rw [hwords, List.mem_singleton] at hmem
      rw [hmem]
      exact hword
  induction cs using cut_induction (p := isBlank) with
  | last part hblank => exact hpart part hblank h
  | cons part s rest hblank hs ih =>
    rw [wordsIn_append_blank hs] at h
    rcases List.mem_append.mp h with h | h
    · exact hpart part hblank h
    · exact ih h

theorem toList_unwords_cons (w : String) {ws : List String} (h : ws ≠ []) :
    (unwords (w :: ws)).toList = w.toList ++ ' ' :: (unwords ws).toList := by
  rw [unwords, String.intercalate_cons_of_ne_nil h, String.toList_append, String.toList_append,
    List.append_assoc]
  simp [unwords]

theorem toList_unwords_singleton (w : String) : (unwords [w]).toList = w.toList := by
  rw [unwords, String.intercalate_singleton]

theorem unwords_nil : unwords [] = "" :=
  String.intercalate_nil

theorem not_mem_unwords {c : Char} (hc : c ≠ ' ') {ws : List String}
    (h : ∀ w ∈ ws, c ∉ w.toList) : c ∉ (unwords ws).toList := by
  induction ws with
  | nil =>
    rw [unwords_nil]
    exact List.not_mem_nil
  | cons w ws ih =>
    have hw := h w List.mem_cons_self
    by_cases hne : ws = []
    · rw [hne, toList_unwords_singleton]
      exact hw
    · rw [toList_unwords_cons w hne, List.mem_append, List.mem_cons, not_or, not_or]
      exact ⟨hw, hc, ih (fun v hv => h v (List.mem_cons_of_mem w hv))⟩

-- Words written with single spaces are the words of what is written.
theorem wordsIn_unwords {ws : List String} (h : ∀ w ∈ ws, IsWord w) :
    wordsIn (unwords ws).toList = ws := by
  induction ws with
  | nil => simp [unwords_nil, wordsIn_nil]
  | cons w ws ih =>
    have hw := wordsIn_of_isWord (h w List.mem_cons_self)
    by_cases hne : ws = []
    · rw [hne, toList_unwords_singleton, hw]
    · rw [toList_unwords_cons w hne, wordsIn_append_blank rfl, hw,
        ih (fun v hv => h v (List.mem_cons_of_mem w hv)), List.singleton_append]

/-! ## Trimming -/

theorem blanks_of_wordsIn {cs : List Char} (h : wordsIn cs = []) : Blanks cs := by
  have hpart : ∀ part, (∀ c ∈ part, isBlank c = false) → wordsIn part = [] → part = [] := by
    intro part hblank hnone
    rcases wordsIn_part hblank with hnil | ⟨-, hwords⟩
    · exact hnil
    · rw [hwords] at hnone
      cases hnone
  induction cs using cut_induction (p := isBlank) with
  | last part hblank =>
    rw [hpart part hblank h]
    intro c hc
    cases hc
  | cons part s rest hblank hs ih =>
    rw [wordsIn_append_blank hs, List.append_eq_nil_iff] at h
    rw [hpart part hblank h.1]
    intro c hc
    rcases List.mem_cons.mp hc with rfl | hc
    · exact hs
    · exact ih h.2 c hc

theorem wordsIn_eq_nil_iff {cs : List Char} : wordsIn cs = [] ↔ Blanks cs :=
  ⟨blanks_of_wordsIn, wordsIn_blanks⟩

theorem blanks_takeWhile (cs : List Char) : Blanks (cs.takeWhile isBlank) :=
  List.all_eq_true.mp List.all_takeWhile

theorem trimLeft_eq_nil_iff {cs : List Char} : trimLeft cs = [] ↔ Blanks cs := by
  constructor
  · intro h
    have hcs : cs.takeWhile isBlank ++ trimLeft cs = cs := List.takeWhile_append_dropWhile
    rw [h, List.append_nil] at hcs
    rw [← hcs]
    exact blanks_takeWhile cs
  · intro h
    rw [trimLeft, ← List.append_nil cs, List.dropWhile_append_of_pos h, List.dropWhile_nil]

theorem wordsIn_trimLeft (cs : List Char) : wordsIn (trimLeft cs) = wordsIn cs := by
  have hfront := blanks_takeWhile cs
  rw [← wordsIn_blanks_append hfront (trimLeft cs), trimLeft, List.takeWhile_append_dropWhile]

theorem wordsIn_trimRight (cs : List Char) : wordsIn (trimRight cs) = wordsIn cs := by
  have hback : Blanks (cs.reverse.takeWhile isBlank).reverse := fun c hc =>
    blanks_takeWhile cs.reverse c (List.mem_reverse.mp hc)
  rw [← wordsIn_append_blanks hback (trimRight cs), trimRight, ← List.reverse_append,
    List.takeWhile_append_dropWhile, List.reverse_reverse]

theorem words_trim (s : String) : words (trim s) = words s := by
  show wordsIn (trim s).toList = wordsIn s.toList
  rw [trim, String.toList_ofList, wordsIn_trimRight, wordsIn_trimLeft]

theorem trim_eq_empty_iff (s : String) : trim s = "" ↔ words s = [] := by
  constructor
  · intro h
    rw [← words_trim, h]
    rfl
  · intro h
    rw [trim, trimLeft_eq_nil_iff.mpr (blanks_of_wordsIn h)]
    rfl

/-! ## Groups of words -/

/-- The words between one separator and the next. -/
def between (sep : Char) (cs : List Char) : List (List String) :=
  (cs.splitOnP (· = sep)).map wordsIn

variable {sep : Char}

theorem between_ne_nil (sep : Char) (cs : List Char) : between sep cs ≠ [] := by
  rw [between, ne_eq, List.map_eq_nil_iff]
  exact List.splitOnP_ne_nil _ cs

theorem between_append_sep (sep : Char) (s t : List Char) :
    between sep (s ++ sep :: t) = between sep s ++ between sep t := by
  rw [between, List.splitOnP_append_cons s t (decide_eq_true rfl), List.map_append]
  rfl

theorem between_of_not_mem {cs : List Char} (h : sep ∉ cs) : between sep cs = [wordsIn cs] := by
  have hfree : ∀ c ∈ cs, (decide (c = sep)) = false := by
    intro c hc
    apply decide_eq_false
    rintro rfl
    exact h hc
  rw [between, List.splitOnP_eq_singleton hfree, List.map_singleton]

-- A text without separator in front: its words join the first group.
theorem between_part {part : List Char} (h : sep ∉ part) {b : Char} (hb : isBlank b = true)
    (hsep : b ≠ sep) (rest : List Char) :
    between sep (part ++ b :: rest) = splice [wordsIn part] (between sep rest) := by
  have hfree : ∀ c ∈ part ++ [b], (decide (c = sep)) = false := by
    intro c hc
    apply decide_eq_false
    rintro rfl
    rcases List.mem_append.mp hc with hc | hc
    · exact h hc
    · exact hsep (List.mem_singleton.mp hc).symm
  -- The blank belongs to the part in front of it, so that the words of the two stay apart.
  rw [List.append_cons, between, splitOnP_append hfree, between]
  cases hrest : rest.splitOnP (· = sep) with
  | nil => exact absurd hrest (List.splitOnP_ne_nil _ rest)
  | cons g gs =>
    rw [splice_singleton, List.map_cons, List.map_cons, splice_singleton, List.append_assoc,
      List.singleton_append, wordsIn_append_blank hb]

-- A blank keeps the words of two texts apart, so only their groups run on.
theorem between_append_blank {b : Char} (hb : isBlank b = true) (hsep : b ≠ sep)
    (s t : List Char) : between sep (s ++ b :: t) = splice (between sep s) (between sep t) := by
  induction s using cut_induction (p := (· = sep)) with
  | last part hpart =>
    have hfree : sep ∉ part := fun hmem => absurd rfl (of_decide_eq_false (hpart sep hmem))
    rw [between_part hfree hb hsep, between_of_not_mem hfree]
  | cons part s rest hpart hs ih =>
    rw [of_decide_eq_true hs, List.append_assoc, List.cons_append, between_append_sep, ih,
      between_append_sep, splice_append _ (between_ne_nil sep rest)]

-- The groups of a text are made of the groups of its words.
theorem between_eq_foldr (hsep : isBlank sep = false) (cs : List Char) :
    between sep cs = (wordsIn cs).foldr (fun w => splice (between sep w.toList)) [[]] := by
  -- A part without blanks is one word or nothing, so its groups are those of its words.
  have hpart : ∀ part, (∀ c ∈ part, isBlank c = false) → ∀ groups, groups ≠ [] →
      splice (between sep part) groups =
        (wordsIn part).foldr (fun w => splice (between sep w.toList)) groups := by
    intro part hblank groups hne
    rcases wordsIn_part hblank with rfl | ⟨-, hwords⟩
    · exact splice_nil_left hne
    · rw [hwords, List.foldr_cons, List.foldr_nil, String.toList_ofList]
  induction cs using cut_induction (p := isBlank) with
  | last part hblank =>
    rw [← hpart part hblank [[]] (List.cons_ne_nil _ _), splice_nil_right (between_ne_nil sep part)]
  | cons part s rest hblank hs ih =>
    have hne : s ≠ sep := by
      rintro rfl
      rw [hs] at hsep
      cases hsep
    rw [between_append_blank hs hne, wordsIn_append_blank hs, List.foldr_append, ← ih,
      hpart part hblank _ (between_ne_nil sep rest)]

-- The groups of a text depend on its words alone.
theorem between_congr (hsep : isBlank sep = false) {cs ds : List Char}
    (h : wordsIn cs = wordsIn ds) : between sep cs = between sep ds := by
  rw [between_eq_foldr hsep cs, between_eq_foldr hsep ds, h]

theorem flatten_between (hsep : isBlank sep = false) (cs : List Char) :
    (between sep cs).flatten = (wordsIn cs).flatMap (fun w => (between sep w.toList).flatten) := by
  -- Both facts at once: the groups are joined only where there are any.
  have hfold : ∀ ws : List String,
      ws.foldr (fun w => splice (between sep w.toList)) [[]] ≠ [] ∧
      (ws.foldr (fun w => splice (between sep w.toList)) [[]]).flatten =
        ws.flatMap (fun w => (between sep w.toList).flatten) := by
    intro ws
    induction ws with
    | nil => exact ⟨List.cons_ne_nil _ _, rfl⟩
    | cons w ws ih =>
      rw [List.foldr_cons, flatten_splice _ ih.1, ih.2, List.flatMap_cons]
      exact ⟨splice_ne_nil _ ih.1, rfl⟩
  rw [between_eq_foldr hsep cs, (hfold _).2]

end Statewright.Text
