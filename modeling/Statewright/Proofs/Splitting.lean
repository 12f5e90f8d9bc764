import Statewright.Proofs.Commands

/-!
# The one way to cut a statement

What pieces have to look like settles what they are. Of all lists of pieces that have the words of a
statement in order, one alone begins every piece past the first with a keyword and keeps all other
keywords out, but for the input of EXECUTE. So a piece is cut no further, and the pieces of a
statement written in a row are cut where they were.
-/

open Statewright.Text

namespace Statewright.Language

/-! ## Keywords inside of pieces -/

/-- The keyword that a piece begins with, if it begins with one. -/
def leading? (piece : List String) : Option Keyword :=
  piece.head?.bind Keyword.ofWord?

theorem awaitsInput_eq_true_iff {piece : List String} :
    awaitsInput piece = true ↔ piece.length = 1 ∧ leading? piece = some .execute := by
  unfold awaitsInput
  split
  · next head => simp [leading?]
  · next hlong =>
    refine iff_of_false Bool.false_ne_true (fun h => ?_)
    obtain ⟨head, rfl⟩ := List.length_eq_one_iff.mp h.1
    exact hlong head rfl

/-- Whether a keyword stands in a piece only in front, or as the input of EXECUTE. -/
def KeepsKeywords (piece : List String) : Prop :=
  ∀ i w, piece[i]? = some w → isKeyword w = true →
    i = 0 ∨ (i = 1 ∧ leading? piece = some .execute)

instance (piece : List String) : Decidable (KeepsKeywords piece) :=
  decidable_of_iff (∀ i : Fin piece.length, isKeyword piece[i] = true →
      i.val = 0 ∨ (i.val = 1 ∧ leading? piece = some .execute)) (by
    constructor
    · intro h i w hw
      obtain ⟨hi, rfl⟩ := List.getElem?_eq_some_iff.mp hw
      exact h ⟨i, hi⟩
    · intro h i
      exact h i _ (List.getElem?_eq_getElem i.isLt))

theorem keepsKeywords_singleton (w : String) : KeepsKeywords [w] := by
  intro i v hv _
  have hlength := (List.getElem?_eq_some_iff.mp hv).1
  rw [List.length_singleton] at hlength
  omega

/-- A piece may grow by a word that is no keyword, and a lone EXECUTE by any word. -/
theorem keepsKeywords_concat {piece : List String} (hne : piece ≠ []) (w : String) :
    KeepsKeywords (piece ++ [w]) ↔
      KeepsKeywords piece ∧ (isKeyword w = true → awaitsInput piece = true) := by
  obtain ⟨head, front, rfl⟩ := List.exists_cons_of_ne_nil hne
  have hlast : (head :: front ++ [w])[(head :: front).length]? = some w :=
    List.getElem?_concat_length
  constructor
  · intro h
    refine ⟨fun i v hv => h i v ?_, fun hw => ?_⟩
    · rw [List.getElem?_append_left (List.getElem?_eq_some_iff.mp hv).1]
      exact hv
    · rcases h _ w hlast hw with hzero | ⟨hone, hexecute⟩
      · cases hzero
      · have hfront : front = [] := List.length_eq_zero_iff.mp (Nat.succ.inj hone)
        rw [hfront] at hexecute ⊢
        exact awaitsInput_eq_true_iff.mpr ⟨rfl, hexecute⟩
  · rintro ⟨hpiece, hw⟩ i v hv hkeyword
    by_cases hi : i < (head :: front).length
    · rw [List.getElem?_append_left hi] at hv
      exact hpiece i v hv hkeyword
    · -- The word is the last one, so the piece in front of it is a lone EXECUTE.
      obtain rfl : i = (head :: front).length := by
        have hlength := (List.getElem?_eq_some_iff.mp hv).1
        rw [List.length_append, List.length_singleton] at hlength
        omega
      cases hlast.symm.trans hv
      obtain ⟨hlone, hexecute⟩ := awaitsInput_eq_true_iff.mp (hw hkeyword)
      exact .inr ⟨hlone, hexecute⟩

theorem KeepsKeywords.of_append {front back : List String} (h : KeepsKeywords (front ++ back)) :
    KeepsKeywords front := by
  intro i w hw hkeyword
  have hi := (List.getElem?_eq_some_iff.mp hw).1
  rcases h i w (by rw [List.getElem?_append_left hi]; exact hw) hkeyword with hzero | ⟨hone, hhead⟩
  · exact .inl hzero
  · refine .inr ⟨hone, ?_⟩
    obtain ⟨head, rest, rfl⟩ := List.exists_cons_of_length_pos (Nat.zero_lt_of_lt hi)
    exact hhead

/-! ## Cuts -/

/-- Whether groups of words are pieces of a statement with these words. -/
structure IsCut (ws : List String) (groups : List (List String)) : Prop where
  /-- No word is lost, added or moved. -/
  flatten : groups.flatten = ws
  ne_nil : ∀ g ∈ groups, g ≠ []
  keyword : ∀ g ∈ groups.tail, (leading? g).isSome = true
  inside : ∀ g ∈ groups, KeepsKeywords g
  /-- EXECUTE is without its input only at the end. -/
  complete : ∀ g ∈ groups.dropLast, g.length = 1 → leading? g ≠ some .execute

theorem isCut_singleton {g : List String} (hne : g ≠ []) (h : KeepsKeywords g) : IsCut g [g] where
  flatten := List.flatten_singleton
  ne_nil := List.forall_mem_singleton.mpr hne
  keyword _ hmem := absurd hmem List.not_mem_nil
  inside := List.forall_mem_singleton.mpr h
  complete _ hmem := absurd hmem List.not_mem_nil

/-- A cut goes on behind a piece that does not wait for its input, with a keyword. -/
theorem isCut_cons_iff {g next : List String} {groups : List (List String)} {ws : List String} :
    IsCut (g ++ ws) (g :: next :: groups) ↔
      (g ≠ [] ∧ KeepsKeywords g ∧ awaitsInput g = false) ∧
      (leading? next).isSome = true ∧ IsCut ws (next :: groups) := by
  have hcomplete : awaitsInput g = false ↔ (g.length = 1 → leading? g ≠ some .execute) := by
    rw [← Bool.not_eq_true, awaitsInput_eq_true_iff, not_and]
  constructor
  · intro h
    have hkeyword := List.forall_mem_cons.mp h.keyword
    have hdrop := List.forall_mem_cons.mp h.complete
    refine ⟨⟨h.ne_nil g List.mem_cons_self, h.inside g List.mem_cons_self, hcomplete.mpr hdrop.1⟩,
      hkeyword.1, List.append_cancel_left h.flatten, fun d hd => ?_, hkeyword.2, fun d hd => ?_,
      hdrop.2⟩
    · exact h.ne_nil d (List.mem_cons_of_mem g hd)
    · exact h.inside d (List.mem_cons_of_mem g hd)
  · rintro ⟨⟨hne, hkeeps, hawaits⟩, hnext, h⟩
    refine ⟨?_, List.forall_mem_cons.mpr ⟨hne, h.ne_nil⟩,
      List.forall_mem_cons.mpr ⟨hnext, h.keyword⟩, List.forall_mem_cons.mpr ⟨hkeeps, h.inside⟩,
      List.forall_mem_cons.mpr ⟨hcomplete.mp hawaits, h.complete⟩⟩
    rw [List.flatten_cons, h.flatten]

/-- A piece is a cut of its own words. -/
theorem IsCut.of_mem {ws g : List String} {groups : List (List String)} (h : IsCut ws groups)
    (hg : g ∈ groups) : IsCut g [g] :=
  isCut_singleton (h.ne_nil g hg) (h.inside g hg)

/-! ## Growing pieces -/

theorem growPiece_front (piece ws : List String) :
    ∃ taken groups, growPiece piece ws = (piece ++ taken) :: groups := by
  induction ws generalizing piece with
  | nil => exact ⟨[], [], by rw [growPiece, List.append_nil]⟩
  | cons w ws ih =>
    rw [growPiece]
    split
    · exact ⟨[], _, by rw [List.append_nil]⟩
    · obtain ⟨taken, groups, hgrow⟩ := ih (piece ++ [w])
      exact ⟨w :: taken, groups, by rw [hgrow, List.append_assoc, List.singleton_append]⟩

theorem isCut_growPiece {piece : List String} (hne : piece ≠ []) (h : KeepsKeywords piece)
    (ws : List String) : IsCut (piece ++ ws) (growPiece piece ws) := by
  induction ws generalizing piece with
  | nil =>
    rw [List.append_nil]
    exact isCut_singleton hne h
  | cons w ws ih =>
    rw [growPiece]
    split
    · next hcut =>
      obtain ⟨hw, hawaits⟩ := (Bool.and_eq_true _ _).mp hcut
      have hrest := ih (List.cons_ne_nil w []) (keepsKeywords_singleton w)
      obtain ⟨taken, groups, hgrow⟩ := growPiece_front [w] ws
      rw [hgrow] at hrest ⊢
      exact isCut_cons_iff.mpr ⟨⟨hne, h, Bool.not_eq_true' _ |>.mp hawaits⟩, hw, hrest⟩
    · next hcut =>
      rw [List.append_cons]
      refine ih (List.append_ne_nil_of_right_ne_nil _ (List.cons_ne_nil w []))
        ((keepsKeywords_concat hne w).mpr ⟨h, fun hw => ?_⟩)
      cases hawaits : awaitsInput piece with
      | true => rfl
      | false =>
        rw [hw, hawaits] at hcut
        exact absurd rfl hcut

-- Whether a cut goes on with the next word or starts a piece with it is settled by that word.
theorem growPiece_of_isCut {piece taken : List String} {groups : List (List String)}
    {ws : List String} (hne : piece ≠ []) (h : IsCut (piece ++ ws) ((piece ++ taken) :: groups)) :
    growPiece piece ws = (piece ++ taken) :: groups := by
  have hwords : taken ++ groups.flatten = ws := by
    have hflatten := h.flatten
    rw [List.flatten_cons, List.append_assoc] at hflatten
    exact List.append_cancel_left hflatten
  induction ws generalizing piece taken groups with
  | nil =>
    obtain ⟨rfl, hnone⟩ := List.append_eq_nil_iff.mp hwords
    cases groups with
    | nil => rw [growPiece, List.append_nil]
    | cons g groups =>
      have hg := List.flatten_eq_nil_iff.mp hnone g List.mem_cons_self
      exact absurd hg (h.ne_nil g (List.mem_cons_of_mem _ List.mem_cons_self))
  | cons w ws ih =>
    cases taken with
    | nil =>
      rw [List.append_nil] at h ⊢
      cases groups with
      | nil => cases hwords
      | cons next groups =>
        obtain ⟨⟨-, -, hawaits⟩, hkeyword, hrest⟩ := isCut_cons_iff.mp h
        obtain ⟨head, arguments, rfl⟩ :=
          List.exists_cons_of_ne_nil (hrest.ne_nil next List.mem_cons_self)
        obtain ⟨rfl, rfl⟩ := List.cons.inj hwords
        have hhead : isKeyword head = true := hkeyword
        have hgrow : growPiece [head] (arguments ++ groups.flatten) =
            (head :: arguments) :: groups := ih (List.cons_ne_nil head []) hrest rfl
        rw [growPiece, hhead, hawaits]
        exact congrArg (piece :: ·) hgrow
    | cons v taken =>
      obtain ⟨rfl, hrest⟩ := List.cons.inj hwords
      rw [List.append_cons piece v taken] at h ⊢
      have hkeeps := (h.inside _ List.mem_cons_self).of_append
      have hw := ((keepsKeywords_concat hne v).mp hkeeps).2
      have hcut : ¬ (isKeyword v && !awaitsInput piece) = true := by
        intro hboth
        obtain ⟨hkeyword, hawaits⟩ := (Bool.and_eq_true _ _).mp hboth
        rw [hw hkeyword] at hawaits
        cases hawaits
      rw [List.append_cons piece v ws] at h
      rw [growPiece, if_neg hcut]
      exact ih (List.append_ne_nil_of_left_ne_nil hne _) h hrest

/-- The pieces of some words are the one cut that there is of them. -/
theorem eq_pieces_iff {ws : List String} {groups : List (List String)} :
    groups = pieces ws ↔ IsCut ws groups := by
  cases ws with
  | nil =>
    constructor
    · rintro rfl
      exact ⟨rfl, fun _ h => absurd h List.not_mem_nil, fun _ h => absurd h List.not_mem_nil,
        fun _ h => absurd h List.not_mem_nil, fun _ h => absurd h List.not_mem_nil⟩
    · intro h
      cases groups with
      | nil => rfl
      | cons g groups =>
        have hg := List.flatten_eq_nil_iff.mp h.flatten g List.mem_cons_self
        exact absurd hg (h.ne_nil g List.mem_cons_self)
  | cons w ws =>
    constructor
    · rintro rfl
      exact isCut_growPiece (List.cons_ne_nil w []) (keepsKeywords_singleton w) ws
    · intro h
      cases groups with
      | nil => cases h.flatten
      | cons g groups =>
        obtain ⟨head, taken, rfl⟩ := List.exists_cons_of_ne_nil (h.ne_nil g List.mem_cons_self)
        obtain ⟨rfl, -⟩ := List.cons.inj h.flatten
        exact (growPiece_of_isCut (List.cons_ne_nil head []) h).symm

/-! ## Statements -/

theorem splitStatement_congr {text text' : String} (h : words text = words text') :
    splitStatement text = splitStatement text' := by
  unfold splitStatement
  rw [h]

theorem isWord_of_mem_pieces {text : String} {g : List String} (hg : g ∈ pieces (words text)) :
    ∀ w ∈ g, IsWord w := by
  intro w hw
  have hmem : w ∈ (pieces (words text)).flatten := List.mem_flatten.mpr ⟨g, hg, hw⟩
  rw [pieces_flatten] at hmem
  exact isWord_of_mem hmem

theorem map_words_splitStatement (text : String) :
    (splitStatement text).map words = pieces (words text) := by
  have hwords : ∀ g ∈ pieces (words text), (words ∘ unwords) g = id g := fun g hg =>
    wordsIn_unwords (isWord_of_mem_pieces hg)
  rw [splitStatement, List.map_map, List.map_congr_left hwords, List.map_id]

theorem unwords_words_of_mem {text piece : String} (h : piece ∈ splitStatement text) :
    unwords (words piece) = piece := by
  obtain ⟨g, hg, rfl⟩ := List.mem_map.mp h
  exact congrArg unwords (wordsIn_unwords (isWord_of_mem_pieces hg))

-- Texts that are written in a row, with blanks between them, keep their words.
theorem words_unwords_texts (texts : List String) :
    words (unwords texts) = texts.flatMap words := by
  induction texts with
  | nil => rfl
  | cons text texts ih =>
    by_cases hne : texts = []
    · rw [hne, List.flatMap_singleton]
      exact congrArg wordsIn (toList_unwords_singleton text)
    · rw [List.flatMap_cons, ← ih]
      show wordsIn (unwords (text :: texts)).toList = _
      rw [toList_unwords_cons text hne, wordsIn_append_blank rfl]
      rfl

/-- The pieces of a text are the one list of texts with these properties: their words are those of
the text, each of them is its words with single spaces between them, and their words are cut as they
have to be. Therefore a piece is cut no further, and the pieces in a row are cut into themselves. -/
theorem splitStatement_unique (text : String) :
    (∀ texts, texts = splitStatement text ↔
      (∀ piece ∈ texts, unwords (words piece) = piece) ∧
      IsCut (words text) (texts.map words)) ∧
    (∀ piece ∈ splitStatement text, splitStatement piece = [piece]) ∧
    splitStatement (unwords (splitStatement text)) = splitStatement text := by
  have hcut : IsCut (words text) ((splitStatement text).map words) :=
    eq_pieces_iff.mp (map_words_splitStatement text)
  refine ⟨fun texts => ⟨?_, ?_⟩, fun piece hpiece => ?_, ?_⟩
  · rintro rfl
    exact ⟨fun piece => unwords_words_of_mem, hcut⟩
  · rintro ⟨hwritten, htexts⟩
    rw [splitStatement, ← eq_pieces_iff.mpr htexts, List.map_map]
    exact ((List.map_congr_left hwritten).trans (List.map_id texts)).symm
  · have hone := hcut.of_mem (List.mem_map_of_mem hpiece)
    rw [splitStatement, ← eq_pieces_iff.mpr hone, List.map_singleton, unwords_words_of_mem hpiece]
  · apply splitStatement_congr
    rw [words_unwords_texts, List.flatMap_def, hcut.flatten]

/-- The premises hold of a text that begins with no keyword, in which EXECUTE is the input of
EXECUTE and stands without an input at the end. -/
theorem splitStatement_greedy :
    ["foo q0", "EXECUTE execute 01", "Print", "EXECUTE"] =
        splitStatement "foo q0 EXECUTE  execute 01 Print\tEXECUTE" ∧
      splitStatement "EXECUTE execute 01" = ["EXECUTE execute 01"] := by
  obtain ⟨hunique, hpiece, -⟩ :=
    splitStatement_unique "foo q0 EXECUTE  execute 01 Print\tEXECUTE"
  have htexts := (hunique ["foo q0", "EXECUTE execute 01", "Print", "EXECUTE"]).mpr
    ⟨by decide +kernel,
      { flatten := by decide +kernel
        ne_nil := by decide +kernel
        keyword := by decide +kernel
        inside := by decide +kernel
        complete := by decide +kernel }⟩
  refine ⟨htexts, hpiece _ ?_⟩
  rw [← htexts]
  exact List.mem_cons_of_mem _ List.mem_cons_self

end Statewright.Language
