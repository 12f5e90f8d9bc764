import Statewright.Proofs.Reader

/-!
# Joined lines

A second reader, which forgets nothing: it keeps every line since the input last ended, apart from
blank ones and comments, joins them to one text, and cuts the text at its semicolons. The reader of
statements, which keeps only the words that wait, finds what this one finds, call by call.
-/

open Statewright.Text

namespace Statewright

/-! ## Feeding a reader -/

namespace Reader

/-- One call of a reader. -/
inductive Feed where
  | line (text : String)
  | finish
  deriving DecidableEq, Repr

def take (r : Reader) : Feed → Reader × List Finding
  | .line text => r.push text
  | .finish => r.finish

/-- The number of lines among some calls. -/
def lineCount (feeds : List Feed) : Nat :=
  feeds.countP (· ≠ .finish)

/-- Feeds a reader call by call, and gives what it found in each call. -/
def takeAll (r : Reader) : List Feed → Reader × List (List Finding)
  | [] => (r, [])
  | feed :: feeds =>
    let (next, findings) := r.take feed
    let (last, rest) := next.takeAll feeds
    (last, findings :: rest)

end Reader

/-! ## Keeping all lines -/

/-- The number of lines so far, and the lines that are kept, by their number and text. -/
structure Joined where
  line : Nat
  kept : List (Nat × List Char)
  deriving DecidableEq, Repr

namespace Joined

def start : Joined := ⟨0, []⟩

def text (d : Joined) : List Char :=
  [' '].intercalate (d.kept.map Prod.snd)

/-- What stands between the semicolons. -/
def cuts (d : Joined) : List (List Char) :=
  d.text.splitOnP (· = ';')

/-- What stands after the last semicolon. -/
def tail (d : Joined) : List Char :=
  d.cuts.getLastD []

/-- The number of the line on which each semicolon is. -/
def closings (d : Joined) : List Nat :=
  d.kept.flatMap (fun (n, cs) => List.replicate (cs.countP (· = ';')) n)

/-- The statements that semicolons end: what is in front of each, unless it is blank. -/
def statements (d : Joined) : List Statement :=
  ((d.cuts.dropLast.zip d.closings).filter (fun (cut, _) => ¬ Blanks cut)).map
    (fun (cut, n) => ⟨unwords (wordsIn cut), n, true⟩)

/-- Whether a line adds nothing: it is blank, or begins with a semicolon while nothing waits. -/
def Skips (d : Joined) (cs : List Char) : Prop :=
  Blanks cs ∨ (Blanks d.tail ∧ (trimLeft cs).head? = some ';')

instance (d : Joined) (cs : List Char) : Decidable (d.Skips cs) :=
  inferInstanceAs (Decidable (Blanks cs ∨ (Blanks d.tail ∧ (trimLeft cs).head? = some ';')))

def push (d : Joined) (text : String) : Joined :=
  if d.Skips text.toList then ⟨d.line + 1, d.kept⟩
  else ⟨d.line + 1, d.kept ++ [(d.line + 1, text.toList)]⟩

def next (d : Joined) : Reader.Feed → Joined
  | .line text => d.push text
  | .finish => ⟨d.line, []⟩

def nextAll (d : Joined) (feeds : List Reader.Feed) : Joined :=
  feeds.foldl next d

/-- What is to be found in one call: the statements that the line adds, or the last statement. -/
def answer (d : Joined) : Reader.Feed → List Finding
  | .line text =>
    ((d.push text).statements.drop d.statements.length).map .statement ++
      if d.Skips text.toList ∨ ';' ∈ text.toList then []
      else [.remark (d.line + 1) .semicolonExpected]
  | .finish =>
    if Blanks d.tail then []
    else [.remark d.line .semicolonMissing,
      .statement ⟨unwords (wordsIn d.tail), d.line, false⟩]

def answers (d : Joined) : List Reader.Feed → List (List Finding)
  | [] => []
  | feed :: feeds => d.answer feed :: (d.next feed).answers feeds

/-! ## Many calls -/

theorem nextAll_line (d : Joined) (feeds : List Reader.Feed) :
    (d.nextAll feeds).line = d.line + Reader.lineCount feeds := by
  induction feeds generalizing d with
  | nil => rfl
  | cons feed feeds ih =>
    show ((d.next feed).nextAll feeds).line = _
    rw [ih, Reader.lineCount, Reader.lineCount, List.countP_cons]
    cases feed with
    | line text =>
      have hline : (d.push text).line = d.line + 1 := by
        unfold push
        split
        · rfl
        · rfl
      show (d.push text).line + _ = d.line + (_ + 1)
      rw [hline]
      omega
    | finish => rfl

-- The end of the input forgets the lines that were kept.
theorem kept_of_finish {feeds : List Reader.Feed} (h : feeds = [] ∨ feeds.getLast? = some .finish) :
    (start.nextAll feeds).kept = [] := by
  rcases h with rfl | hlast
  · rfl
  · obtain ⟨front, rfl⟩ := List.getLast?_eq_some_iff.mp hlast
    rw [nextAll, List.foldl_append]
    rfl

/-! ## Words of the joined text -/

def groups (d : Joined) : List (List String) :=
  between ';' d.text

theorem groups_ne_nil (d : Joined) : d.groups ≠ [] :=
  between_ne_nil ';' d.text

theorem groups_eq (d : Joined) : d.groups = d.cuts.map wordsIn :=
  rfl

theorem wordsIn_tail (d : Joined) : wordsIn d.tail = d.groups.getLastD [] := by
  rw [groups_eq, tail, ← wordsIn_nil, List.getLastD_map]

/-- The statements made of groups of words, by the numbers of the lines that close them. None is
made of no words. -/
def numbered (gs : List (List String)) (ns : List Nat) : List Statement :=
  ((gs.zip ns).filter (fun (g, _) => g ≠ [])).map (fun (g, n) => ⟨unwords g, n, true⟩)

theorem numbered_append {gs : List (List String)} {ns : List Nat} (h : gs.length = ns.length)
    (gs' : List (List String)) (ns' : List Nat) :
    numbered (gs ++ gs') (ns ++ ns') = numbered gs ns ++ numbered gs' ns' := by
  rw [numbered, List.zip_append h, List.filter_append, List.map_append]
  rfl

-- All groups that one line closes.
theorem numbered_replicate (gs : List (List String)) (n : Nat) :
    numbered gs (List.replicate gs.length n) =
      (gs.filter (· ≠ [])).map (fun g => ⟨unwords g, n, true⟩) := by
  have hzip : gs.zip (List.replicate gs.length n) = gs.map (fun g => (g, n)) := by
    induction gs with
    | nil => rfl
    | cons g gs ih =>
      rw [List.length_cons, List.replicate_succ, List.zip_cons_cons, ih, List.map_cons]
  rw [numbered, hzip, List.filter_map, List.map_map]
  rfl

-- No group but an empty one is passed over, and none loses a word.
theorem words_numbered {gs : List (List String)} {ns : List Nat} (h : gs.length = ns.length)
    (hwords : ∀ g ∈ gs, words (unwords g) = g) :
    (numbered gs ns).map (fun st => words st.text) = gs.filter (· ≠ []) := by
  induction gs generalizing ns with
  | nil => rfl
  | cons g gs ih =>
    cases ns with
    | nil => cases h
    | cons n ns =>
      have hrest := ih (Nat.succ.inj h) (fun d hd => hwords d (List.mem_cons_of_mem g hd))
      have hone : numbered (g :: gs) (n :: ns) = numbered [g] [n] ++ numbered gs ns :=
        numbered_append (show [g].length = [n].length from rfl) gs ns
      rw [hone, List.map_append, hrest]
      cases g with
      | nil => rfl
      | cons w ws => exact congrArg (· :: _) (hwords _ List.mem_cons_self)

theorem statements_eq (d : Joined) : d.statements = numbered d.groups.dropLast d.closings := by
  have hblank : ((fun x : List String × Nat => decide (x.1 ≠ [])) ∘ Prod.map wordsIn id) =
      (fun x : List Char × Nat => decide (¬ Blanks x.1)) := by
    funext x
    simp only [Function.comp_apply, Prod.map_fst, ne_eq, wordsIn_eq_nil_iff]
  rw [numbered, groups_eq, ← List.map_dropLast, List.zip_map_left, List.filter_map, hblank,
    List.map_map]
  rfl

theorem groups_concat (d : Joined) (line : Nat) (entry : Nat × List Char) :
    groups ⟨line, d.kept ++ [entry]⟩ = splice d.groups (between ';' entry.2) := by
  rw [groups, groups, text, text, List.map_append, List.map_singleton, intercalate_concat]
  by_cases hkept : d.kept = []
  · rw [hkept, List.map_nil, if_pos rfl]
    exact (splice_nil_left (between_ne_nil ';' entry.2)).symm
  · rw [if_neg (fun hmap => hkept (List.map_eq_nil_iff.mp hmap)), ← List.append_cons]
    exact between_append_blank rfl (by decide) _ _

-- As many groups are closed as there are semicolons.
theorem length_dropLast_groups (d : Joined) : d.groups.dropLast.length = d.closings.length := by
  have hclosings : d.closings.length = d.text.countP (· = ';') := by
    rw [closings, text, countP_intercalate rfl, List.countP_flatten, List.length_flatMap,
      List.map_map]
    apply congrArg List.sum
    apply List.map_congr_left
    intro entry _
    exact List.length_replicate
  have hgroups : d.groups.length = d.text.countP (· = ';') + 1 := by
    rw [groups_eq, List.length_map, cuts, length_splitOnP]
  rw [List.length_dropLast, hgroups, hclosings, Nat.add_sub_cancel]

-- What a kept line adds: the groups that its semicolons close, all of them on that line.
theorem statements_concat (d : Joined) (line n : Nat) (cs : List Char) :
    statements ⟨line, d.kept ++ [(n, cs)]⟩ = d.statements ++
      ((splice [wordsIn d.tail] (between ';' cs)).dropLast.filter (· ≠ [])).map
        (fun g => ⟨unwords g, n, true⟩) := by
  have hne : splice [wordsIn d.tail] (between ';' cs) ≠ [] :=
    splice_ne_nil _ (between_ne_nil ';' cs)
  have hclosings : closings ⟨line, d.kept ++ [(n, cs)]⟩ =
      d.closings ++ List.replicate (cs.countP (· = ';')) n := by
    rw [closings, closings, List.flatMap_append, List.flatMap_singleton]
  have hlength : (splice [wordsIn d.tail] (between ';' cs)).dropLast.length =
      cs.countP (· = ';') := by
    rw [List.length_dropLast, length_splice_singleton, between, List.length_map, length_splitOnP,
      Nat.add_sub_cancel]
  rw [statements_eq, groups_concat, splice_eq_append d.groups_ne_nil, ← wordsIn_tail, hclosings,
    List.dropLast_append_of_ne_nil hne, numbered_append d.length_dropLast_groups, ← statements_eq,
    ← hlength, numbered_replicate]

theorem statements_push (d : Joined) (text : String) :
    d.statements ++ statementsOf (d.answer (.line text)) = (d.push text).statements := by
  have hadded : d.statements ++ (d.push text).statements.drop d.statements.length =
      (d.push text).statements := by
    unfold push
    split
    · show d.statements ++ d.statements.drop d.statements.length = d.statements
      rw [List.drop_length, List.append_nil]
    · rw [statements_concat, List.drop_left]
  have hfound : statementsOf (d.answer (.line text)) =
      (d.push text).statements.drop d.statements.length := by
    rw [answer, statementsOf_append, statementsOf_map, List.map_id']
    split
    · exact List.append_nil _
    · exact List.append_nil _
  rw [hfound, hadded]

theorem wordsIn_tail_concat (d : Joined) (line n : Nat) (cs : List Char) :
    wordsIn (tail ⟨line, d.kept ++ [(n, cs)]⟩) =
      (splice [wordsIn d.tail] (between ';' cs)).getLastD [] := by
  rw [wordsIn_tail, groups_concat, splice_eq_append d.groups_ne_nil, ← wordsIn_tail,
    getLastD_append _ (splice_ne_nil _ (between_ne_nil ';' cs))]

/-! ## No word is lost -/

theorem flatten_groups (line : Nat) (kept : List (Nat × List Char)) :
    (groups ⟨line, kept⟩).flatten = kept.flatMap (fun (_, cs) => (between ';' cs).flatten) := by
  induction kept with
  | nil => rfl
  | cons entry kept ih =>
    rw [List.flatMap_cons, ← ih, groups, groups, text, text, List.map_cons]
    by_cases hkept : kept.map Prod.snd = []
    · rw [hkept, List.intercalate_singleton]
      exact (List.append_nil _).symm
    · rw [List.intercalate_cons_of_ne_nil hkept, ← List.append_cons,
        between_append_blank rfl (by decide), flatten_splice _ (between_ne_nil ';' _)]

-- The words of a statement are those in front of its semicolon.
theorem words_statements (d : Joined) :
    d.statements.map (fun st => words st.text) = d.groups.dropLast.filter (· ≠ []) := by
  have hwords : ∀ g ∈ d.groups, words (unwords g) = g := by
    intro g hg
    obtain ⟨cut, -, rfl⟩ := List.mem_map.mp hg
    exact wordsIn_unwords (fun w hw => isWord_of_mem hw)
  rw [statements_eq]
  exact words_numbered d.length_dropLast_groups
    (fun g hg => hwords g (List.dropLast_subset _ hg))

theorem words_kept (d : Joined) :
    d.statements.flatMap (fun st => words st.text) ++ wordsIn d.tail =
      d.kept.flatMap (fun (_, cs) => (between ';' cs).flatten) := by
  have hlast := splice_eq_append d.groups_ne_nil [[]]
  rw [splice_nil_right d.groups_ne_nil, splice_singleton, List.append_nil, ← wordsIn_tail] at hlast
  have hgroups : d.groups.flatten = d.kept.flatMap (fun (_, cs) => (between ';' cs).flatten) :=
    flatten_groups d.line d.kept
  rw [List.flatMap_def, words_statements, List.flatten_filter_ne_nil, ← hgroups, hlast,
    List.flatten_append, ← hlast, List.flatten_singleton]

end Joined

/-! ## What both readers find -/

namespace Reader

/-- Whether a reader and a second one were fed the same. -/
structure Agrees (r : Reader) (d : Joined) : Prop where
  line : r.line = d.line
  pending : r.pending = wordsIn d.tail

namespace Agrees

variable {r : Reader} {d : Joined}

theorem isAccumulating_iff (h : r.Agrees d) : r.isAccumulating = true ↔ ¬ Blanks d.tail := by
  rw [isAccumulating, h.pending, Bool.not_eq_true', List.isEmpty_eq_false_iff, ne_eq,
    wordsIn_eq_nil_iff]

theorem skips_iff (h : r.Agrees d) (cs : List Char) : r.skips cs = true ↔ d.Skips cs := by
  have hwaits := h.isAccumulating_iff
  have hblank : trimLeft cs = [] ↔ Blanks cs := trimLeft_eq_nil_iff
  unfold skips Joined.Skips
  cases hcs : trimLeft cs with
  | nil => exact ⟨fun _ => .inl (hblank.mp hcs), fun _ => rfl⟩
  | cons c rest =>
    have hneither : ¬ Blanks cs := by
      rw [← hblank, hcs]
      exact List.cons_ne_nil c rest
    dsimp only
    rw [Bool.and_eq_true, decide_eq_true_eq, Bool.not_eq_true', ← Bool.not_eq_true, hwaits,
      Decidable.not_not, List.head?_cons, Option.some_inj, or_iff_right hneither]
    exact And.comm

theorem push (h : r.Agrees d) (text : String) :
    (r.push text).2 = d.answer (.line text) ∧ (r.push text).1.Agrees (d.push text) := by
  have hskips := h.skips_iff text.toList
  by_cases hskip : d.Skips text.toList
  · rw [push_of_skips (hskips.mpr hskip), Joined.answer, Joined.push, if_pos hskip,
      if_pos (.inl hskip)]
    refine ⟨?_, congrArg (· + 1) h.line, h.pending⟩
    show [] = (d.statements.drop d.statements.length).map Finding.statement ++ []
    rw [List.drop_length]
    rfl
  · have hgroups : r.groups text.toList = splice [wordsIn d.tail] (between ';' text.toList) := by
      rw [Reader.groups, h.pending]
    have hremark : (r.groups text.toList).length = 1 ↔ ¬ ';' ∈ text.toList := by
      rw [length_groups, Nat.add_eq_right, List.countP_eq_zero]
      constructor
      · intro hfree hmem
        exact hfree ';' hmem (decide_eq_true rfl)
      · intro hfree c hc heq
        rw [of_decide_eq_true heq] at hc
        exact hfree hc
    rw [push_of_not_skips (Bool.eq_false_iff.mpr (fun hr => hskip (hskips.mp hr))), flatMap_close,
      Joined.answer, Joined.push, if_neg hskip, Joined.statements_concat, List.drop_left,
      List.map_map, ← hgroups, h.line]
    refine ⟨?_, rfl, ?_⟩
    · by_cases hsemicolon : ';' ∈ text.toList
      · rw [if_neg (fun hone => hremark.mp hone hsemicolon), if_pos (.inr hsemicolon)]
        rfl
      · rw [if_pos (hremark.mpr hsemicolon), if_neg (not_or.mpr ⟨hskip, hsemicolon⟩)]
        rfl
    · rw [Joined.wordsIn_tail_concat, ← hgroups]

theorem finish (h : r.Agrees d) :
    r.finish.2 = d.answer .finish ∧ r.finish.1.Agrees (d.next .finish) := by
  have hnone : wordsIn (Joined.tail ⟨d.line, []⟩) = [] := rfl
  have hwaits := h.isAccumulating_iff
  unfold Reader.finish Joined.answer
  by_cases hblank : Blanks d.tail
  · rw [if_neg (fun hr => hwaits.mp hr hblank), if_pos hblank]
    exact ⟨rfl, h.line, hnone.symm⟩
  · have hclose : close (wordsIn d.tail) d.line false =
        [.statement ⟨unwords (wordsIn d.tail), d.line, false⟩] := by
      cases hwords : wordsIn d.tail with
      | nil => exact absurd (wordsIn_eq_nil_iff.mp hwords) hblank
      | cons w ws => rfl
    rw [if_pos (hwaits.mpr hblank), if_neg hblank, h.pending, h.line, hclose]
    exact ⟨rfl, rfl, hnone.symm⟩

theorem take (h : r.Agrees d) (feed : Feed) :
    (r.take feed).2 = d.answer feed ∧ (r.take feed).1.Agrees (d.next feed) := by
  cases feed with
  | line text => exact h.push text
  | finish => exact h.finish

theorem takeAll (h : r.Agrees d) (feeds : List Feed) :
    (r.takeAll feeds).2 = d.answers feeds ∧ (r.takeAll feeds).1.Agrees (d.nextAll feeds) := by
  induction feeds generalizing r d with
  | nil => exact ⟨rfl, h⟩
  | cons feed feeds ih =>
    obtain ⟨hfound, hnext⟩ := h.take feed
    obtain ⟨hrest, hlast⟩ := ih hnext
    refine ⟨?_, hlast⟩
    show (r.take feed).2 :: ((r.take feed).1.takeAll feeds).2 = _ :: _
    rw [hfound, hrest]

-- Over many lines: what is found is what the joined lines hold beyond those before.
theorem pushAll (h : r.Agrees d) (lines : List String) :
    d.statements ++ statementsOf (r.pushAll lines).2 =
      (d.nextAll (lines.map .line)).statements ∧
    (r.pushAll lines).1.Agrees (d.nextAll (lines.map .line)) := by
  induction lines generalizing r d with
  | nil => exact ⟨List.append_nil _, h⟩
  | cons line lines ih =>
    obtain ⟨hfound, hnext⟩ := h.push line
    obtain ⟨hrest, hlast⟩ := ih hnext
    refine ⟨?_, hlast⟩
    show d.statements ++ statementsOf ((r.push line).2 ++ ((r.push line).1.pushAll lines).2) =
      ((d.push line).nextAll (lines.map .line)).statements
    rw [statementsOf_append, hfound, ← List.append_assoc, d.statements_push, hrest]

end Agrees

/-- Whatever lines and ends a new reader is fed, it finds in each call what is to be found in the
joined lines: what waits are the words of what stands after their last semicolon, the statements
since the input last ended are what stands in front of the semicolons, and no word of a line that is
kept is lost. -/
theorem takeAll_start (feeds : List Feed) :
    let r := (start.takeAll feeds).1
    let d := Joined.start.nextAll feeds
    (start.takeAll feeds).2 = Joined.start.answers feeds ∧
    r.line = d.line ∧ d.line = lineCount feeds ∧
    r.pending = wordsIn d.tail ∧
    (r.isAccumulating = true ↔ ¬ Blanks d.tail) ∧
    d.statements.flatMap (fun st => words st.text) ++ wordsIn d.tail =
      d.kept.flatMap (fun (_, cs) => (between ';' cs).flatten) ∧
    ((feeds = [] ∨ feeds.getLast? = some .finish) → ∀ lines,
      statementsOf (r.pushAll lines).2 = (d.nextAll (lines.map .line)).statements) := by
  intro r d
  have hstart : start.Agrees Joined.start := ⟨rfl, rfl⟩
  obtain ⟨hfound, hagrees⟩ := hstart.takeAll feeds
  have hcount : d.line = lineCount feeds :=
    (Joined.nextAll_line .start feeds).trans (Nat.zero_add _)
  refine ⟨hfound, hagrees.line, hcount, hagrees.pending, hagrees.isAccumulating_iff, d.words_kept,
    fun hends lines => ?_⟩
  have hkept : d.kept = [] := Joined.kept_of_finish hends
  have hnone : d.statements = [] := by
    rw [Joined.statements, Joined.closings, hkept, List.flatMap_nil, List.zip_nil_right]
    rfl
  have hlines := (hagrees.pushAll lines).1
  rw [hnone, List.nil_append] at hlines
  exact hlines

/-- The premise holds after an end: words run on over a blank line into one that begins with a
semicolon, a comment is none while words wait, and a blank cut is no statement. -/
theorem takeAll_mixed :
    statementsOf ((start.takeAll [.line "a;", .line "; b", .finish]).1.pushAll
      ["x", " ", "; y  z ; w", "; v", " ;; u "]).2 =
      [⟨"x", 5, true⟩, ⟨"y z", 5, true⟩, ⟨"w", 6, true⟩, ⟨"v", 7, true⟩] := by
  obtain ⟨-, -, -, -, -, -, hlines⟩ := takeAll_start [.line "a;", .line "; b", .finish]
  rw [hlines (.inr rfl)]
  decide +kernel

end Reader

end Statewright
