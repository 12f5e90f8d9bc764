import Statewright.Proofs.Commands
import Statewright.Proofs.Reader

/-!
# Commands in any layout

A command can be written in many ways: its keyword in any case, any blanks between its words, line
breaks among them, and none or some around commas and semicolons. Whatever the layout, the lines of
the text are read as the commands that were written.
-/

open Statewright.Text

namespace Statewright

/-! ## Layouts -/

/-- Words, each behind some blanks. -/
inductive Spaced : List String → List Char → Prop where
  | nil : Spaced [] []
  | cons {w : String} {ws : List String} {cs : List Char} (bs : List Char) (blanks : Blanks bs)
      (ne : bs ≠ []) (rest : Spaced ws cs) : Spaced (w :: ws) (bs ++ (w.toList ++ cs))

/-- The triples after the first one, each behind a comma, and perhaps a comma at the end. -/
inductive Listed : List Triple → List Char → Prop where
  | nil : Listed [] []
  | dangling (bs : List Char) (blanks : Blanks bs) : Listed [] (bs ++ [','])
  | cons {t : Triple} {ts : List Triple} {cs ds : List Char} (before after : List Char)
      (blanksBefore : Blanks before) (blanksAfter : Blanks after)
      (words : Spaced [t.source, t.target] cs) (rest : Listed ts ds) :
      Listed (t :: ts) (before ++ ',' :: (after ++ (t.symbol.toList ++ (cs ++ ds))))

/-- The text after the keyword of a command. -/
inductive LaidOut : Command → List Char → Prop where
  | plain {c : Command} {cs : List Char} (kind : c.keyword ≠ .transitions)
      (words : Spaced c.arguments cs) : LaidOut c cs
  | query : LaidOut (.transitions []) []
  | triples {t : Triple} {ts : List Triple} {cs ds : List Char}
      (first : Spaced (Command.tripleWords t) cs) (rest : Listed ts ds) :
      LaidOut (.transitions (t :: ts)) (cs ++ ds)

/-- Commands one after the other, each closed by a semicolon. -/
inductive Written : List Command → List Char → Prop where
  | nil (bs : List Char) (blanks : Blanks bs) : Written [] bs
  | cons {c : Command} {commands : List Command} {cs rest : List Char} (lead : List Char)
      (word : String) (trail : List Char) (lead_blanks : Blanks lead)
      (keyword : sameWord c.keyword.text word = true)
      (arguments : LaidOut c cs) (trail_blanks : Blanks trail) (next : Written commands rest) :
      Written (c :: commands) (lead ++ (word.toList ++ (cs ++ (trail ++ ';' :: rest))))

/-- Arguments that can be told apart when they are written. Only the input of EXECUTE may be a
keyword. -/
structure Command.Writable (c : Command) : Prop where
  word : ∀ w ∈ c.arguments, IsWord w
  no_semicolon : ∀ w ∈ c.arguments, ';' ∉ w.toList
  no_keyword : c.keyword ≠ .execute → ∀ w ∈ c.arguments, Keyword.ofWord? w = none
  no_comma : c.keyword = .transitions → ∀ w ∈ c.arguments, ',' ∉ w.toList

/-! ## Words of a layout -/

theorem Spaced.wordsIn_append {ws : List String} {cs : List Char} (h : Spaced ws cs)
    (hws : ∀ w ∈ ws, IsWord w) (s : List Char) : wordsIn (s ++ cs) = wordsIn s ++ ws := by
  induction h generalizing s with
  | nil => rw [List.append_nil, List.append_nil]
  | @cons w ws cs bs blanks ne _ ih =>
    rw [wordsIn_apart blanks ne, ih (fun v hv => hws v (List.mem_cons_of_mem w hv)),
      wordsIn_of_isWord (hws w List.mem_cons_self), List.singleton_append]

theorem Spaced.not_mem {ws : List String} {cs : List Char} (h : Spaced ws cs) {sep : Char}
    (hsep : isBlank sep = false) (hws : ∀ w ∈ ws, sep ∉ w.toList) : sep ∉ cs := by
  induction h with
  | nil => exact List.not_mem_nil
  | @cons w ws cs bs blanks _ _ ih =>
    have hrest := ih (fun v hv => hws v (List.mem_cons_of_mem w hv))
    intro hmem
    rcases List.mem_append.mp hmem with hmem | hmem
    · exact blanks.not_mem hsep hmem
    rcases List.mem_append.mp hmem with hmem | hmem
    · exact hws w List.mem_cons_self hmem
    · exact hrest hmem

theorem Listed.not_mem {ts : List Triple} {ds : List Char} (h : Listed ts ds) {sep : Char}
    (hsep : isBlank sep = false) (hcomma : sep ≠ ',')
    (hts : ∀ t ∈ ts, ∀ w ∈ Command.tripleWords t, sep ∉ w.toList) : sep ∉ ds := by
  induction h with
  | nil => exact List.not_mem_nil
  | dangling bs blanks =>
    intro hmem
    rcases List.mem_append.mp hmem with hmem | hmem
    · exact blanks.not_mem hsep hmem
    · exact hcomma (List.mem_singleton.mp hmem)
  | @cons t ts cs ds before after blanksBefore blanksAfter words _ ih =>
    have ht := hts t List.mem_cons_self
    have hcs := words.not_mem hsep (fun w hw => ht w (List.mem_cons_of_mem _ hw))
    have hds := ih (fun u hu => hts u (List.mem_cons_of_mem t hu))
    simp only [List.mem_append, List.mem_cons, not_or]
    exact ⟨blanksBefore.not_mem hsep, hcomma, blanksAfter.not_mem hsep,
      ht t.symbol List.mem_cons_self, hcs, hds⟩

-- Between the commas stand the words of the triples.
theorem Listed.between_append {ts : List Triple} {ds : List Char} (h : Listed ts ds)
    (hword : ∀ t ∈ ts, ∀ w ∈ Command.tripleWords t, IsWord w)
    (hcomma : ∀ t ∈ ts, ∀ w ∈ Command.tripleWords t, ',' ∉ w.toList) :
    ∃ dangling, (dangling = [] ∨ dangling = [[]]) ∧ ∀ s, ',' ∉ s →
      between ',' (s ++ ds) = wordsIn s :: (ts.map Command.tripleWords ++ dangling) := by
  induction h with
  | nil =>
    refine ⟨[], .inl rfl, fun s hs => ?_⟩
    rw [List.append_nil, between_of_not_mem hs]
    rfl
  | dangling bs blanks =>
    refine ⟨[[]], .inr rfl, fun s hs => ?_⟩
    have hfree : ',' ∉ s ++ bs := by
      rw [List.mem_append, not_or]
      exact ⟨hs, blanks.not_mem rfl⟩
    rw [← List.append_assoc, between_append_sep, between_of_not_mem hfree,
      wordsIn_append_blanks blanks, between_of_not_mem List.not_mem_nil, wordsIn_nil]
    rfl
  | @cons t ts cs ds before after blanksBefore blanksAfter words _ ih =>
    obtain ⟨dangling, hdangling, hrest⟩ := ih (fun u hu => hword u (List.mem_cons_of_mem t hu))
      (fun u hu => hcomma u (List.mem_cons_of_mem t hu))
    have hwords := hword t List.mem_cons_self
    have hcommas := hcomma t List.mem_cons_self
    refine ⟨dangling, hdangling, fun s hs => ?_⟩
    have hfree : ',' ∉ s ++ before := by
      rw [List.mem_append, not_or]
      exact ⟨hs, blanksBefore.not_mem rfl⟩
    have htriple : ',' ∉ after ++ (t.symbol.toList ++ cs) := by
      rw [List.mem_append, List.mem_append, not_or, not_or]
      exact ⟨blanksAfter.not_mem rfl, hcommas t.symbol List.mem_cons_self,
        words.not_mem rfl (fun w hw => hcommas w (List.mem_cons_of_mem _ hw))⟩
    have hsymbol := wordsIn_of_isWord (hwords t.symbol List.mem_cons_self)
    have hassoc : after ++ (t.symbol.toList ++ (cs ++ ds)) =
        after ++ (t.symbol.toList ++ cs) ++ ds := by
      rw [List.append_assoc, List.append_assoc]
    rw [← List.append_assoc, between_append_sep, between_of_not_mem hfree,
      wordsIn_append_blanks blanksBefore, hassoc, hrest _ htriple,
      wordsIn_blanks_append blanksAfter,
      words.wordsIn_append (fun w hw => hwords w (List.mem_cons_of_mem _ hw)), hsymbol]
    rfl

/-! ## One command -/

namespace LaidOut

variable {c : Command} {cs : List Char} {word : String}

-- The text after a keyword is set off from it.
theorem wordsIn_append (h : LaidOut c cs) (hc : c.Writable) (s : List Char) :
    wordsIn (s ++ cs) = wordsIn s ++ wordsIn cs := by
  have hspaced : ∀ {ws ds}, Spaced ws ds → ∀ es,
      wordsIn (s ++ (ds ++ es)) = wordsIn s ++ wordsIn (ds ++ es) ∨ ws = [] := by
    intro ws ds hds es
    cases hds with
    | nil => exact .inr rfl
    | cons bs blanks ne rest =>
      left
      rw [List.append_assoc, wordsIn_apart blanks ne, wordsIn_blanks_append blanks]
  cases h with
  | plain kind words =>
    rw [words.wordsIn_append hc.word, ← List.nil_append cs, words.wordsIn_append hc.word,
      wordsIn_nil, List.nil_append]
  | query => rw [List.append_nil, wordsIn_nil, List.append_nil]
  | triples first rest =>
    rcases hspaced first _ with heq | hnone
    · exact heq
    · cases hnone

theorem not_mem_semicolon (h : LaidOut c cs) (hc : c.Writable) : ';' ∉ cs := by
  cases h with
  | plain kind words => exact words.not_mem rfl hc.no_semicolon
  | query => exact List.not_mem_nil
  | @triples t ts cs ds first rest =>
    have hfree : ∀ u ∈ t :: ts, ∀ w ∈ Command.tripleWords u, ';' ∉ w.toList := fun u hu w hw =>
      hc.no_semicolon w (List.mem_flatMap.mpr ⟨u, hu, hw⟩)
    rw [List.mem_append, not_or]
    exact ⟨first.not_mem rfl (hfree t List.mem_cons_self),
      rest.not_mem rfl (by decide) (fun u hu => hfree u (List.mem_cons_of_mem t hu))⟩

-- Between the commas of the arguments stand the words of the triples.
theorem between_triples {t : Triple} {ts : List Triple} {ds : List Char}
    (first : Spaced (Command.tripleWords t) cs) (rest : Listed ts ds)
    (hc : (Command.transitions (t :: ts)).Writable) :
    ∃ dangling, (dangling = [] ∨ dangling = [[]]) ∧
      between ',' (cs ++ ds) = (t :: ts).map Command.tripleWords ++ dangling := by
  have hmem : ∀ {u w}, u ∈ t :: ts → w ∈ Command.tripleWords u →
      w ∈ (Command.transitions (t :: ts)).arguments := fun hu hw =>
    List.mem_flatMap.mpr ⟨_, hu, hw⟩
  obtain ⟨dangling, hdangling, hrest⟩ := rest.between_append
    (fun u hu w hw => hc.word w (hmem (List.mem_cons_of_mem t hu) hw))
    (fun u hu w hw => hc.no_comma rfl w (hmem (List.mem_cons_of_mem t hu) hw))
  have hfree : ',' ∉ cs :=
    first.not_mem rfl (fun w hw => hc.no_comma rfl w (hmem List.mem_cons_self hw))
  have hwords : wordsIn cs = Command.tripleWords t := by
    rw [← List.nil_append cs,
      first.wordsIn_append (fun w hw => hc.word w (hmem List.mem_cons_self hw))]
    rfl
  refine ⟨dangling, hdangling, ?_⟩
  rw [hrest cs hfree, hwords]
  rfl

-- A word with a comma is no keyword, and any other word is an argument.
theorem no_keyword_of_between {triples : List Triple} {dangling : List (List String)}
    (hdangling : dangling = [] ∨ dangling = [[]])
    (hbetween : between ',' cs = triples.map Command.tripleWords ++ dangling)
    (hc : (Command.transitions triples).Writable) :
    ∀ w ∈ wordsIn cs, Keyword.ofWord? w = none := by
  intro w hw
  by_cases hcomma : ',' ∈ w.toList
  · exact Keyword.ofWord?_of_comma hcomma
  · apply hc.no_keyword (fun heq => by cases heq)
    -- The word has no comma, so it stands in one of the groups as it is.
    have hself : w ∈ (between ',' w.toList).flatten := by
      rw [between_of_not_mem hcomma, wordsIn_of_isWord (isWord_of_mem hw)]
      exact List.mem_singleton.mpr rfl
    have hflat : w ∈ (between ',' cs).flatten := by
      rw [flatten_between rfl]
      exact List.mem_flatMap.mpr ⟨w, hw, hself⟩
    have hnone : dangling.flatten = [] := by
      rcases hdangling with rfl | rfl
      · rfl
      · rfl
    rw [hbetween, List.flatten_append, hnone, List.append_nil] at hflat
    exact hflat

/-- The words of a command, with single spaces between them, are one piece, and the piece is read as
the command. -/
theorem parse (h : LaidOut c cs) (hc : c.Writable)
    (hword : sameWord c.keyword.text word = true) :
    Language.splitStatement (unwords (word :: wordsIn cs)) = [unwords (word :: wordsIn cs)] ∧
    Command.parse (unwords (word :: wordsIn cs)) = .ok c := by
  have hkeyword := Keyword.ofWord?_of_sameWord hword
  have hargs : ∀ w ∈ wordsIn cs, IsWord w := fun w hw => isWord_of_mem hw
  have hall : ∀ w ∈ word :: wordsIn cs, IsWord w :=
    List.forall_mem_cons.mpr ⟨Keyword.isWord hword, hargs⟩
  have hwords : words (unwords (word :: wordsIn cs)) = word :: wordsIn cs := wordsIn_unwords hall
  -- No further keyword, no further piece: EXECUTE is the one command with a case of its own.
  have hsplit : (∀ w ∈ wordsIn cs, Keyword.ofWord? w = none) →
      Language.splitStatement (unwords (word :: wordsIn cs)) = [unwords (word :: wordsIn cs)] := by
    intro hfree
    apply Language.splitStatement_unwords hall
    apply Language.growPiece_of_not_keyword
    intro w hw
    rw [Language.isKeyword, hfree w hw]
    rfl
  cases h with
  | plain kind words =>
    have hcs : wordsIn cs = c.arguments := by
      rw [← List.nil_append cs, words.wordsIn_append hc.word]
      rfl
    rw [hcs] at hall hwords hsplit ⊢
    refine ⟨?_, Command.parse_of_words kind hkeyword hwords⟩
    by_cases hexecute : c.keyword = .execute
    · apply Language.splitStatement_unwords hall
      cases c with
      | execute input => exact Language.growPiece_input hkeyword input
      | _ => cases hexecute
    · exact hsplit (hc.no_keyword hexecute)
  | query =>
    refine ⟨hsplit (fun w hw => by cases hw), ?_⟩
    apply Command.parse_transitions hkeyword (Keyword.isWord hword) hargs
    exact Command.readTriples_of_no_words
      (Command.words_afterFirstWord (Keyword.isWord hword) hargs)
  | @triples t ts cs ds first rest =>
    obtain ⟨dangling, hdangling, hbetween⟩ := between_triples first rest hc
    refine ⟨hsplit (no_keyword_of_between hdangling hbetween hc), ?_⟩
    apply Command.parse_transitions hkeyword (Keyword.isWord hword) hargs
    apply Command.readTriples_of_between hdangling
    rw [← hbetween]
    exact between_congr rfl (Command.words_afterFirstWord (Keyword.isWord hword) hargs)

end LaidOut

/-! ## Many commands -/

namespace Written

variable {commands : List Command} {cs : List Char}

-- Between the semicolons stand the words of the commands, and none after the last.
theorem exists_groups (h : Written commands cs) (hw : ∀ c ∈ commands, c.Writable) :
    ∃ groups : List (List String), between ';' cs = groups ++ [[]] ∧
      (∀ g ∈ groups, g ≠ []) ∧
      ((groups.map unwords).flatMap Language.splitStatement).map Command.parse =
        commands.map .ok := by
  induction h with
  | nil bs blanks =>
    refine ⟨[], ?_, (fun g hg => by cases hg), rfl⟩
    rw [between_of_not_mem (blanks.not_mem rfl), wordsIn_blanks blanks]
    rfl
  | @cons c commands cs rest lead word trail lead_blanks keyword arguments trail_blanks _ ih =>
    obtain ⟨groups, hgroups, hne, hparse⟩ := ih (fun d hd => hw d (List.mem_cons_of_mem c hd))
    have hc := hw c List.mem_cons_self
    obtain ⟨hsplit, hread⟩ := arguments.parse hc keyword
    have hfree : ';' ∉ lead ++ (word.toList ++ (cs ++ trail)) := by
      simp only [List.mem_append, not_or]
      exact ⟨lead_blanks.not_mem rfl, fun hmem => (Keyword.not_separator keyword hmem).2.1 rfl,
        arguments.not_mem_semicolon hc, trail_blanks.not_mem rfl⟩
    have hassoc : lead ++ (word.toList ++ (cs ++ (trail ++ ';' :: rest))) =
        (lead ++ (word.toList ++ (cs ++ trail))) ++ ';' :: rest := by
      simp only [List.append_assoc]
    have hwords : wordsIn (lead ++ (word.toList ++ (cs ++ trail))) = word :: wordsIn cs := by
      rw [wordsIn_blanks_append lead_blanks, ← List.append_assoc,
        wordsIn_append_blanks trail_blanks, arguments.wordsIn_append hc,
        wordsIn_of_isWord (Keyword.isWord keyword), List.singleton_append]
    refine ⟨(word :: wordsIn cs) :: groups, ?_, ?_, ?_⟩
    · rw [hassoc, between_append_sep, between_of_not_mem hfree, hwords, hgroups]
      rfl
    · intro g hg
      rcases List.mem_cons.mp hg with rfl | hg
      · exact List.cons_ne_nil _ _
      · exact hne g hg
    · rw [List.map_cons, List.flatMap_cons, hsplit, List.singleton_append, List.map_cons, hread,
        hparse, List.map_cons]

end Written

/-- However commands are laid out over lines, the statements that are found in the lines are cut
into pieces that are read as exactly these commands, and no word is left to wait. -/
theorem parse_written {commands : List Command} {cs : List Char} (h : Written commands cs)
    (hw : ∀ c ∈ commands, c.Writable) :
    ((statementsOf (Reader.start.pushAll (Source.textLines cs)).2).flatMap
      (fun s => Language.splitStatement s.text)).map Command.parse = commands.map .ok ∧
    (Reader.start.pushAll (Source.textLines cs)).1.pending = [] ∧
    (Reader.start.pushAll (Source.textLines cs)).1.finish.2 = [] := by
  -- No group is empty, so that no line can have been taken for a comment.
  obtain ⟨groups, hgroups, hne, hparse⟩ := h.exists_groups hw
  have hstart : Reader.start.groups cs = groups ++ [[]] := by
    rw [Reader.groups, hgroups]
    exact splice_nil_left (List.append_ne_nil_of_right_ne_nil _ (List.cons_ne_nil _ _))
  have hread := Reader.pushAll_textLines cs (r := Reader.start)
  rw [hstart, List.dropLast_concat, List.getLastD_concat] at hread
  obtain ⟨hpending, hstatements⟩ := hread hne
  refine ⟨?_, hpending, ?_⟩
  · rw [← hparse, ← hstatements, List.flatMap_map]
  · rw [Reader.finish, Reader.isAccumulating, hpending]
    rfl

/-- Commands of which one has a keyword for its argument. -/
def scattered : List Command :=
  [.states ["q0", "q1"], .transitions [⟨"a", "q0", "q1"⟩, ⟨"b", "q1", "q0"⟩], .execute "print"]

theorem written_scattered :
    Written scattered
      "\tstates q0\n\n q1 ;Transitions a q0 q1 ,b q1\nq0,\n; EXECUTE print\n;\n".toList := by
  have hstates : LaidOut (.states ["q0", "q1"]) _ :=
    .plain (by decide) (.cons [' '] (by decide) (by decide)
      (.cons ['\n', '\n', ' '] (by decide) (by decide) .nil))
  have htransitions : LaidOut (.transitions [⟨"a", "q0", "q1"⟩, ⟨"b", "q1", "q0"⟩]) _ :=
    .triples (.cons [' '] (by decide) (by decide) (.cons [' '] (by decide)
      (by decide) (.cons [' '] (by decide) (by decide) .nil)))
      (.cons [' '] [] (by decide) (by decide)
        (.cons [' '] (by decide) (by decide)
          (.cons ['\n'] (by decide) (by decide) .nil)) (.dangling [] (by decide)))
  have hexecute : LaidOut (.execute "print") _ :=
    .plain (by decide) (.cons [' '] (by decide) (by decide) .nil)
  have hwritten : Written scattered _ :=
    .cons ['\t'] "states" [' '] (by decide) (by decide +kernel)
      hstates (by decide)
      (.cons [] "Transitions" ['\n'] (by decide) (by decide +kernel)
        htransitions (by decide)
        (.cons [' '] "EXECUTE" ['\n'] (by decide)
          (by decide +kernel) hexecute (by decide) (.nil ['\n'] (by decide))))
  refine Eq.subst (motive := Written scattered) ?_ hwritten
  decide +kernel

theorem writable_scattered : ∀ c ∈ scattered, c.Writable := by
  intro c hc
  have hword : ∀ c ∈ scattered, ∀ w ∈ c.arguments, IsWord w ∧ ';' ∉ w.toList ∧
      (c.keyword ≠ .execute → Keyword.ofWord? w = none) ∧
      (c.keyword = .transitions → ',' ∉ w.toList) := by
    decide +kernel
  exact ⟨fun w hw => (hword c hc w hw).1, fun w hw => (hword c hc w hw).2.1,
    fun h w hw => (hword c hc w hw).2.2.1 h, fun h w hw => (hword c hc w hw).2.2.2 h⟩

/-- The premises hold of a text in which no line is one statement. -/
theorem parse_scattered :
    ((statementsOf (Reader.start.pushAll (Source.textLines
      "\tstates q0\n\n q1 ;Transitions a q0 q1 ,b q1\nq0,\n; EXECUTE print\n;\n".toList)).2).flatMap
      (fun s => Language.splitStatement s.text)).map Command.parse = scattered.map .ok :=
  (parse_written written_scattered writable_scattered).1

end Statewright
