import Statewright.Proofs.TransitionLists

/-!
# Which texts are commands

A text is a command if its first word is a keyword, in any case, and its other words fit the
keyword. TRANSITIONS is read from the text behind its keyword and not from the words, as a comma
needs no blanks around it. What stands between two commas is again known by its words, though, so
that the runs of blanks in a text decide neither what command it is nor how it is refused.
-/

open Statewright.Text Statewright.Fallible

namespace Statewright

/-! ## Arguments that fit a keyword -/

/-- The words between the commas of a list that is written in some words. -/
def Language.listed (ws : List String) : List (List String) :=
  between ',' (unwords ws).toList

namespace Command

/-- The words that fit a keyword, and the command that they make with it. -/
inductive Fits : Keyword → List String → Command → Prop where
  | symbols (names : List String) : Fits .symbols names (.symbols names)
  | states (names : List String) : Fits .states names (.states names)
  | initialState (name : String) : Fits .initialState [name] (.initialState name)
  | finalStates (names : List String) : Fits .finalStates names (.finalStates names)
  | noTransitions : Fits .transitions [] (.transitions [])
  /-- Three words between one comma and the next, and perhaps a comma at the end. -/
  | transitions {ws : List String} {triples : List Triple} (nonempty : triples ≠ [])
      (threes : Language.listed ws = triples.map tripleWords ∨
        Language.listed ws = triples.map tripleWords ++ [[]]) :
      Fits .transitions ws (.transitions triples)
  | print : Fits .print [] (.print none)
  | printTo (path : String) : Fits .print [path] (.print (some path))
  | compile (path : String) : Fits .compile [path] (.compile path)
  | load (path : String) : Fits .load [path] (.load path)
  | execute (input : String) : Fits .execute [input] (.execute input)
  | clear : Fits .clear [] .clear
  | log : Fits .log [] (.log none)
  | logTo (path : String) : Fits .log [path] (.log (some path))
  | exit : Fits .exit [] .exit

variable {k : Keyword} {ws : List String} {c : Command} {triples : List Triple}

theorem Fits.keyword_eq (h : Fits k ws c) : c.keyword = k := by
  cases h
  all_goals rfl

theorem Fits.arguments_eq (h : Fits k ws c) (hkind : k ≠ .transitions) : c.arguments = ws := by
  cases h with
  | noTransitions => exact absurd rfl hkind
  | transitions => exact absurd rfl hkind
  | _ => rfl

theorem fits_arguments (hkind : c.keyword ≠ .transitions) : Fits c.keyword c.arguments c := by
  cases c with
  | symbols names => exact .symbols names
  | states names => exact .states names
  | initialState name => exact .initialState name
  | finalStates names => exact .finalStates names
  | transitions triples => exact absurd rfl hkind
  | print path =>
    cases path with
    | none => exact .print
    | some path => exact .printTo path
  | compile path => exact .compile path
  | load path => exact .load path
  | execute input => exact .execute input
  | clear => exact .clear
  | log path =>
    cases path with
    | none => exact .log
    | some path => exact .logTo path
  | exit => exact .exit

/-! ## Lists of transitions -/

theorem mapM_readTriple_eq_ok_iff {parts : List String} :
    parts.mapM readTriple = .ok triples ↔ parts.map words = triples.map tripleWords := by
  constructor
  · intro h
    rcases mapM_cases readTriple parts with ⟨read, hread, hall⟩ | ⟨_, _, _, e, _, _, _, hread⟩
    · rw [h] at hread
      cases hread
      clear h
      induction hall with
      | nil => rfl
      | cons hpart _ ih => rw [List.map_cons, List.map_cons, words_of_readTriple hpart, ih]
    · rw [h] at hread
      cases hread
  · exact mapM_readTriple

-- The list behind the keyword is read if and only if its words fit.
theorem readTriples_eq_ok_iff {text head : String} (hwords : words text = head :: ws) :
    readTriples (afterFirstWord text) = .ok triples ↔
      Fits .transitions ws (.transitions triples) := by
  have hafter := words_after hwords
  have hbetween : between ',' (afterFirstWord text).toList = Language.listed ws :=
    between_afterFirstWord hwords
  constructor
  · intro h
    by_cases hnone : ws = []
    · rw [hnone] at hafter
      rw [readTriples_of_no_words hafter] at h
      cases h
      rw [hnone]
      exact .noTransitions
    have hne : afterFirstWord text ≠ "" := by
      intro hempty
      rw [hempty] at hafter
      exact hnone hafter.symm
    rw [readTriples, if_neg hne] at h
    have hparts := mapM_readTriple_eq_ok_iff.mp h
    have htriples : triples ≠ [] := by
      rintro rfl
      exact Language.commaParts_ne_nil _ (List.map_eq_nil_iff.mp hparts)
    refine .transitions htriples ?_
    rw [Language.words_commaParts, hbetween, Language.withoutDangling] at hparts
    split at hparts
    · next hdangling =>
      right
      rw [← hparts]
      exact (List.dropLast_append_getLast? [] hdangling.1).symm
    · exact .inl hparts
  · intro h
    cases h with
    | noTransitions => exact readTriples_of_no_words hafter
    | transitions htriples threes =>
      cases triples with
      | nil => exact absurd rfl htriples
      | cons t triples =>
        rw [← hbetween] at threes
        rcases threes with hthrees | hthrees
        · exact readTriples_of_between (.inl rfl) (hthrees.trans (List.append_nil _).symm)
        · exact readTriples_of_between (.inr rfl) hthrees

/-! ## Commands -/

theorem parse_eq_of_transitions {text head : String} (hwords : words text = head :: ws)
    (hkeyword : Keyword.ofWord? head = some .transitions) :
    parse text = .transitions <$> readTriples (afterFirstWord text) := by
  rw [parse, hwords]
  dsimp only
  rw [hkeyword]

/-- The texts that are read as a command. -/
theorem parse_eq_ok_iff {text : String} : parse text = .ok c ↔
    ∃ head ws k, words text = head :: ws ∧ sameWord k.text head = true ∧ Fits k ws c := by
  constructor
  · intro h
    obtain ⟨head, ws, hwords, hkeyword, harguments⟩ := words_of_parse h
    refine ⟨head, ws, c.keyword, hwords, Keyword.sameWord_of_ofWord? hkeyword, ?_⟩
    by_cases hkind : c.keyword = .transitions
    · rw [hkind] at hkeyword
      rw [parse_eq_of_transitions hwords hkeyword] at h
      obtain ⟨triples, hread, rfl⟩ := map_eq_ok_iff.mp h
      exact (readTriples_eq_ok_iff hwords).mp hread
    · rw [harguments hkind]
      exact fits_arguments hkind
  · rintro ⟨head, ws, k, hwords, hsame, hfits⟩
    have hkeyword := Keyword.ofWord?_of_sameWord hsame
    by_cases hkind : k = .transitions
    · rw [hkind] at hkeyword hfits
      have hlist : ∃ triples, c = .transitions triples := by
        cases hfits with
        | noTransitions => exact ⟨_, rfl⟩
        | transitions => exact ⟨_, rfl⟩
      obtain ⟨triples, rfl⟩ := hlist
      rw [parse_eq_of_transitions hwords hkeyword, (readTriples_eq_ok_iff hwords).mpr hfits]
      rfl
    · rw [← hfits.keyword_eq] at hkind hkeyword
      rw [← hfits.arguments_eq (hfits.keyword_eq ▸ hkind)] at hwords
      exact parse_of_words hkind hkeyword hwords

/-! ## Refusals -/

-- A bad input is told from a bad command by the first words of the message.
theorem message_eq_append (e : CommandError) : ∃ detail,
    e.message = (if e.isInputFault then "Invalid input: " else "Invalid command: ") ++ detail := by
  cases e with
  | empty => exact ⟨"empty statement", by decide +kernel⟩
  | unknownKeyword word =>
    refine ⟨"unknown keyword " ++ Text.upper word, ?_⟩
    show "Invalid command: unknown keyword " ++ Text.upper word = "Invalid command: " ++ _
    rw [← String.append_assoc]
    rfl
  | arity k =>
    refine ⟨k.text ++ " " ++ CommandError.arityRule k, ?_⟩
    cases k
    all_goals decide +kernel
  | malformedTriple part =>
    refine ⟨"invalid transition format '" ++ part ++ "', expected <symbol> <from> <to>", ?_⟩
    show "Invalid command: invalid transition format '" ++ part ++ _ = "Invalid command: " ++ _
    rw [← String.append_assoc, ← String.append_assoc]
    rfl
  | missingInput => exact ⟨"EXECUTE requires an input string", by decide +kernel⟩

theorem isInputFault_iff {text : String} {e : CommandError} (h : parse text = .error e) :
    e.isInputFault = true ↔
      ∃ head, words text = [head] ∧ sameWord Keyword.execute.text head = true := by
  constructor
  · intro hinput
    cases refuses_of_parse h with
    | missingInput written known => exact ⟨_, written, Keyword.sameWord_of_ofWord? known⟩
    | _ => cases hinput
  · rintro ⟨head, hwords, hsame⟩
    have hkeyword := Keyword.ofWord?_of_sameWord hsame
    rw [parse, hwords] at h
    dsimp only at h
    rw [hkeyword] at h
    cases h
    rfl

end Command

/-! ## Runs of blanks -/

namespace Text

/-- Two texts that differ in their runs of blanks alone: where the one has a run the other has a
run too, but at the end, where either may have none. -/
inductive Aligned : List Char → List Char → Prop where
  | trail {bs cs : List Char} (blanks : Blanks bs) (blanks' : Blanks cs) : Aligned bs cs
  | part {s t : List Char} (cs : List Char) (solid : ∀ c ∈ cs, isBlank c = false)
      (rest : Aligned s t) : Aligned (cs ++ s) (cs ++ t)
  | run {bs cs s t : List Char} (blanks : Blanks bs) (ne : bs ≠ []) (blanks' : Blanks cs)
      (ne' : cs ≠ []) (rest : Aligned s t) : Aligned (bs ++ s) (cs ++ t)

/-- Two texts that differ in their runs of blanks and in the blanks around them. -/
inductive Respaced : List Char → List Char → Prop where
  | lead {bs cs s t : List Char} (blanks : Blanks bs) (blanks' : Blanks cs)
      (rest : Aligned s t) : Respaced (bs ++ s) (cs ++ t)

-- What stands in front of both texts may run on into them.
theorem Aligned.wordsIn_append {s t : List Char} (h : Aligned s t) (front : List Char) :
    wordsIn (front ++ s) = wordsIn (front ++ t) := by
  induction h generalizing front with
  | trail blanks blanks' => rw [wordsIn_append_blanks blanks, wordsIn_append_blanks blanks']
  | part cs _ _ ih => rw [← List.append_assoc, ih, List.append_assoc]
  | @run bs cs s t blanks ne blanks' ne' _ ih =>
    have hrest : wordsIn s = wordsIn t := ih []
    rw [wordsIn_apart blanks ne, wordsIn_apart blanks' ne', hrest]

theorem Respaced.wordsIn_eq {s t : List Char} (h : Respaced s t) : wordsIn s = wordsIn t := by
  cases h with
  | lead blanks blanks' rest =>
    rw [wordsIn_blanks_append blanks, wordsIn_blanks_append blanks']
    exact rest.wordsIn_append []

end Text

namespace Command

/-- A text is a command if and only if its first word is a keyword in any case and the words behind
it fit the keyword, and it is the command that they make. Otherwise its input is at fault if it is a
lone EXECUTE, and its form if it is anything else. Texts that differ in blanks alone are the same
command, or refused in the same way. -/
theorem parse_iff_fits (text : String) :
    (∀ c, parse text = .ok c ↔
      ∃ head ws k, words text = head :: ws ∧ sameWord k.text head = true ∧ Fits k ws c) ∧
    (∀ e, parse text = .error e →
      (e.isInputFault = true ↔
        ∃ head, words text = [head] ∧ sameWord Keyword.execute.text head = true) ∧
      ∃ detail, e.message =
        (if e.isInputFault then "Invalid input: " else "Invalid command: ") ++ detail) ∧
    ∀ other : String, Respaced text.toList other.toList →
      (parse other).mapError CommandError.isInputFault =
        (parse text).mapError CommandError.isInputFault := by
  refine ⟨fun c => parse_eq_ok_iff, fun e h => ⟨isInputFault_iff h, message_eq_append e⟩, ?_⟩
  intro other hrespaced
  have hwords : words other = words text := hrespaced.wordsIn_eq.symm
  have hsame : ∀ c, parse other = .ok c ↔ parse text = .ok c := by
    intro c
    rw [parse_eq_ok_iff, parse_eq_ok_iff, hwords]
  cases hother : parse other with
  | ok c => rw [(hsame c).mp hother]
  | error e =>
    cases htext : parse text with
    | ok c =>
      rw [(hsame c).mpr htext] at hother
      cases hother
    | error e' =>
      have hfault : e.isInputFault = true ↔ e'.isInputFault = true := by
        rw [isInputFault_iff hother, isInputFault_iff htext, hwords]
      exact congrArg Except.error (Bool.eq_iff_iff.mpr hfault)

/-- The premises hold of a list with commas inside of words and one at its end, and of a lone
EXECUTE with blanks around it. -/
theorem parse_iff_fits_comma :
    parse "transitions a p q,b q\tp ," = .ok (.transitions [⟨"a", "p", "q"⟩, ⟨"b", "q", "p"⟩]) ∧
    (∃ e, parse "EXECUTE" = .error e ∧ e.isInputFault = true) ∧
    (parse " EXECUTE\n").mapError CommandError.isInputFault = .error true := by
  obtain ⟨hcommand, -, -⟩ := parse_iff_fits "transitions a p q,b q\tp ,"
  obtain ⟨-, hrefused, hrespaced⟩ := parse_iff_fits "EXECUTE"
  have hlone : parse "EXECUTE" = .error .missingInput := by decide +kernel
  have hfault : CommandError.missingInput.isInputFault = true :=
    (hrefused _ hlone).1.mpr ⟨"EXECUTE", by decide +kernel, by decide +kernel⟩
  refine ⟨(hcommand _).mpr ?_, ⟨_, hlone, hfault⟩, ?_⟩
  · exact ⟨"transitions", ["a", "p", "q,b", "q", "p", ","], .transitions, by decide +kernel,
      by decide +kernel, .transitions (by decide) (.inr (by decide +kernel))⟩
  · have haround : Respaced ([] ++ ("EXECUTE".toList ++ []))
        ([' '] ++ ("EXECUTE".toList ++ ['\n'])) :=
      .lead (by decide) (by decide)
        (.part _ (Keyword.isWord_text .execute).2 (.trail (by decide) (by decide)))
    have htext : " EXECUTE\n".toList = [' '] ++ ("EXECUTE".toList ++ ['\n']) := by decide +kernel
    rw [List.nil_append, List.append_nil, ← htext] at haround
    rw [hrespaced _ haround, hlone]
    exact congrArg Except.error hfault

end Command

end Statewright
