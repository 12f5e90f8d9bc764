import Statewright.Language.Command
import Statewright.Proofs.Fallible
import Statewright.Proofs.Names
import Statewright.Proofs.Words

/-!
# Reading commands

The words of a command, a keyword in any case and then its arguments, are cut into one piece, and
the piece is read as that command. The arguments of TRANSITIONS are read between their commas.
-/

open Statewright.Text Statewright.Fallible

namespace Statewright

/-! ## Keywords -/

namespace Keyword

theorem upper_text (k : Keyword) : upper k.text = k.text := by
  cases k
  all_goals decide +kernel

theorem ofWord?_text (k : Keyword) : ofWord? k.text = some k := by
  unfold ofWord? sameWord
  simp only [upper_text]
  cases k
  all_goals decide +kernel

theorem sameWord_text (k : Keyword) : sameWord k.text k.text = true :=
  beq_self_eq_true _

theorem ofWord?_of_sameWord {k : Keyword} {w : String} (h : sameWord k.text w = true) :
    ofWord? w = some k := by
  have hupper : upper w = upper k.text := (beq_iff_eq.mp h).symm
  rw [← ofWord?_text k]
  unfold ofWord? sameWord
  rw [hupper]

theorem isNameChar_of_mem_text {k : Keyword} {c : Char} (h : c ∈ k.text.toList) :
    isNameChar c = true ∨ c = '-' := by
  have hall : k.text.toList.all (fun c => isNameChar c || c == '-') = true := by
    cases k
    all_goals decide +kernel
  have hc := List.all_eq_true.mp hall c h
  rwa [Bool.or_eq_true, beq_iff_eq] at hc

-- No character of a keyword, in any case, means something between words.
theorem not_separator {k : Keyword} {w : String} (h : sameWord k.text w = true) {c : Char}
    (hc : c ∈ w.toList) : isBlank c = false ∧ c ≠ ';' ∧ c ≠ ',' := by
  have hmem : c.toUpper ∈ k.text.toList := by
    rw [← upper_text, beq_iff_eq.mp h, toList_upper]
    exact List.mem_map_of_mem hc
  have hupper := isNameChar_of_mem_text hmem
  have hcode : (65 ≤ c.toNat ∧ c.toNat ≤ 90) ∨ (48 ≤ c.toNat ∧ c.toNat ≤ 57) ∨
      (97 ≤ c.toNat ∧ c.toNat ≤ 122) ∨ c.toNat = 45 := by
    unfold Char.toUpper at hupper
    split at hupper
    -- A lower-case letter is the only character that capitals change.
    · next hlower =>
      rw [UInt32.le_iff_toNat_le, UInt32.le_iff_toNat_le] at hlower
      exact .inr (.inr (.inl hlower))
    · rcases hupper with hname | rfl
      · rcases isNameChar_iff.mp hname with hupper | hdigit
        · exact .inl hupper
        · exact .inr (.inl hdigit)
      · exact .inr (.inr (.inr rfl))
  refine ⟨?_, ?_, ?_⟩
  · simp only [isBlank, Bool.or_eq_false_iff, Bool.and_eq_false_iff, decide_eq_false_iff_not,
      beq_eq_false_iff_ne]
    omega
  · rintro rfl
    simp at hcode
  · rintro rfl
    simp at hcode

theorem isWord {k : Keyword} {w : String} (h : sameWord k.text w = true) : IsWord w := by
  refine ⟨?_, fun c hc => (not_separator h hc).1⟩
  rintro rfl
  revert h
  cases k
  all_goals decide +kernel

theorem isWord_text (k : Keyword) : IsWord k.text :=
  isWord (sameWord_text k)

theorem ofWord?_of_comma {w : String} (h : ',' ∈ w.toList) : ofWord? w = none := by
  cases hk : ofWord? w with
  | none => rfl
  | some k => exact absurd rfl (not_separator (sameWord_of_ofWord? hk) h).2.2

end Keyword

/-! ## Pieces -/

namespace Language

theorem growPiece_of_not_keyword {ws : List String} (h : ∀ w ∈ ws, isKeyword w = false)
    (piece : List String) : growPiece piece ws = [piece ++ ws] := by
  induction ws generalizing piece with
  | nil => rw [growPiece, List.append_nil]
  | cons w ws ih =>
    rw [growPiece, h w List.mem_cons_self, Bool.false_and, if_neg (by decide),
      ih (fun v hv => h v (List.mem_cons_of_mem w hv)), List.append_assoc, List.singleton_append]

theorem growPiece_ne_nil (piece ws : List String) : growPiece piece ws ≠ [] := by
  induction ws generalizing piece with
  | nil => exact List.cons_ne_nil _ _
  | cons w ws ih =>
    rw [growPiece]
    split
    · exact List.cons_ne_nil _ _
    · exact ih (piece ++ [w])

-- A keyword ends the piece that it is found in, unless that is a lone EXECUTE.
theorem growPiece_of_keyword (head : String) (hhead : Keyword.ofWord? head ≠ some .execute)
    {ws : List String} (h : ∃ w ∈ ws, isKeyword w = true) (front : List String) :
    ∃ taken piece pieces, taken <+: ws ∧
      growPiece (head :: front) ws = (head :: (front ++ taken)) :: piece :: pieces := by
  induction ws generalizing front with
  | nil =>
    obtain ⟨w, hw, -⟩ := h
    cases hw
  | cons w ws ih =>
    -- Only a lone EXECUTE takes a keyword for its input.
    have hawaits : awaitsInput (head :: front) = false := by
      cases front with
      | nil => exact beq_eq_false_iff_ne.mpr hhead
      | cons v front => rfl
    rw [growPiece, hawaits, Bool.not_false, Bool.and_true]
    by_cases hw : isKeyword w = true
    · rw [if_pos hw]
      cases hrest : growPiece [w] ws with
      | nil => exact absurd hrest (growPiece_ne_nil [w] ws)
      | cons piece pieces =>
        exact ⟨[], piece, pieces, List.nil_prefix, by rw [List.append_nil]⟩
    · rw [if_neg hw]
      have hrest : ∃ v ∈ ws, isKeyword v = true := by
        obtain ⟨v, hv, hkeyword⟩ := h
        rcases List.mem_cons.mp hv with rfl | hv
        · exact absurd hkeyword hw
        · exact ⟨v, hv, hkeyword⟩
      obtain ⟨taken, piece, pieces, htaken, hgrow⟩ := ih hrest (front ++ [w])
      refine ⟨w :: taken, piece, pieces, (List.prefix_cons_inj w).mpr htaken, ?_⟩
      rw [List.cons_append, hgrow, List.append_assoc, List.singleton_append]

-- The word after EXECUTE stays with it, whatever it is.
theorem growPiece_input {head : String} (h : Keyword.ofWord? head = some .execute)
    (input : String) : growPiece [head] [input] = [[head, input]] := by
  have hawaits : awaitsInput [head] = true := by
    rw [awaitsInput, h]
    rfl
  rw [growPiece, hawaits, Bool.not_true, Bool.and_false, if_neg (by decide)]
  rfl

theorem splitStatement_unwords {head : String} {ws : List String}
    (hwords : ∀ w ∈ head :: ws, IsWord w) (hgrow : growPiece [head] ws = [head :: ws]) :
    splitStatement (unwords (head :: ws)) = [unwords (head :: ws)] := by
  show (pieces (wordsIn _)).map unwords = _
  rw [wordsIn_unwords hwords, pieces, hgrow, List.map_singleton]

-- A statement in which a keyword follows is cut before it, so that it has more than one piece.
theorem splitStatement_of_keyword {head : String} (hhead : Keyword.ofWord? head ≠ some .execute)
    {ws : List String} (hwords : ∀ w ∈ head :: ws, IsWord w)
    (h : ∃ w ∈ ws, isKeyword w = true) :
    ∃ taken piece pieces, taken <+: ws ∧
      splitStatement (unwords (head :: ws)) = unwords (head :: taken) :: piece :: pieces := by
  obtain ⟨taken, piece, pieces, htaken, hgrow⟩ := growPiece_of_keyword head hhead h []
  refine ⟨taken, unwords piece, pieces.map unwords, htaken, ?_⟩
  show (Language.pieces (wordsIn _)).map unwords = _
  rw [wordsIn_unwords hwords, Language.pieces, hgrow]
  rfl

end Language

/-! ## Commands -/

namespace Command

/-- The arguments of a command as they are written, those of a triple one after the other. -/
def arguments : Command → List String
  | symbols names => names
  | states names => names
  | initialState name => [name]
  | finalStates names => names
  | transitions triples => triples.flatMap (fun t => [t.symbol, t.source, t.target])
  | print path => path.toList
  | compile path => [path]
  | load path => [path]
  | execute input => [input]
  | clear => []
  | log path => path.toList
  | exit => []

theorem parse_of_words {c : Command} (hkind : c.keyword ≠ .transitions) {text head : String}
    (hhead : Keyword.ofWord? head = some c.keyword)
    (hwords : words text = head :: c.arguments) : parse text = .ok c := by
  rw [parse, hwords]
  dsimp only
  rw [hhead]
  cases c with
  | transitions triples => exact absurd rfl hkind
  | print path =>
    cases path with
    | none => rfl
    | some path => rfl
  | log path =>
    cases path with
    | none => rfl
    | some path => rfl
  | _ => rfl

/-! ## Triples -/

def tripleWords (t : Triple) : List String :=
  [t.symbol, t.source, t.target]

theorem mapM_readTriple {parts : List String} {triples : List Triple}
    (h : parts.map words = triples.map tripleWords) : parts.mapM readTriple = .ok triples := by
  induction parts generalizing triples with
  | nil =>
    cases triples with
    | nil => rfl
    | cons t triples => cases h
  | cons part parts ih =>
    cases triples with
    | nil => cases h
    | cons t triples =>
      have hhead : words part = tripleWords t := (List.cons.inj h).1
      have hread : readTriple part = .ok t := by
        rw [readTriple, hhead]
        rfl
      rw [List.mapM_cons, hread, ok_bind, ih (List.cons.inj h).2]
      rfl

theorem words_trim_ofList (part : List Char) :
    words (trim (String.ofList part)) = wordsIn part := by
  rw [words_trim, words, String.toList_ofList, wordsIn]

theorem words_trimmedParts (cs : List Char) :
    ((cs.splitOnP (· = ',')).map (fun p => trim (String.ofList p))).map words =
      between ',' cs := by
  have hcomp : (words ∘ fun p => trim (String.ofList p)) = wordsIn := by
    funext part
    rw [Function.comp_apply, words_trim_ofList]
  rw [List.map_map, between, hcomp]

theorem eq_empty_of_mem_trimmedParts {cs : List Char} {part : String}
    (h : part ∈ (cs.splitOnP (· = ',')).map (fun p => trim (String.ofList p)))
    (hwords : words part = []) : part = "" := by
  obtain ⟨p, -, rfl⟩ := List.mem_map.mp h
  rw [words_trim] at hwords
  exact (trim_eq_empty_iff _).mpr hwords

end Command

/-! ## The parts of a list -/

namespace Language

/-- The parts of a list by their words: of several parts, a last one without words is left out. -/
def withoutDangling (parts : List (List String)) : List (List String) :=
  if parts.getLast? = some [] ∧ 1 < parts.length then parts.dropLast else parts

theorem words_commaParts (text : String) :
    (commaParts text).map words = withoutDangling (between ',' text.toList) := by
  have hparts := Command.words_trimmedParts text.toList
  have hempty : ∀ part ∈ (text.toList.splitOnP (· = ',')).map (fun p => trim (String.ofList p)),
      words part = [] → part = "" := fun part hmem => Command.eq_empty_of_mem_trimmedParts hmem
  unfold commaParts withoutDangling
  rw [← hparts]
  generalize (text.toList.splitOnP (· = ',')).map (fun p => trim (String.ofList p)) = parts at *
  dsimp only
  rw [List.getLast?_map, List.length_map]
  cases hlast : parts.getLast? with
  | none => simp
  | some last =>
    by_cases hnone : last = ""
    · rw [hnone]
      by_cases hlength : parts.length > 1
      · have hwords : words "" = [] := rfl
        simp [hlength, hwords, List.map_dropLast]
      · simp [hlength]
    · have hwords : words last ≠ [] :=
        fun hwords => hnone (hempty last (List.mem_of_getLast? hlast) hwords)
      simp [hnone, hwords]

end Language

namespace Command

-- The parts of a list of triples have their words, with or without a comma at the end.
theorem words_commaParts {text : String} {t : Triple} {triples : List Triple}
    {dangling : List (List String)} (hdangling : dangling = [] ∨ dangling = [[]])
    (h : between ',' text.toList = (t :: triples).map tripleWords ++ dangling) :
    (Language.commaParts text).map words = (t :: triples).map tripleWords := by
  rw [Language.words_commaParts, h, Language.withoutDangling]
  rcases hdangling with rfl | rfl
  · rw [List.append_nil]
    -- The last part is a triple, and a triple is not without words.
    refine if_neg (fun hlast => ?_)
    have hmem := List.mem_of_getLast? hlast.1
    obtain ⟨u, -, hu⟩ := List.mem_map.mp hmem
    cases hu
  · have hlength : 1 < ((t :: triples).map tripleWords ++ [[]]).length := by
      rw [List.length_append, List.length_map, List.length_cons, List.length_singleton]
      omega
    rw [if_pos ⟨List.getLast?_concat, hlength⟩, List.dropLast_concat]

theorem readTriples_of_between {text : String} {t : Triple} {triples : List Triple}
    {dangling : List (List String)} (hdangling : dangling = [] ∨ dangling = [[]])
    (h : between ',' text.toList = (t :: triples).map tripleWords ++ dangling) :
    readTriples text = .ok (t :: triples) := by
  have hne : text ≠ "" := by
    rintro rfl
    rw [String.toList_empty, between_of_not_mem List.not_mem_nil, wordsIn_nil] at h
    cases h
  rw [readTriples, if_neg hne]
  exact mapM_readTriple (words_commaParts hdangling h)

-- What follows the first word has the other words.
theorem words_after {text head : String} {arguments : List String}
    (h : words text = head :: arguments) : words (afterFirstWord text) = arguments := by
  have htrim : wordsIn (trimLeft text.toList) = head :: arguments :=
    (wordsIn_trimLeft text.toList).trans h
  unfold afterFirstWord
  dsimp only
  rw [words_trim_ofList]
  generalize hbody : trimLeft text.toList = body at htrim ⊢
  have hfirst : ∀ b rest, body = b :: rest → isBlank b = false := by
    rintro b rest hb
    have hnot := List.head?_dropWhile_not isBlank text.toList
    rw [← trimLeft, hbody, hb] at hnot
    exact hnot
  -- The body is its first word, and what begins with the blank after it.
  have hfront : ∀ c ∈ body.takeWhile (fun c => !isBlank c), isBlank c = false := by
    intro c hc
    have hall := List.all_eq_true.mp (List.all_takeWhile (l := body) (p := fun c => !isBlank c))
    simpa using hall c hc
  have hcut : body.takeWhile (fun c => !isBlank c) ++ body.dropWhile (fun c => !isBlank c) = body :=
    List.takeWhile_append_dropWhile
  rw [← hcut] at htrim
  cases hrest : body.dropWhile (fun c => !isBlank c) with
  | nil =>
    rw [hrest, List.append_nil] at htrim
    rcases wordsIn_part hfront with hnil | ⟨-, hword⟩
    · rw [hnil] at htrim
      cases htrim
    · rw [hword] at htrim
      exact (List.cons.inj htrim).2
  | cons b rest =>
    have hb : isBlank b = true := by
      have hnot := List.head?_dropWhile_not (fun c => !isBlank c) body
      rw [hrest] at hnot
      simpa using hnot
    rw [hrest, wordsIn_append_blank hb] at htrim
    rw [wordsIn_cons_blank hb]
    rcases wordsIn_part hfront with hnil | ⟨-, hword⟩
    · rw [hnil, hrest, List.nil_append] at hcut
      rw [hfirst b rest hcut.symm] at hb
      cases hb
    · rw [hword] at htrim
      exact (List.cons.inj htrim).2

theorem words_afterFirstWord {head : String} {ws : List String} (hhead : IsWord head)
    (hws : ∀ w ∈ ws, IsWord w) : words (afterFirstWord (unwords (head :: ws))) = ws :=
  words_after (wordsIn_unwords (List.forall_mem_cons.mpr ⟨hhead, hws⟩))

-- Nothing but blanks after the keyword makes an empty list.
theorem readTriples_of_no_words {text : String} (h : words (afterFirstWord text) = []) :
    readTriples (afterFirstWord text) = .ok [] := by
  have hempty : afterFirstWord text = "" := by
    unfold afterFirstWord at h ⊢
    dsimp only at h ⊢
    rw [words_trim] at h
    exact (trim_eq_empty_iff _).mpr h
  rw [readTriples, if_pos hempty]

theorem parse_transitions {head : String} {ws : List String} {triples : List Triple}
    (hkeyword : Keyword.ofWord? head = some .transitions) (hhead : IsWord head)
    (hws : ∀ w ∈ ws, IsWord w)
    (hread : readTriples (afterFirstWord (unwords (head :: ws))) = .ok triples) :
    parse (unwords (head :: ws)) = .ok (.transitions triples) := by
  have hwords : words (unwords (head :: ws)) = head :: ws :=
    wordsIn_unwords (List.forall_mem_cons.mpr ⟨hhead, hws⟩)
  rw [parse, hwords]
  dsimp only
  rw [hkeyword]
  dsimp only
  rw [hread]
  rfl

end Command

end Statewright
