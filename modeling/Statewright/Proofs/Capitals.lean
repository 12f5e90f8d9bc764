import Statewright.Proofs.Change
import Statewright.Proofs.LetterCase
import Statewright.Proofs.Reader

/-!
# Statements in capitals

What is made of a text in capitals is what is made of the text, in capitals: the same edits and
commands with their texts in capitals, the same failures with the texts that they quote in capitals,
and the same findings of the reader. So two texts that have the same capitals are read alike.
-/

open Statewright.Text Statewright.Fallible

namespace Statewright

/-! ## Edits -/

def TransitionFault.upper : TransitionFault → TransitionFault
  | name e => name e.upper
  | undeclaredSymbol s => undeclaredSymbol s
  | undeclaredState q => undeclaredState q

def EditError.upper : EditError → EditError
  | name e => name e.upper
  | transition symbol source target fault =>
    transition (Text.upper symbol) (Text.upper source) (Text.upper target) fault.upper

/-- The edit with its texts in capitals. -/
def Edit.upper : Edit → Edit
  | addSymbol raw => addSymbol (Text.upper raw)
  | addState raw => addState (Text.upper raw)
  | setInitial raw => setInitial (Text.upper raw)
  | setCurrent raw => setCurrent (Text.upper raw)
  | addFinal raw => addFinal (Text.upper raw)
  | addTransition symbol source target =>
    addTransition (Text.upper symbol) (Text.upper source) (Text.upper target)

/-! Messages in capitals do not tell how the texts were written that they quote. -/

theorem Text.upper_toString (s : String) : upper (toString s) = upper s :=
  rfl

theorem NameError.upper_message (e : NameError) :
    Text.upper e.upper.message = Text.upper e.message := by
  cases e with
  | symbol raw | state raw =>
    unfold NameError.upper message
    dsimp only
    simp only [upper_append, upper_toString, upper_upper]

theorem TransitionFault.upper_message (fault : TransitionFault) :
    Text.upper fault.upper.message = Text.upper fault.message := by
  cases fault with
  | name e => exact e.upper_message
  | undeclaredSymbol s => rw [TransitionFault.upper]
  | undeclaredState q => rw [TransitionFault.upper]

theorem EditError.upper_message (e : EditError) :
    Text.upper e.upper.message = Text.upper e.message := by
  cases e with
  | name e => exact e.upper_message
  | transition symbol source target fault =>
    unfold EditError.upper EditError.message
    dsimp only
    simp only [upper_append, upper_toString, upper_upper, fault.upper_message]

namespace Machine

variable (m : Machine)

theorem readState_upper (raw : String) :
    readState (Text.upper raw) = (readState raw).mapError EditError.upper := by
  unfold readState
  rw [StateName.parse_upper]
  cases StateName.parse raw with
  | error e => rfl
  | ok q => rfl

theorem readTransition_upper (symbol source target : String) :
    m.readTransition (Text.upper symbol) (Text.upper source) (Text.upper target) =
      (m.readTransition symbol source target).mapError TransitionFault.upper := by
  unfold readTransition
  rw [Symbol.parse_upper, StateName.parse_upper, StateName.parse_upper]
  cases Symbol.parse symbol with
  | error e => rfl
  | ok s =>
    cases StateName.parse source with
    | error e => rfl
    | ok q =>
      cases StateName.parse target with
      | error e => rfl
      | ok r =>
        -- The names are the same, and so are their declarations.
        cases hs : m.hasSymbol s
        all_goals cases hq : m.hasState q
        all_goals cases hr : m.hasState r
        all_goals simp only [Except.mapError, ok_bind, hs, hq, hr]
        all_goals rfl

theorem readChange_upper (e : Edit) :
    m.readChange e.upper = (m.readChange e).mapError EditError.upper := by
  cases e with
  | addSymbol raw =>
    show ((Symbol.parse (Text.upper raw)).mapError EditError.name).map Change.symbol =
      (((Symbol.parse raw).mapError EditError.name).map Change.symbol).mapError EditError.upper
    rw [Symbol.parse_upper]
    cases Symbol.parse raw with
    | error e => rfl
    | ok s => rfl
  | addTransition symbol source target =>
    show ((m.readTransition _ _ _).mapError _).map Change.transition =
      (((m.readTransition symbol source target).mapError _).map Change.transition).mapError
        EditError.upper
    rw [readTransition_upper]
    cases m.readTransition symbol source target with
    | error fault => rfl
    | ok t => rfl
  | addState raw | setInitial raw | setCurrent raw | addFinal raw =>
    show (readState (Text.upper raw)).map _ = ((readState raw).map _).mapError EditError.upper
    rw [readState_upper]
    cases readState raw with
    | error e => rfl
    | ok q => rfl

-- An edit makes of a machine what it makes in capitals, and fails where it does.
theorem edit_upper (e : Edit) : m.edit e.upper = (m.edit e).mapError EditError.upper := by
  rw [edit_eq, edit_eq, readChange_upper]
  cases m.readChange e with
  | error err => rfl
  | ok c => rfl

theorem editEach_map (es : List Edit) :
    m.editEach (es.map Edit.upper) =
      ((m.editEach es).1, (m.editEach es).2.mapError EditError.upper) := by
  induction es generalizing m with
  | nil => rfl
  | cons e es ih =>
    rw [List.map_cons, editEach, editEach, edit_upper]
    cases m.edit e with
    | error err => rfl
    | ok r =>
      obtain ⟨edited, outcome⟩ := r
      show ((edited.editEach (es.map Edit.upper)).1, _) = _
      rw [ih edited]
      dsimp only
      cases (edited.editEach es).2 with
      | error err => rfl
      | ok rest => rfl

theorem editAll_map (es : List Edit) :
    m.editAll (es.map Edit.upper) = (m.editAll es).mapError EditError.upper := by
  unfold editAll
  rw [editEach_map]
  obtain ⟨edited, outcome | err⟩ := m.editEach es
  · rfl
  · rfl

end Machine

/-! ## Commands -/

def CommandError.upper : CommandError → CommandError
  | unknownKeyword word => unknownKeyword (Text.upper word)
  | malformedTriple part => malformedTriple (Text.upper part)
  | e => e

def Triple.upper (t : Triple) : Triple :=
  ⟨Text.upper t.symbol, Text.upper t.source, Text.upper t.target⟩

/-- The command with its arguments in capitals. -/
def Command.upper : Command → Command
  | symbols names => symbols (names.map Text.upper)
  | states names => states (names.map Text.upper)
  | initialState name => initialState (Text.upper name)
  | finalStates names => finalStates (names.map Text.upper)
  | transitions triples => transitions (triples.map Triple.upper)
  | print path => print (path.map Text.upper)
  | compile path => compile (Text.upper path)
  | load path => load (Text.upper path)
  | execute input => execute (Text.upper input)
  | clear => clear
  | log path => log (path.map Text.upper)
  | exit => exit

theorem CommandError.upper_message (e : CommandError) :
    Text.upper e.upper.message = Text.upper e.message := by
  cases e with
  | unknownKeyword word =>
    unfold CommandError.upper CommandError.message
    dsimp only
    rw [upper_upper]
  | malformedTriple part =>
    unfold CommandError.upper CommandError.message
    dsimp only
    simp only [upper_append, upper_toString, upper_upper]
  | empty | arity k | missingInput => simp only [CommandError.upper]

namespace Language

theorem isKeyword_upper (w : String) : isKeyword (Text.upper w) = isKeyword w := by
  rw [isKeyword, Keyword.ofWord?_upper, isKeyword]

theorem awaitsInput_map (piece : List String) :
    awaitsInput (piece.map Text.upper) = awaitsInput piece := by
  match piece with
  | [] => rfl
  | [head] =>
    show (Keyword.ofWord? (Text.upper head) == _) = _
    rw [Keyword.ofWord?_upper]
    rfl
  | _ :: _ :: _ => rfl

theorem growPiece_map (piece ws : List String) :
    growPiece (piece.map Text.upper) (ws.map Text.upper) =
      (growPiece piece ws).map (List.map Text.upper) := by
  induction ws generalizing piece with
  | nil => rfl
  | cons w ws ih =>
    rw [List.map_cons, growPiece, growPiece, isKeyword_upper, awaitsInput_map]
    split
    · rw [List.map_cons, ← ih]
      rfl
    · rw [← ih, List.map_append]
      rfl

theorem splitStatement_upper (text : String) :
    splitStatement (Text.upper text) = (splitStatement text).map Text.upper := by
  have hpieces : pieces ((words text).map Text.upper) =
      (pieces (words text)).map (List.map Text.upper) := by
    cases words text with
    | nil => rfl
    | cons w ws => exact growPiece_map [w] ws
  rw [splitStatement, words_upper, hpieces, splitStatement, List.map_map, List.map_map]
  exact List.map_congr_left (fun piece _ => unwords_map piece)

theorem commaParts_upper (text : String) :
    commaParts (Text.upper text) = (commaParts text).map Text.upper := by
  have hparts : ((Text.upper text).toList.splitOnP (· = ',')).map
        (fun p => trim (String.ofList p)) =
      ((text.toList.splitOnP (· = ',')).map (fun p => trim (String.ofList p))).map Text.upper := by
    rw [toList_upper, splitOnP_map (separates_toUpper rfl), List.map_map, List.map_map]
    refine List.map_congr_left (fun p _ => ?_)
    show trim (String.ofList (p.map Char.toUpper)) = Text.upper (trim (String.ofList p))
    rw [← upper_ofList, trim_upper]
  unfold commaParts
  rw [hparts]
  generalize (text.toList.splitOnP (· = ',')).map (fun p => trim (String.ofList p)) = parts
  dsimp only
  rw [List.getLast?_map, List.length_map]
  cases hlast : parts.getLast? with
  | none => rfl
  | some last =>
    by_cases hempty : last = ""
    · rw [hempty]
      show (if _ then _ else _) = List.map _ (if _ then _ else _)
      split
      · exact List.map_dropLast.symm
      · rfl
    · have hupper : Text.upper last ≠ "" := mt upper_eq_empty_iff.mp hempty
      simp [hempty, hupper]

end Language

namespace Command

theorem exactlyOne_map (k : Keyword) (ws : List String) :
    exactlyOne k (ws.map Text.upper) =
      ((exactlyOne k ws).map Text.upper).mapError CommandError.upper := by
  match ws with
  | [] => rfl
  | [w] => rfl
  | _ :: _ :: _ => rfl

theorem atMostOne_map (k : Keyword) (ws : List String) :
    atMostOne k (ws.map Text.upper) =
      ((atMostOne k ws).map (Option.map Text.upper)).mapError CommandError.upper := by
  match ws with
  | [] => rfl
  | [w] => rfl
  | _ :: _ :: _ => rfl

theorem bare_map (k : Keyword) (c : Command) (ws : List String) :
    bare k c.upper (ws.map Text.upper) =
      ((bare k c ws).map Command.upper).mapError CommandError.upper := by
  cases ws with
  | nil => rfl
  | cons w ws => rfl

theorem readTriple_upper (part : String) :
    readTriple (Text.upper part) =
      ((readTriple part).map Triple.upper).mapError CommandError.upper := by
  unfold readTriple
  rw [words_upper]
  match words part with
  | [] => rfl
  | [_] => rfl
  | [_, _] => rfl
  | [_, _, _] => rfl
  | _ :: _ :: _ :: _ :: _ => rfl

theorem mapM_readTriple_map (parts : List String) :
    (parts.map Text.upper).mapM readTriple =
      ((parts.mapM readTriple).map (List.map Triple.upper)).mapError CommandError.upper := by
  induction parts with
  | nil => rfl
  | cons part parts ih =>
    rw [List.map_cons, List.mapM_cons, List.mapM_cons, readTriple_upper, ih]
    cases readTriple part with
    | error e => rfl
    | ok t =>
      cases parts.mapM readTriple with
      | error e => rfl
      | ok ts => rfl

theorem afterFirstWord_upper (text : String) :
    afterFirstWord (Text.upper text) = Text.upper (afterFirstWord text) := by
  have hword : (fun c => !isBlank c) ∘ Char.toUpper = fun c => !isBlank c :=
    funext fun c => congrArg not (isBlank_toUpper c)
  unfold afterFirstWord
  dsimp only
  rw [toList_upper, trimLeft_map, List.dropWhile_map, hword, ← upper_ofList, trim_upper]

theorem readTriples_upper (text : String) :
    readTriples (Text.upper text) =
      ((readTriples text).map (List.map Triple.upper)).mapError CommandError.upper := by
  unfold readTriples
  by_cases hempty : text = ""
  · rw [if_pos hempty, if_pos (upper_eq_empty_iff.mpr hempty)]
    rfl
  · rw [if_neg hempty, if_neg (mt upper_eq_empty_iff.mp hempty), Language.commaParts_upper,
      mapM_readTriple_map]

/-- A piece in capitals is read as its command in capitals, or refused as it is. -/
theorem parse_upper (text : String) :
    parse (Text.upper text) = ((parse text).map Command.upper).mapError CommandError.upper := by
  unfold parse
  rw [words_upper]
  cases words text with
  | nil => rfl
  | cons head arguments =>
    rw [List.map_cons]
    dsimp only
    rw [Keyword.ofWord?_upper]
    cases Keyword.ofWord? head with
    | none => rfl
    | some k =>
      dsimp only
      cases k with
      | symbols | states | finalStates => rfl
      | initialState | compile | load =>
        dsimp only
        rw [exactlyOne_map]
        cases exactlyOne _ arguments with
        | error e => rfl
        | ok name => rfl
      | print | log =>
        dsimp only
        rw [atMostOne_map]
        cases atMostOne _ arguments with
        | error e => rfl
        | ok path => rfl
      | transitions =>
        dsimp only
        rw [afterFirstWord_upper, readTriples_upper]
        cases readTriples (afterFirstWord text) with
        | error e => rfl
        | ok triples => rfl
      | execute =>
        match arguments with
        | [] => rfl
        | [input] => rfl
        | _ :: _ :: _ => rfl
      | clear => exact bare_map .clear .clear arguments
      | exit => exact bare_map .exit .exit arguments

end Command

/-! ## Reading -/

/-- The statement in capitals. -/
def Statement.upper (st : Statement) : Statement :=
  { st with text := Text.upper st.text }

def Finding.upper : Finding → Finding
  | statement st => statement st.upper
  | remark line r => remark line r

/-- The reader with the words that wait in capitals. -/
def Reader.upper (r : Reader) : Reader :=
  { r with pending := r.pending.map Text.upper }

namespace Reader

theorem skips_upper (r : Reader) (cs : List Char) :
    r.upper.skips (cs.map Char.toUpper) = r.skips cs := by
  unfold skips isAccumulating Reader.upper
  rw [trimLeft_map, List.isEmpty_map]
  cases trimLeft cs with
  | nil => rfl
  | cons c rest =>
    show (decide (c.toUpper = ';') && _) = _
    rw [separates_toUpper rfl]

theorem splice_map (x : List String) {ys : List (List String)} :
    splice [x.map Text.upper] (ys.map (List.map Text.upper)) =
      (splice [x] ys).map (List.map Text.upper) := by
  cases ys with
  | nil => rfl
  | cons y ys =>
    rw [List.map_cons, splice_singleton, splice_singleton, List.map_cons, List.map_append]

theorem groups_upper (r : Reader) (cs : List Char) :
    r.upper.groups (cs.map Char.toUpper) = (r.groups cs).map (List.map Text.upper) := by
  rw [groups, between_map rfl]
  exact splice_map r.pending

theorem close_map (g : List String) (line : Nat) (terminated : Bool) :
    close (g.map Text.upper) line terminated = (close g line terminated).map Finding.upper := by
  cases g with
  | nil => rfl
  | cons w ws =>
    show [Finding.statement ⟨unwords ((w :: ws).map Text.upper), line, terminated⟩] = _
    rw [unwords_map]
    rfl

theorem push_upper (r : Reader) (text : String) :
    r.upper.push (Text.upper text) =
      ((r.push text).1.upper, (r.push text).2.map Finding.upper) := by
  have hskips : r.upper.skips (Text.upper text).toList = r.skips text.toList := by
    rw [toList_upper, skips_upper]
  cases hcase : r.skips text.toList with
  | true =>
    rw [push_of_skips (hskips.trans hcase), push_of_skips hcase]
    rfl
  | false =>
    rw [push_of_not_skips (hskips.trans hcase), push_of_not_skips hcase, toList_upper,
      groups_upper]
    generalize r.groups text.toList = groups
    have hlast : (groups.map (List.map Text.upper)).getLastD [] =
        (groups.getLastD []).map Text.upper :=
      List.getLastD_map (f := List.map Text.upper) (a := [])
    have hclosed : (groups.map (List.map Text.upper)).dropLast.flatMap
          (fun g => close g (r.line + 1) true) =
        (groups.dropLast.flatMap (fun g => close g (r.line + 1) true)).map Finding.upper := by
      rw [← List.map_dropLast, List.flatMap_map, List.map_flatMap]
      exact congrArg groups.dropLast.flatMap (funext fun g => close_map g _ true)
    show ((⟨r.line + 1, _⟩ : Reader), List.flatMap (fun g => close g (r.line + 1) true) _ ++ _) = _
    rw [hlast, hclosed, List.length_map, List.map_append]
    split
    · rfl
    · rfl

theorem finish_upper (r : Reader) :
    r.upper.finish = (r.finish.1.upper, r.finish.2.map Finding.upper) := by
  unfold finish isAccumulating
  rw [show r.upper.pending.isEmpty = r.pending.isEmpty from List.isEmpty_map]
  split
  · show _ = (_, Finding.remark _ _ :: List.map _ _)
    rw [← close_map]
    rfl
  · rfl

end Reader

end Statewright
