import Statewright.Proofs.Commands
import Statewright.Proofs.Lockstep
import Statewright.Proofs.Reader

/-!
# Declarations, item by item

SYMBOLS, STATES and FINAL-STATES deal with their arguments one after the other, each on its own. An
item that is refused is told in its place and stops none of the others. So a statement with many
items does what as many statements with one item each would do, and what is written for it is the
same to the byte: its response has a line for every line that those would have answered.
-/

open Statewright.Text Statewright.Fallible

namespace Statewright

/-- The edit that a keyword makes for each of its arguments, where it deals with them on their
own. -/
def Keyword.declaration? : Keyword → Option (String → Edit)
  | .symbols => some .addSymbol
  | .states => some .addState
  | .finalStates => some .addFinal
  | _ => none

/-! ## Statements -/

/-- One statement for all the items. -/
def together (head : String) (items : List String) : String :=
  unwords (head :: items) ++ ";"

/-- A statement for each of the items, one after the other on the same line. -/
def oneByOne (head : String) (items : List String) : String :=
  unwords (items.map (fun item => together head [item]))

/-- A word that can be an item of a statement. -/
structure IsItem (w : String) : Prop where
  word : IsWord w
  no_semicolon : ';' ∉ w.toList
  no_keyword : Keyword.ofWord? w = none

instance (w : String) : Decidable (IsItem w) :=
  decidable_of_iff (IsWord w ∧ ';' ∉ w.toList ∧ Keyword.ofWord? w = none)
    ⟨fun h => ⟨h.1, h.2.1, h.2.2⟩, fun h => ⟨h.word, h.no_semicolon, h.no_keyword⟩⟩

/-- A keyword that declares items one by one, as it is spelled, and the items behind it. -/
structure Declaring (k : Keyword) (f : String → Edit) (head : String) (items : List String) :
    Prop where
  edits : k.declaration? = some f
  spelled : sameWord k.text head = true
  items : ∀ w ∈ items, IsItem w

variable {k : Keyword} {f : String → Edit} {head : String} {items : List String}

namespace Declaring

theorem isWord (h : Declaring k f head items) : ∀ w ∈ head :: items, IsWord w :=
  List.forall_mem_cons.mpr ⟨Keyword.isWord h.spelled, fun w hw => (h.items w hw).word⟩

theorem single (h : Declaring k f head items) {item : String} (hitem : item ∈ items) :
    Declaring k f head [item] :=
  ⟨h.edits, h.spelled, List.forall_mem_singleton.mpr (h.items item hitem)⟩

theorem tail {item : String} (h : Declaring k f head (item :: items)) :
    Declaring k f head items :=
  ⟨h.edits, h.spelled, fun w hw => h.items w (List.mem_cons_of_mem item hw)⟩

theorem kind_ne (h : Declaring k f head items) : k ≠ .transitions := by
  rintro rfl
  cases h.edits

end Declaring

section Layout

variable {ending : List Char}

theorem toList_together (head : String) (items : List String) (rest : List Char) :
    (together head items).toList ++ rest = (unwords (head :: items)).toList ++ ';' :: rest := by
  rw [together, String.toList_append, List.append_assoc]
  rfl

theorem between_together (h : Declaring k f head items) (rest : List Char) :
    between ';' ((together head items).toList ++ rest) = (head :: items) :: between ';' rest := by
  have hfree : ';' ∉ (unwords (head :: items)).toList :=
    not_mem_unwords (by decide) (List.forall_mem_cons.mpr
      ⟨fun hmem => (Keyword.not_separator h.spelled hmem).2.1 rfl,
        fun w hw => (h.items w hw).no_semicolon⟩)
  rw [toList_together, between_append_sep, between_of_not_mem hfree, wordsIn_unwords h.isWord,
    List.singleton_append]

theorem blanks_ending (h : ending = [] ∨ ending = ['\n']) : Blanks ending := by
  rcases h with rfl | rfl
  · decide
  · decide

theorem between_ending (hending : Blanks ending) : between ';' ending = [[]] := by
  rw [between_of_not_mem (hending.not_mem rfl), wordsIn_blanks hending]

theorem between_oneByOne (h : Declaring k f head items) (hending : Blanks ending) :
    between ';' ((oneByOne head items).toList ++ ending) =
      items.map (fun item => [head, item]) ++ [[]] := by
  induction items with
  | nil =>
    rw [oneByOne, List.map_nil, unwords_nil]
    exact between_ending hending
  | cons item items ih =>
    have hone := h.single List.mem_cons_self
    rw [oneByOne, List.map_cons]
    by_cases hne : items = []
    · rw [hne, List.map_nil, toList_unwords_singleton, between_together hone,
        between_ending hending]
      rfl
    · have hmap : items.map (fun item => together head [item]) ≠ [] := by
        rwa [ne_eq, List.map_eq_nil_iff]
      -- The blank after a semicolon separates no words.
      have hblank : between ';' (' ' :: ((oneByOne head items).toList ++ ending)) =
          between ';' ((oneByOne head items).toList ++ ending) :=
        between_congr rfl (wordsIn_cons_blank rfl _)
      rw [toList_unwords_cons _ hmap, List.append_assoc, between_together hone,
        List.cons_append]
      show _ :: between ';' (' ' :: ((oneByOne head items).toList ++ ending)) = _
      rw [hblank, ih h.tail]
      rfl

theorem lineBreak_not_mem_together (h : Declaring k f head items) :
    '\n' ∉ (together head items).toList := by
  have hfree : '\n' ∉ (unwords (head :: items)).toList := by
    refine not_mem_unwords (by decide) (fun w hw hmem => ?_)
    have hblank := (h.isWord w hw).2 _ hmem
    exact absurd hblank (by decide)
  rw [together, String.toList_append, List.mem_append, not_or]
  exact ⟨hfree, by decide +kernel⟩

theorem lineBreak_not_mem_oneByOne (h : Declaring k f head items) :
    '\n' ∉ (oneByOne head items).toList := by
  refine not_mem_unwords (by decide) (fun w hw => ?_)
  obtain ⟨item, hitem, rfl⟩ := List.mem_map.mp hw
  exact lineBreak_not_mem_together (h.single hitem)

-- A line is all of a source, whether it is ended or not.
theorem cutLine_ending {cs : List Char} (hfree : '\n' ∉ cs)
    (hending : ending = [] ∨ ending = ['\n']) :
    Source.cutLine (Utf8.encode (cs ++ ending)) = (Utf8.encode (cs ++ ending), []) := by
  rcases hending with rfl | rfl
  · rw [List.append_nil]
    exact Source.cutLine_of_no_break (Source.lineBreak_not_mem hfree)
  · exact Source.cutLine_encode hfree []

end Layout

/-! ## Edits on their own -/

theorem Transcript.text_append (items more : Transcript) :
    text (items ++ more) = text items ++ text more := by
  rw [text, List.map_append, String.join_append]
  rfl

namespace Session

theorem editEachAlone_append (m : Machine) (es fs : List Edit) :
    editEachAlone m (es ++ fs) =
      ((editEachAlone (editEachAlone m es).1 fs).1,
        (editEachAlone m es).2 ++ (editEachAlone (editEachAlone m es).1 fs).2) := by
  induction es generalizing m with
  | nil => rfl
  | cons e es ih =>
    rw [List.cons_append, editEachAlone, editEachAlone]
    cases m.edit e with
    | ok edited =>
      dsimp only
      rw [ih, List.append_assoc]
    | error err =>
      dsimp only
      rw [ih]
      rfl

theorem editEachAlone_cons (m : Machine) (e : Edit) (es : List Edit) :
    editEachAlone m (e :: es) =
      ((editEachAlone (editEachAlone m [e]).1 es).1,
        (editEachAlone m [e]).2 ++ (editEachAlone (editEachAlone m [e]).1 es).2) :=
  editEachAlone_append m [e] es

theorem editEachAlone_of_error {m : Machine} {e : Edit} {err : EditError}
    (h : m.edit e = .error err) : editEachAlone m [e] = (m, ["Error: " ++ err.message]) := by
  rw [editEachAlone, h]
  rfl

/-- Lines, each of them ended. -/
def endedLines (lines : List String) : String :=
  String.join (lines.map (· ++ "\n"))

theorem endedLines_cons (line : String) (lines : List String) :
    endedLines (line :: lines) = line ++ "\n" ++ endedLines lines := by
  rw [endedLines, List.map_cons, String.join_cons]
  rfl

theorem endedLines_append (lines more : List String) :
    endedLines (lines ++ more) = endedLines lines ++ endedLines more := by
  rw [endedLines, List.map_append, String.join_append]
  rfl

-- Lines that are told in one response are told one by one.
theorem text_joinLines (lines : List String) :
    Transcript.text ((joinLines lines).toList.map .response) = endedLines lines := by
  cases lines with
  | nil => rfl
  | cons first lines =>
    show String.join ["\n".intercalate (first :: lines) ++ "\n"] = _
    rw [String.join_cons, String.join_nil, String.append_empty]
    induction lines generalizing first with
    | nil =>
      rw [String.intercalate_singleton, endedLines_cons]
      exact String.append_empty.symm
    | cons second lines ih =>
      rw [String.intercalate_cons_of_ne_nil (List.cons_ne_nil _ _), String.append_assoc, ih,
        endedLines_cons first]

/-! ## Statements about items -/

/-- The session after edits were performed on their own and what is to be told of them was
written. -/
def declared (s : Session) (edits : List Edit) : Session :=
  { s with
    machine := (editEachAlone s.machine edits).1
    output := s.output ++ (joinLines (editEachAlone s.machine edits).2).toList.map .response }

theorem tell_declare (s : Session) (edits : List Edit) (line : Nat) :
    (s.declare edits).1.tell line (s.declare edits).2 = s.declared edits := by
  unfold declare declared
  dsimp only
  cases joinLines (editEachAlone s.machine edits).2 with
  | none =>
    rw [Option.toList_none, List.map_nil, List.append_nil]
    rfl
  | some response => rfl

/-- Whether a session reads on, keeps no log and echoes nothing. -/
structure Plain (s : Session) : Prop where
  running : s.running = true
  log : s.log = none
  echo : s.settings.echoScript = false

section Statements

variable {s : Session}

theorem Plain.wrote (h : s.Plain) (items : Transcript) : (s.wrote items).Plain :=
  ⟨h.running, h.log, h.echo⟩

theorem Plain.declared (h : s.Plain) (edits : List Edit) : (s.declared edits).Plain :=
  ⟨h.running, h.log, h.echo⟩

theorem exists_command (hk : k.declaration? = some f) (hsome : items ≠ []) :
    ∃ c : Command, c.keyword = k ∧ c.arguments = items ∧
      ∀ run s, perform run s c = some (s.declare (items.map f)) := by
  cases items with
  | nil => exact absurd rfl hsome
  | cons item items =>
    cases k with
    | symbols =>
      cases hk
      exact ⟨.symbols (item :: items), rfl, rfl, fun _ _ => rfl⟩
    | states =>
      cases hk
      exact ⟨.states (item :: items), rfl, rfl, fun _ _ => rfl⟩
    | finalStates =>
      cases hk
      exact ⟨.finalStates (item :: items), rfl, rfl, fun _ _ => rfl⟩
    | _ => cases hk

theorem runPiece_declaring (h : Declaring k f head items) (hsome : items ≠ []) (hs : s.Plain)
    (run : Runner) (line : Nat) :
    s.runPiece run line (unwords (head :: items)) = some (s.declared (items.map f)) := by
  obtain ⟨c, rfl, rfl, hperform⟩ := exists_command h.edits hsome
  have hparse : Command.parse (unwords (head :: c.arguments)) = .ok c :=
    Command.parse_of_words h.kind_ne (Keyword.ofWord?_of_sameWord h.spelled)
      (wordsIn_unwords h.isWord)
  have hlog : (s.declare (c.arguments.map f)).1.log = none := hs.log
  rw [runPiece_eq, performPiece, hparse]
  dsimp only
  rw [hperform, Option.map_some, answer_of_no_log hlog, tell_declare]

-- A statement is dealt with, and then the session goes on with what else was found.
theorem handle_declaring (h : Declaring k f head items) (hsome : items ≠ []) (hs : s.Plain)
    (run : Runner) (mode : Mode) (line : Nat) (findings : List Finding) :
    s.handle run mode (.statement ⟨unwords (head :: items), line, true⟩ :: findings) =
      (s.declared (items.map f)).handle run mode findings := by
  have hsplit : Language.splitStatement (unwords (head :: items)) = [unwords (head :: items)] := by
    apply Language.splitStatement_unwords h.isWord
    apply Language.growPiece_of_not_keyword
    intro w hw
    rw [Language.isKeyword, (h.items w hw).no_keyword]
    rfl
  have hannounce : s.announce mode line true (unwords (head :: items)) = s := by
    unfold announce
    simp [hs.echo]
  rw [handle, hs.running]
  dsimp only
  rw [Bool.not_true, if_neg Bool.false_ne_true, hsplit,
    runPieces_cons run mode line true hs.running, hannounce, runPiece_declaring h hsome hs]
  rfl

theorem handle_items (h : Declaring k f head items) (hs : s.Plain) (run : Runner) (mode : Mode)
    (line : Nat) :
    s.handle run mode (items.map (fun item => .statement ⟨unwords [head, item], line, true⟩)) =
      some ((items.map f).foldl (fun t e => t.declared [e]) s) := by
  induction items generalizing s with
  | nil => rfl
  | cons item items ih =>
    rw [List.map_cons, handle_declaring (h.single List.mem_cons_self) (List.cons_ne_nil _ _) hs]
    exact ih h.tail (hs.declared [f item])

/-- Edits that are performed and told one by one leave the same machine, and what is written of
them has the same text. -/
theorem foldl_declared (s : Session) (edits : List Edit) :
    ∃ told, edits.foldl (fun t e => t.declared [e]) s =
        { s with machine := (editEachAlone s.machine edits).1, output := s.output ++ told } ∧
      Transcript.text told = endedLines (editEachAlone s.machine edits).2 := by
  induction edits generalizing s with
  | nil => exact ⟨[], by rw [List.append_nil]; rfl, rfl⟩
  | cons e es ih =>
    obtain ⟨told, hfold, htext⟩ := ih (s.declared [e])
    refine ⟨(joinLines (editEachAlone s.machine [e]).2).toList.map .response ++ told, ?_, ?_⟩
    · rw [List.foldl_cons, hfold, editEachAlone_cons s.machine e es]
      unfold declared
      rw [List.append_assoc]
    · rw [Transcript.text_append, text_joinLines, htext, editEachAlone_cons s.machine e es,
        endedLines_append]
      rfl

/-! ## Lines of statements -/

/-- The session after a line was dealt with and the input has ended. -/
def afterLine (s : Session) (mode : Mode) (m : Machine) (told : Transcript) : Session :=
  { s with
    machine := m
    output := s.output ++ (mode.prompts s.settings ++ (told ++ mode.prompts s.settings)) }

-- A line that is all of the input: its statements are dealt with, and nothing waits at the end.
theorem run_line (mode : Mode) (fuel : Nat) (hrunning : s.running = true) {cs ending : List Char}
    (hfree : '\n' ∉ cs) (hending : ending = [] ∨ ending = ['\n']) {groups : List (List String)}
    (hgroups : between ';' (cs ++ ending) = groups ++ [[]]) (hsome : groups ≠ [])
    (hne : ∀ g ∈ groups, g ≠ []) {m : Machine} {told : Transcript}
    (hhandle : (s.wrote (mode.prompts s.settings)).handle (runner (fuel + 1)) mode
        (groups.map (fun g => .statement ⟨unwords g, 1, true⟩)) =
      some { s with machine := m, output := s.output ++ mode.prompts s.settings ++ told }) :
    run (fuel + 2) s mode (Utf8.encode (cs ++ ending)) =
      some (s.afterLine mode m told, .ok ()) := by
  have hline : cs ++ ending ≠ [] := by
    intro hnil
    rw [hnil, between_of_not_mem List.not_mem_nil] at hgroups
    exact hsome (List.append_left_eq_self.mp hgroups.symm)
  have hpush : Reader.start.push (String.ofList (cs ++ ending)) =
      (⟨1, []⟩, groups.map (fun g => .statement ⟨unwords g, 1, true⟩)) := by
    apply Reader.push_closed _ hsome hne
    rw [String.toList_ofList, Reader.groups, hgroups]
    exact splice_nil_left (List.append_ne_nil_of_left_ne_nil hsome _)
  rw [run, runFrom_of_cutLine (fuel + 1) mode hrunning .start hline (cutLine_ending hfree hending),
    hpush, prompt_eq_wrote, hhandle, Option.bind_some, runFrom_end fuel mode (by exact hrunning),
    prompt_eq_wrote]
  unfold wrote afterLine
  dsimp only
  rw [List.append_assoc, List.append_assoc]

/-- One statement for all the items is answered by one response. -/
theorem run_together (h : Declaring k f head items) (hsome : items ≠ []) (hs : s.Plain)
    (mode : Mode) (fuel : Nat) {ending : List Char} (hending : ending = [] ∨ ending = ['\n']) :
    run (fuel + 2) s mode (Utf8.encode ((together head items).toList ++ ending)) =
      some (s.afterLine mode (editEachAlone s.machine (items.map f)).1
        ((joinLines (editEachAlone s.machine (items.map f)).2).toList.map .response), .ok ()) := by
  have hgroups : between ';' ((together head items).toList ++ ending) =
      [head :: items] ++ [[]] := by
    rw [between_together h, between_ending (blanks_ending hending)]
    rfl
  exact run_line mode fuel hs.running (lineBreak_not_mem_together h) hending hgroups
    (List.cons_ne_nil _ _) (List.forall_mem_singleton.mpr (List.cons_ne_nil _ _))
    (handle_declaring h hsome (hs.wrote _) _ mode 1 [])

/-- A statement for each item is answered item by item. -/
theorem run_oneByOne (h : Declaring k f head items) (hsome : items ≠ []) (hs : s.Plain)
    (mode : Mode) (fuel : Nat) {ending : List Char} (hending : ending = [] ∨ ending = ['\n']) :
    ∃ told, Transcript.text told = endedLines (editEachAlone s.machine (items.map f)).2 ∧
      run (fuel + 2) s mode (Utf8.encode ((oneByOne head items).toList ++ ending)) =
        some (s.afterLine mode (editEachAlone s.machine (items.map f)).1 told, .ok ()) := by
  obtain ⟨told, hfold, htext⟩ := foldl_declared (s.wrote (mode.prompts s.settings)) (items.map f)
  have hne : ∀ g ∈ items.map (fun item => [head, item]), g ≠ [] := by
    intro g hg
    obtain ⟨item, -, rfl⟩ := List.mem_map.mp hg
    exact List.cons_ne_nil _ _
  have hhandle := handle_items h (hs.wrote (mode.prompts s.settings)) (runner (fuel + 1)) mode 1
  rw [hfold] at hhandle
  refine ⟨told, htext, run_line mode fuel hs.running (lineBreak_not_mem_oneByOne h) hending
    (between_oneByOne h (blanks_ending hending)) (by rwa [ne_eq, List.map_eq_nil_iff]) hne ?_⟩
  rw [List.map_map]
  exact hhandle

end Statements

/-! ## Items that are refused -/

-- What a declaration is refused for is its item, whatever the machine.
theorem edit_error_of_declaration {k : Keyword} {f : String → Edit}
    (hk : k.declaration? = some f) {m : Machine} {item : String} {err : EditError}
    (h : m.edit (f item) = .error err) (n : Machine) : n.edit (f item) = .error err := by
  have hread : n.readChange (f item) = m.readChange (f item) := by
    cases k with
    | symbols | states | finalStates =>
      cases hk
      rfl
    | _ => cases hk
  rw [Machine.edit_eq, map_eq_error_iff] at h ⊢
  rw [hread]
  exact h

-- A refused edit is told where it stands, and what comes before and after is done without it.
theorem editEachAlone_refused {m : Machine} {e : Edit} {err : EditError} {front : List Edit}
    (h : (editEachAlone m front).1.edit e = .error err) (back : List Edit) :
    editEachAlone m (front ++ e :: back) =
      ((editEachAlone m (front ++ back)).1, (editEachAlone m front).2 ++
        ("Error: " ++ err.message) :: (editEachAlone (editEachAlone m front).1 back).2) := by
  rw [editEachAlone_append, editEachAlone_append, editEachAlone_cons, editEachAlone_of_error h]
  rfl

/-- One statement for all the items, and a statement for each of them on one line, leave the same
session but for the items of the transcript, and the same text. A response has a line for everything
that is told of an item, in the order of the items. An item that is refused is told in its place,
and the machine and what is told of the others are as if it were not there. -/
theorem run_itemwise {k : Keyword} {f : String → Edit} (hk : k.declaration? = some f)
    {head : String} (hhead : sameWord k.text head = true) {items : List String}
    (hitems : ∀ w ∈ items, IsItem w) (hsome : items ≠ []) {s : Session} (hlog : s.log = none)
    (hecho : s.settings.echoScript = false) (mode : Mode) (fuel : Nat) {ending : List Char}
    (hending : ending = [] ∨ ending = ['\n']) :
    let edited := editEachAlone s.machine (items.map f)
    (∃ u v,
      run (fuel + 2) s mode (Utf8.encode ((together head items).toList ++ ending)) =
        some (u, .ok ()) ∧
      run (fuel + 2) s mode (Utf8.encode ((oneByOne head items).toList ++ ending)) =
        some (v, .ok ()) ∧
      v = { u with output := v.output } ∧
      u.output.text = v.output.text ∧
      (s.running = true → u.machine = edited.1 ∧
        u.output.text = s.output.text ++
          (Transcript.text (mode.prompts s.settings) ++
            (endedLines edited.2 ++ Transcript.text (mode.prompts s.settings))))) ∧
    ∀ front item back err, items = front ++ item :: back →
      s.machine.edit (f item) = .error err →
      let before := editEachAlone s.machine (front.map f)
      let after := editEachAlone before.1 (back.map f)
      edited = (after.1, before.2 ++ ("Error: " ++ err.message) :: after.2) ∧
        editEachAlone s.machine ((front ++ back).map f) = (after.1, before.2 ++ after.2) := by
  intro edited
  constructor
  · by_cases hrunning : s.running = true
    · have hs : s.Plain := ⟨hrunning, hlog, hecho⟩
      have h : Declaring k f head items := ⟨hk, hhead, hitems⟩
      obtain ⟨told, htold, hone⟩ := run_oneByOne h hsome hs mode fuel hending
      refine ⟨_, _, run_together h hsome hs mode fuel hending, hone, rfl, ?_, fun _ => ⟨rfl, ?_⟩⟩
      · unfold afterLine
        simp only [Transcript.text_append, text_joinLines, htold]
      · unfold afterLine
        simp only [Transcript.text_append, text_joinLines, edited]
    · -- After EXIT, nothing is read.
      have hstopped : ∀ input, run (fuel + 2) s mode input = some (s, .ok ()) := by
        intro input
        rw [run, runFrom, Bool.eq_false_iff.mpr hrunning]
        rfl
      exact ⟨s, s, hstopped _, hstopped _, rfl, rfl, fun h => absurd h hrunning⟩
  · rintro front item back err rfl hrefused before after
    have herror := edit_error_of_declaration hk hrefused before.1
    constructor
    · show editEachAlone s.machine ((front ++ item :: back).map f) = _
      rw [List.map_append, List.map_cons, editEachAlone_refused herror, editEachAlone_append]
    · rw [List.map_append, editEachAlone_append]

/-- A session without echoes whose machine has a final state. -/
def begun : Session :=
  { start { Settings.default with echoScript := false } ⟨.zero, .epoch⟩ (.empty []) with
    machine := Machine.empty.afterAll [.addFinal "q0"] }

/-- The premises hold of final states of which one is final already, one is no name, and one is
declared on the way and named twice. -/
theorem run_itemwise_begun :
    ∃ u v,
      run 2 begun .interactive
        (Utf8.encode ((together "final-states" ["Q0", "a.b", "q1", "Q1"]).toList ++ [])) =
          some (u, .ok ()) ∧
      run 2 begun .interactive
        (Utf8.encode ((oneByOne "final-states" ["Q0", "a.b", "q1", "Q1"]).toList ++ [])) =
          some (v, .ok ()) ∧
      u.machine = v.machine ∧ u.output.text = v.output.text ∧
      u.output.text = "? Warning: Q0 was already a final state\n" ++
        "Error: Invalid state 'a.b': a state must be a non-empty alphanumeric name\n" ++
        "Warning: Q1 was not previously declared as a state\n" ++
        "Warning: Q1 was already a final state\n? " ∧
      u.machine = (editEachAlone begun.machine (["Q0", "q1", "Q1"].map .addFinal)).1 := by
  have hhead : sameWord Keyword.finalStates.text "final-states" = true := by decide +kernel
  have hitems : ∀ w ∈ ["Q0", "a.b", "q1", "Q1"], IsItem w := by decide +kernel
  obtain ⟨⟨u, v, hu, hv, hsession, htext, hrunning⟩, hrefused⟩ := run_itemwise rfl hhead hitems
    (List.cons_ne_nil _ _) (s := begun) rfl rfl .interactive 0 (.inl rfl)
  obtain ⟨hmachine, hshown⟩ := hrunning rfl
  obtain ⟨hall, hothers⟩ := hrefused ["Q0"] "a.b" ["q1", "Q1"] _ rfl rfl
  refine ⟨u, v, hu, hv, by rw [hsession], htext, ?_, ?_⟩
  · rw [hshown]
    decide +kernel
  · rw [hmachine, hall]
    exact (congrArg Prod.fst hothers).symm

end Session

end Statewright
