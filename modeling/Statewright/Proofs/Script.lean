import Statewright.Machine.Script
import Statewright.Proofs.Quiet

/-!
# Scripts of machines

The script of a machine is run in a new session. Where no state is named like a keyword, it writes
nothing and rebuilds the definition. A state that is named like a keyword ends the statement in
which it is declared, and the session remarks on the missing semicolon.
-/

open Statewright.Text

namespace Statewright

/-! ## Names as words -/

theorem isWord_of_isNameChar {w : String} (hne : w ≠ "")
    (h : ∀ c ∈ w.toList, isNameChar c = true) : IsWord w := by
  refine ⟨hne, fun c hc => ?_⟩
  have hcode := isNameChar_iff.mp (h c hc)
  simp only [isBlank, Bool.or_eq_false_iff, Bool.and_eq_false_iff, decide_eq_false_iff_not,
    beq_eq_false_iff_ne]
  omega

theorem not_mem_of_isNameChar {w : String} (h : ∀ c ∈ w.toList, isNameChar c = true) {c : Char}
    (hc : isNameChar c = false) : c ∉ w.toList := by
  intro hmem
  rw [h c hmem] at hc
  cases hc

/-- A name that stands for nothing else in a statement. -/
structure IsName (w : String) : Prop where
  nonempty : w ≠ ""
  canonical : ∀ c ∈ w.toList, isNameChar c = true
  not_keyword : Keyword.ofWord? w = none

theorem IsName.isWord {w : String} (h : IsName w) : IsWord w :=
  isWord_of_isNameChar h.nonempty h.canonical

theorem Command.Writable.of_names {c : Command} (h : ∀ w ∈ c.arguments, IsName w) :
    c.Writable where
  word w hw := (h w hw).isWord
  no_semicolon w hw := not_mem_of_isNameChar (h w hw).canonical (by decide)
  no_keyword _ w hw := (h w hw).not_keyword
  no_comma _ w hw := not_mem_of_isNameChar (h w hw).canonical (by decide)

theorem StateName.isName {q : StateName} (h : Keyword.ofWord? q.text = none) : IsName q.text :=
  ⟨q.nonempty, q.canonical, h⟩

-- A symbol is never a keyword, because no keyword is a single character.
theorem Symbol.isName (s : Symbol) : IsName (toString s) where
  nonempty := by
    intro heq
    have hchars := s.toList_toString
    rw [heq] at hchars
    cases hchars
  canonical := by
    intro c hc
    rw [s.toList_toString, List.mem_singleton] at hc
    rw [hc]
    exact s.canonical
  not_keyword := by
    cases hk : Keyword.ofWord? (toString s) with
    | none => rfl
    | some k =>
      -- Capitals have the same length, and the shortest keyword has three letters.
      have hsame := beq_iff_eq.mp (Keyword.sameWord_of_ofWord? hk)
      have hlength := congrArg (fun w => w.toList.length) hsame
      simp only [toList_upper, List.length_map, s.toList_toString, List.length_singleton] at hlength
      exfalso
      revert hlength
      cases k
      all_goals decide +kernel

/-! ## Words of a script -/

/-- Words, each behind one space. -/
def spaced (ws : List String) : List Char :=
  ws.flatMap (fun w => ' ' :: w.toList)

theorem spaced_cons (w : String) (ws : List String) :
    spaced (w :: ws) = ' ' :: (w.toList ++ spaced ws) :=
  rfl

theorem Spaced.of_spaced (ws : List String) : Spaced ws (spaced ws) := by
  induction ws with
  | nil => exact .nil
  | cons w ws ih => exact .cons [' '] (by decide) (by decide) ih

theorem lineBreak_not_mem_spaced {ws : List String} (h : ∀ w ∈ ws, IsWord w) :
    '\n' ∉ spaced ws := by
  induction ws with
  | nil => exact List.not_mem_nil
  | cons w ws ih =>
    rw [spaced_cons, List.mem_cons, List.mem_append, not_or, not_or]
    refine ⟨by decide, fun hmem => ?_, ih (fun v hv => h v (List.mem_cons_of_mem w hv))⟩
    have hblank := (h w List.mem_cons_self).2 '\n' hmem
    exact absurd hblank (by decide)

theorem spaced_eq_unwords {ws : List String} (hne : ws ≠ []) :
    spaced ws = ' ' :: (unwords ws).toList := by
  induction ws with
  | nil => exact absurd rfl hne
  | cons w ws ih =>
    rw [spaced_cons]
    by_cases hws : ws = []
    · rw [hws, toList_unwords_singleton]
      exact congrArg (' ' :: ·) (List.append_nil _)
    · rw [toList_unwords_cons w hws, ih hws]

/-- Triples, each behind a comma. -/
def listed (ts : List Triple) : List Char :=
  ts.flatMap (fun t => ',' :: spaced (Command.tripleWords t))

theorem Listed.of_listed (ts : List Triple) : Listed ts (listed ts) := by
  induction ts with
  | nil => exact .nil
  | cons t ts ih =>
    have hcons := Listed.cons (t := t) [] [' '] (by decide) (by decide)
      (.of_spaced [t.source, t.target]) ih
    rw [List.singleton_append, ← List.append_assoc, ← List.cons_append] at hcons
    exact hcons

theorem lineBreak_not_mem_listed {ts : List Triple}
    (h : ∀ t ∈ ts, ∀ w ∈ Command.tripleWords t, IsWord w) : '\n' ∉ listed ts := by
  intro hmem
  obtain ⟨t, ht, hmem⟩ := List.mem_flatMap.mp hmem
  rcases List.mem_cons.mp hmem with heq | hmem
  · exact absurd heq (by decide)
  · exact lineBreak_not_mem_spaced (h t ht) hmem

def Transition.triple (t : Transition) : Triple :=
  ⟨toString t.symbol, t.source.text, t.target.text⟩

theorem Transition.toString_eq (t : Transition) :
    toString t = unwords (Command.tripleWords t.triple) := by
  show toString t.symbol ++ " " ++ t.source.text ++ " " ++ t.target.text = _
  rw [unwords, Command.tripleWords, String.intercalate_cons_of_ne_nil (List.cons_ne_nil _ _),
    String.intercalate_cons_of_ne_nil (List.cons_ne_nil _ _), String.intercalate_singleton]
  simp only [String.append_assoc]
  rfl

theorem spaced_triple (t : Transition) :
    spaced (Command.tripleWords t.triple) = ' ' :: (toString t).toList := by
  rw [Transition.toString_eq]
  exact spaced_eq_unwords (List.cons_ne_nil _ _)

theorem toList_intercalate_triples (t : Transition) (ts : List Transition) :
    ' ' :: (", ".intercalate ((t :: ts).map toString)).toList =
      spaced (Command.tripleWords t.triple) ++ listed (ts.map Transition.triple) := by
  induction ts generalizing t with
  | nil =>
    rw [List.map_singleton, String.intercalate_singleton, ← spaced_triple]
    exact (List.append_nil _).symm
  | cons u ts ih =>
    have hne : (u :: ts).map (toString : Transition → String) ≠ [] := List.cons_ne_nil _ _
    have hcomma : ", ".toList = [',', ' '] := by simp
    rw [List.map_cons, String.intercalate_cons_of_ne_nil hne, String.toList_append,
      String.toList_append, List.append_assoc, ← List.cons_append, ← spaced_triple, hcomma,
      List.cons_append, List.singleton_append, ih u]
    rfl

theorem toList_scriptLine {k : Keyword} {arguments : String} (hne : arguments ≠ "") :
    (Machine.scriptLine k.text arguments).toList =
      k.text.toList ++ (' ' :: arguments.toList ++ [';', '\n']) := by
  rw [Machine.scriptLine, if_neg hne]
  show (k.text ++ " " ++ arguments ++ ";\n").toList = _
  simp [String.toList_append]

theorem toList_scriptLine_unwords {k : Keyword} {ws : List String} (h : ∀ w ∈ ws, IsWord w)
    (hne : ws ≠ []) :
    (Machine.scriptLine k.text (unwords ws)).toList =
      k.text.toList ++ (spaced ws ++ [';', '\n']) := by
  have htext : unwords ws ≠ "" := by
    intro heq
    have hwords := wordsIn_unwords h
    rw [heq] at hwords
    exact hne hwords.symm
  rw [toList_scriptLine htext, ← spaced_eq_unwords hne]

/-! ## Sections of a script -/

namespace Machine

variable {m next : Machine}

-- A section of names is one declaration, or nothing.
theorem declarations_names {α : Type} (made : α → Change) {c : Command} {entries : List α}
    {name : α → String} (kind : c.keyword ≠ .transitions)
    (arguments : c.arguments = entries.map name)
    (edits : c.edits = entries.map (fun a => (made a).written))
    (hname : ∀ a ∈ entries, IsName (name a)) (quiet : m.Quietly (entries.map made) next) :
    Declarations 1 m (scriptLine c.keyword.text (unwords (entries.map name))).toList next := by
  have hedits : c.edits = (entries.map made).map Change.written := by
    rw [edits, List.map_map]
    rfl
  rw [← arguments]
  by_cases hne : entries = []
  · subst hne
    cases quiet
    rw [arguments, List.map_nil, unwords_nil, scriptLine, if_pos rfl, String.toList_empty]
    exact .nil 1 m
  · have writable : c.Writable := by
      apply Command.Writable.of_names
      intro w hw
      rw [arguments] at hw
      obtain ⟨a, ha, rfl⟩ := List.mem_map.mp hw
      exact hname a ha
    have hsome : c.arguments ≠ [] := by
      rw [arguments]
      exact fun heq => hne (List.map_eq_nil_iff.mp heq)
    rw [toList_scriptLine_unwords writable.word hsome]
    exact .cons (.plain kind (.of_spaced c.arguments)) writable
      (lineBreak_not_mem_spaced writable.word) hedits
      (fun heq => hne (List.map_eq_nil_iff.mp heq)) quiet (.nil 0 next)

theorem declarations_transitions {ts : List Transition}
    (hname : ∀ t ∈ ts, ∀ w ∈ Command.tripleWords t.triple, IsName w)
    (quiet : m.Quietly (ts.map .transition) next) :
    Declarations 1 m
      (scriptLine "TRANSITIONS" (", ".intercalate (ts.map toString))).toList next := by
  cases ts with
  | nil =>
    cases quiet
    exact .nil 1 m
  | cons t ts =>
    have htext := toList_intercalate_triples t ts
    have hne : ", ".intercalate ((t :: ts).map toString) ≠ "" := by
      intro heq
      rw [heq, String.toList_empty] at htext
      have hnil := (List.append_eq_nil_iff.mp (List.cons.inj htext).2.symm).1
      have hsymbol : (toString t.symbol).toList = [] := (List.append_eq_nil_iff.mp hnil).1
      rw [Symbol.toList_toString] at hsymbol
      cases hsymbol
    have writable : Command.Writable (.transitions ((t :: ts).map Transition.triple)) := by
      apply Command.Writable.of_names
      intro w hw
      obtain ⟨u, hu, hw⟩ := List.mem_flatMap.mp hw
      obtain ⟨v, hv, rfl⟩ := List.mem_map.mp hu
      exact hname v hv w hw
    have hbreak : '\n' ∉ spaced (Command.tripleWords t.triple) ++
        listed (ts.map Transition.triple) := by
      rw [List.mem_append, not_or]
      refine ⟨lineBreak_not_mem_spaced (fun w hw => (hname t List.mem_cons_self w hw).isWord),
        lineBreak_not_mem_listed (fun u hu w hw => ?_)⟩
      obtain ⟨v, hv, rfl⟩ := List.mem_map.mp hu
      exact (hname v (List.mem_cons_of_mem t hv) w hw).isWord
    rw [show "TRANSITIONS" = Keyword.transitions.text from rfl, toList_scriptLine hne, htext]
    have edits : Command.edits (.transitions ((t :: ts).map Transition.triple)) =
        ((t :: ts).map Change.transition).map Change.written := by
      rw [List.map_map]
      exact List.map_map
    have hline := Declarations.cons (.triples (.of_spaced _) (.of_listed _)) writable hbreak edits
      (List.cons_ne_nil _ _) quiet (.nil 0 next)
    exact hline

/-! ## Whole scripts -/

variable {m : Machine}

theorem declarations_symbols (stamp : Stamp) (h : m.WellFormed) :
    ∃ next, Declarations 1 .empty
        (scriptLine "SYMBOLS" (" ".intercalate (m.symbols.map toString))).toList next ∧
      next.Quietly (m.states.map .state ++ m.initial.toList.map .initial ++
        m.finals.map .final ++ m.transitions.map .transition) { m with current := m.initial } := by
  have hquiet := Snapshot.quietly_definition stamp h
  rw [List.append_assoc, List.append_assoc, List.append_assoc] at hquiet
  obtain ⟨next, hsymbols, hrest⟩ := hquiet.exists_of_append
  rw [← List.append_assoc, ← List.append_assoc] at hrest
  exact ⟨next, declarations_names .symbol (c := .symbols _) (by rintro ⟨⟩) rfl
    List.map_map (fun s _ => s.isName) hsymbols, hrest⟩

-- The script of a machine is made of declarations that lead to its definition, if no state is
-- named like a keyword.
theorem declarations_script (stamp : Stamp) (h : m.WellFormed)
    (hfree : ∀ q ∈ m.states, Keyword.ofWord? q.text = none) :
    Declarations 5 .empty m.script.toList { m with current := m.initial } := by
  -- All names in the script are symbols or declared states.
  have hname : ∀ q ∈ m.states, IsName q.text := fun q hq => StateName.isName (hfree q hq)
  obtain ⟨next, symbols, hquiet⟩ := declarations_symbols stamp h
  obtain ⟨m₄, hquiet, htransitions⟩ := hquiet.exists_of_append
  obtain ⟨m₃, hquiet, hfinals⟩ := hquiet.exists_of_append
  obtain ⟨m₂, hstates, hinitial⟩ := hquiet.exists_of_append
  have states := declarations_names .state (c := .states (m.states.map toString)) (by rintro ⟨⟩) rfl
    List.map_map hname hstates
  have initial : Declarations 1 m₂
      (scriptLine "INITIAL-STATE" ((m.initial.map toString).getD "")).toList m₃ := by
    cases hi : m.initial with
    | none =>
      rw [hi] at hinitial
      cases hinitial
      exact .nil 1 _
    | some q =>
      rw [hi] at hinitial
      have hinitialName : ∀ r ∈ [q], IsName r.text := by
        intro r hr
        rw [List.mem_singleton.mp hr]
        exact hname q (h.initial_declared q hi)
      have hline := declarations_names .initial (c := .initialState q.text) (by rintro ⟨⟩) rfl rfl
        hinitialName hinitial
      have htext : scriptLine "INITIAL-STATE" ((Option.map toString (some q)).getD "") =
          scriptLine Keyword.initialState.text (unwords [q.text]) := by
        rw [unwords, String.intercalate_singleton]
        rfl
      rw [htext]
      exact hline
  have finals := declarations_names .final (c := .finalStates (m.finals.map toString))
    (by rintro ⟨⟩) rfl List.map_map (fun q hq => hname q (h.finals_declared q hq)) hfinals
  have htriple : ∀ t ∈ m.transitions, ∀ w ∈ Command.tripleWords t.triple, IsName w := by
    intro t ht w hw
    obtain ⟨-, hsource, htarget⟩ := h.transitions_declared t ht
    simp only [Command.tripleWords, Transition.triple, List.mem_cons, List.not_mem_nil,
      or_false] at hw
    rcases hw with rfl | rfl | rfl
    · exact t.symbol.isName
    · exact hname t.source hsource
    · exact hname t.target htarget
  have transitions := declarations_transitions htriple htransitions
  unfold script
  rw [String.toList_append, String.toList_append, String.toList_append, String.toList_append]
  exact (((symbols.append states).append initial).append finals).append transitions

end Machine

/-! ## States that are named like keywords -/

namespace Session

-- The session goes on after a statement about states.
theorem running_of_states {run : Runner} {line : Nat} {s t : Session} {names : List String}
    (hnames : ∀ w ∈ names, IsWord w)
    (h : s.runPiece run line (unwords (Keyword.states.text :: names)) = some t) :
    t.running = s.running := by
  have hparse : Command.parse (unwords (Keyword.states.text :: names)) = .ok (.states names) := by
    apply Command.parse_of_words (c := .states names) (by rintro ⟨⟩) (Keyword.ofWord?_text .states)
    exact wordsIn_unwords (List.forall_mem_cons.mpr ⟨Keyword.isWord_text .states, hnames⟩)
  rw [runPiece_eq, performPiece, hparse] at h
  -- Without names it is a query, which declares nothing.
  cases names with
  | nil =>
    cases h
    exact answer_running _ _ _ _
  | cons w names =>
    cases h
    exact answer_running _ _ _ _

-- A keyword among the names ends the statement before it, and the session remarks on that.
theorem remark_of_keyword {run : Runner} (hrun : run.Keeps (fun s t => s.output <+: t.output))
    {s t : Session} (hrunning : s.running = true) {mode : Mode} {line : Nat} {names : List String}
    (hnames : ∀ w ∈ names, IsWord w) (hkeyword : ∃ w ∈ names, Language.isKeyword w = true)
    (h : s.runPieces run mode line true
      (Language.splitStatement (unwords (Keyword.states.text :: names))) = some t) :
    ∃ word, .semicolonBefore line word ∈ t.output := by
  have hhead : Keyword.ofWord? Keyword.states.text ≠ some .execute := by
    rw [Keyword.ofWord?_text]
    decide
  have hall : ∀ w ∈ Keyword.states.text :: names, IsWord w :=
    List.forall_mem_cons.mpr ⟨Keyword.isWord_text .states, hnames⟩
  obtain ⟨taken, piece, pieces, htaken, hsplit⟩ :=
    Language.splitStatement_of_keyword hhead hall hkeyword
  rw [hsplit, runPieces_cons run mode line true hrunning] at h
  obtain ⟨u, hfirst, h⟩ := Option.bind_eq_some_iff.mp h
  have hgoing : u.running = true := by
    rw [running_of_states (fun w hw => hnames w (htaken.subset hw)) hfirst, announce_running,
      hrunning]
  rw [runPieces_cons run mode line false hgoing] at h
  obtain ⟨v, hsecond, hrest⟩ := Option.bind_eq_some_iff.mp h
  -- What is written before the second piece is still there in the end.
  have hgrows := (announce_second mode line u piece).trans
    ((output_kept.runPiece hrun hsecond).trans (output_kept.runPieces hrun hrest))
  exact ⟨_, hgrows.subset (List.mem_append_right _ (List.mem_singleton.mpr rfl))⟩

-- The line that declares states is remarked on if one of them is named like a keyword.
theorem output_of_keyword {fuel line : Nat} {s t : Session} {result : Except FileError Unit}
    (hrunning : s.running = true) {names : List String} (hnames : ∀ w ∈ names, IsWord w)
    (hsemicolon : ∀ w ∈ names, ';' ∉ w.toList)
    (hkeyword : ∃ w ∈ names, Language.isKeyword w = true) (rest : List Char)
    (h : runFrom fuel .script (.bytes (Utf8.encode
      ((Machine.scriptLine Keyword.states.text (unwords names)).toList ++ rest)))
      ⟨line, []⟩ s = some (t, result)) : t.output ≠ [] := by
  have hne : names ≠ [] := by
    obtain ⟨w, hw, -⟩ := hkeyword
    exact List.ne_nil_of_mem hw
  have hspaced := Spaced.of_spaced names
  have hwords : wordsIn (Keyword.states.text.toList ++ spaced names) =
      Keyword.states.text :: names := by
    rw [hspaced.wordsIn_append hnames,
      wordsIn_of_isWord (Keyword.isWord_text .states), List.singleton_append]
  rw [toList_scriptLine_unwords (k := .states) hnames hne, List.append_assoc, List.append_assoc]
    at h
  cases fuel with
  | zero =>
    rw [runFrom] at h
    cases h
  | succ fuel =>
    rw [List.cons_append, List.cons_append, runFrom_statement fuel hrunning line hwords
      (hspaced.not_mem rfl hsemicolon) (lineBreak_not_mem_spaced hnames)] at h
    obtain ⟨u, hpieces, hrest⟩ := Option.bind_eq_some_iff.mp h
    obtain ⟨word, hremark⟩ :=
      remark_of_keyword (output_kept.runner fuel) hrunning hnames hkeyword hpieces
    exact List.ne_nil_of_mem ((output_kept.runFrom hrest).subset hremark)

end Session

namespace Machine

variable {m : Machine}

/-- The script of a machine without a state that is named like a keyword rebuilds the definition and
writes nothing. -/
theorem run_script (h : m.WellFormed) (hfree : ∀ q ∈ m.states, Keyword.ofWord? q.text = none)
    {s : Session} (hs : s.Ready) (hempty : s.machine = .empty) {fuel : Nat} (hfuel : 5 < fuel) :
    Session.run fuel s .script (Utf8.encode m.script.toList) =
      some ({ s with machine := { m with current := m.initial } }, .ok ()) := by
  obtain ⟨fuel', line, hle, hrun⟩ :=
    (declarations_script s.stamp h hfree).runFrom [] hs hempty (by omega : 5 ≤ fuel) 0
  obtain ⟨k, rfl⟩ : ∃ k, fuel' = k + 1 := ⟨fuel' - 1, by omega⟩
  rw [List.append_nil] at hrun
  exact hrun.trans (Session.runFrom_end k .script (hs.withMachine _).running line)

-- The script of a machine with a state that is named like a keyword does not run in silence.
theorem output_run_script (h : m.WellFormed)
    (hkeyword : ∃ q ∈ m.states, Language.isKeyword q.text = true) {s t : Session} (hs : s.Ready)
    (hempty : s.machine = .empty) {fuel : Nat} {result : Except FileError Unit}
    (hrun : Session.run fuel s .script (Utf8.encode m.script.toList) = some (t, result)) :
    t.output ≠ [] := by
  have hnames : ∀ w ∈ m.states.map StateName.text, IsWord w := by
    intro w hw
    obtain ⟨q, -, rfl⟩ := List.mem_map.mp hw
    exact isWord_of_isNameChar q.nonempty q.canonical
  have hsemicolon : ∀ w ∈ m.states.map StateName.text, ';' ∉ w.toList := by
    intro w hw
    obtain ⟨q, -, rfl⟩ := List.mem_map.mp hw
    exact not_mem_of_isNameChar q.canonical (by decide)
  have hword : ∃ w ∈ m.states.map StateName.text, Language.isKeyword w = true := by
    obtain ⟨q, hq, hword⟩ := hkeyword
    exact ⟨q.text, List.mem_map_of_mem hq, hword⟩
  have hsection : scriptLine "STATES" (" ".intercalate (m.states.map toString)) =
      scriptLine Keyword.states.text (unwords (m.states.map StateName.text)) := rfl
  obtain ⟨next, symbols, -⟩ := declarations_symbols s.stamp h
  unfold script at hrun
  rw [hsection, String.append_assoc, String.append_assoc, String.append_assoc,
    String.toList_append, String.toList_append] at hrun
  cases fuel with
  | zero =>
    rw [Session.run, Session.runFrom] at hrun
    cases hrun
  | succ fuel =>
    obtain ⟨fuel', line, -, hfront⟩ := symbols.runFrom _ hs hempty (Nat.le_add_left 1 fuel) 0
    exact Session.output_of_keyword (hs.withMachine next).running hnames hsemicolon hword _
      (hfront.symm.trans hrun)

/-- The script of a machine runs in silence in a new session exactly if no state is named like a
keyword, and then it leaves the machine with its definition, in its initial state. -/
theorem run_script_silent_iff (hm : m.Reachable) (settings : Settings)
    (hecho : settings.echoScript = false) (stamp : Stamp) (files : FileTree) {fuel : Nat}
    (hfuel : 5 < fuel) :
    ((∃ s, Session.run fuel (Session.start settings stamp files) .script
        (Utf8.encode m.script.toList) = some (s, .ok ()) ∧ s.output = []) ↔
      ∀ q ∈ m.states, Keyword.ofWord? q.text = none) ∧
    ∀ s result, Session.run fuel (Session.start settings stamp files) .script
        (Utf8.encode m.script.toList) = some (s, result) → s.output = [] →
      result = .ok () ∧ s.machine = { m with current := m.initial } := by
  have hs : (Session.start settings stamp files).Ready := ⟨rfl, rfl, hecho⟩
  -- Silence excludes keywords, whatever the run ends with.
  have hsilent : ∀ s result, Session.run fuel (Session.start settings stamp files) .script
      (Utf8.encode m.script.toList) = some (s, result) → s.output = [] →
      ∀ q ∈ m.states, Keyword.ofWord? q.text = none := by
    intro s result hrun hsilent q hq
    cases hword : Keyword.ofWord? q.text with
    | none => rfl
    | some k =>
      have hkeyword : Language.isKeyword q.text = true := by
        rw [Language.isKeyword, hword]
        rfl
      exact absurd hsilent (output_run_script hm.wellFormed ⟨q, hq, hkeyword⟩ hs rfl hrun)
  refine ⟨⟨?_, ?_⟩, ?_⟩
  · rintro ⟨s, hrun, hout⟩
    exact hsilent s _ hrun hout
  · intro hfree
    exact ⟨_, run_script hm.wellFormed hfree hs rfl hfuel, rfl⟩
  · intro s result hrun hout
    rw [run_script hm.wellFormed (hsilent s result hrun hout) hs rfl hfuel] at hrun
    cases hrun
    exact ⟨rfl, rfl⟩

/-- Operations that declare a symbol and a state of the given name. -/
def declaring (name : String) : List Operation :=
  [.edit (.addSymbol "x"), .edit (.addState name)]

/-- Settings in which scripts are not echoed. -/
def withoutEcho : Settings :=
  { Settings.default with echoScript := false }

/-- The premises hold of a machine whose script does not run in silence, and of one whose script
does. -/
theorem run_script_declaring :
    (¬ ∃ s, Session.run 6 (Session.start withoutEcho ⟨.zero, .epoch⟩ (.empty [])) .script
        (Utf8.encode (empty.operateAll (declaring "print")).script.toList) = some (s, .ok ()) ∧
        s.output = []) ∧
    ∃ s, Session.run 6 (Session.start withoutEcho ⟨.zero, .epoch⟩ (.empty [])) .script
        (Utf8.encode (empty.operateAll (declaring "prints")).script.toList) = some (s, .ok ()) ∧
        s.output = [] := by
  have hprint := run_script_silent_iff (m := empty.operateAll (declaring "print")) ⟨_, rfl⟩
    withoutEcho rfl ⟨.zero, .epoch⟩ (.empty []) (by decide : 5 < 6)
  have hprints := run_script_silent_iff (m := empty.operateAll (declaring "prints")) ⟨_, rfl⟩
    withoutEcho rfl ⟨.zero, .epoch⟩ (.empty []) (by decide : 5 < 6)
  exact ⟨fun hsilent => absurd (hprint.1.mp hsilent) (by decide +kernel),
    hprints.1.mpr (by decide +kernel)⟩

end Machine

end Statewright
