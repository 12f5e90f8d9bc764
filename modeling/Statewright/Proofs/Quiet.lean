import Statewright.Proofs.Layout
import Statewright.Proofs.Rebuild
import Statewright.Proofs.Runs

/-!
# Silent scripts

A script whose lines are declarations, each of them in order, makes its changes and writes nothing.
-/

open Statewright.Text

namespace Statewright

/-- The edits that a declaration asks for. -/
def Command.edits : Command → List Edit
  | symbols names => names.map .addSymbol
  | states names => names.map .addState
  | initialState name => [.setInitial name]
  | finalStates names => names.map .addFinal
  | transitions triples => triples.map (fun t => .addTransition t.symbol t.source t.target)
  | _ => []

namespace Machine.Quietly

variable {m next last : Machine} {cs ds : List Change}

theorem editEachAlone (h : Quietly m cs next) :
    Session.editEachAlone m (cs.map Change.written) = (next, []) := by
  induction h with
  | nil m => rfl
  | @cons m next last c cs admits quiet _ ih =>
    have hedit := edit_written admits
    rw [quiet] at hedit
    rw [List.map_cons, Session.editEachAlone, hedit]
    dsimp only
    rw [ih]
    rfl

theorem exists_of_append (h : Quietly m (cs ++ ds) last) :
    ∃ next, Quietly m cs next ∧ Quietly next ds last := by
  induction cs generalizing m with
  | nil => exact ⟨m, .nil m, h⟩
  | cons c cs ih =>
    cases h with
    | cons admits quiet rest =>
      obtain ⟨next, hfront, hback⟩ := ih rest
      exact ⟨next, .cons admits quiet hfront, hback⟩

end Machine.Quietly

namespace Session

/-- A session that writes nothing of its own accord. -/
structure Ready (s : Session) : Prop where
  running : s.running = true
  no_log : s.log = none
  no_echo : s.settings.echoScript = false

namespace Ready

variable {s : Session} {run : Runner} {c : Command} {changes : List Change} {next : Machine}

theorem withMachine (h : s.Ready) (m : Machine) : Ready { s with machine := m } :=
  ⟨h.running, h.no_log, h.no_echo⟩

-- A declaration whose changes give no notice is answered with silence.
theorem perform (run : Runner) (s : Session) (hedits : c.edits = changes.map Change.written)
    (hne : changes ≠ []) (hquiet : s.machine.Quietly changes next) :
    s.perform run c = some ({ s with machine := next }, .ok none) := by
  -- A declaration without arguments would be a query, and be answered.
  have hsome : c.edits ≠ [] := by
    rw [hedits]
    exact fun heq => hne (List.map_eq_nil_iff.mp heq)
  have heach : s.declare c.edits = ({ s with machine := next }, .ok none) := by
    rw [declare, hedits, hquiet.editEachAlone]
    rfl
  have hall : s.editAll c.edits = ({ s with machine := next }, .ok none) := by
    obtain ⟨applied, hediting⟩ := hquiet.editAll
    rw [Session.editAll, hedits, hediting]
    rfl
  cases c with
  | symbols names =>
    cases names with
    | nil => exact absurd rfl hsome
    | cons w names => exact congrArg some heach
  | states names =>
    cases names with
    | nil => exact absurd rfl hsome
    | cons w names => exact congrArg some heach
  | finalStates names =>
    cases names with
    | nil => exact absurd rfl hsome
    | cons w names => exact congrArg some heach
  | transitions triples =>
    cases triples with
    | nil => exact absurd rfl hsome
    | cons t triples => exact congrArg some hall
  | initialState name => exact congrArg some hall
  | _ => exact absurd rfl hsome

theorem answer (h : s.Ready) (line : Nat) (piece : String) :
    s.answer line piece (.ok none) = s := by
  unfold Session.answer
  split
  · rfl
  · show s.record _ _ = s
    rw [record, h.no_log]

theorem runPieces (h : s.Ready) {text : String} (hparse : Command.parse text = .ok c)
    (hedits : c.edits = changes.map Change.written) (hne : changes ≠ [])
    (hquiet : s.machine.Quietly changes next) (line : Nat) :
    s.runPieces run .script line true [text] = some { s with machine := next } := by
  have hannounce : s.announce .script line true text = s := by
    show (if (_ && s.settings.echoScript) = true then _ else s) = s
    rw [h.no_echo, Bool.and_false, if_neg Bool.false_ne_true]
  rw [runPieces_cons run .script line true h.running, hannounce, runPiece_eq, performPiece, hparse]
  dsimp only
  rw [perform run s hedits hne hquiet, Option.map_some, Option.bind_some,
    (h.withMachine next).answer]
  rfl

end Ready

end Session

/-! ## Lines of a script -/

theorem Keyword.lineBreak_not_mem_text (k : Keyword) : '\n' ∉ k.text.toList := by
  intro hmem
  have hblank := (not_separator (sameWord_text k) hmem).1
  exact absurd hblank (by decide)

-- A line that is one statement: its pieces are run, and then the run goes on behind it.
theorem Session.runFrom_statement (fuel : Nat) {s : Session} (hrunning : s.running = true)
    (line : Nat) {k : Keyword} {cs : List Char} {ws : List String}
    (hwords : wordsIn (k.text.toList ++ cs) = k.text :: ws) (hsemicolon : ';' ∉ cs)
    (hbreak : '\n' ∉ cs) (rest : List Char) :
    runFrom (fuel + 1) .script
        (.bytes (Utf8.encode (k.text.toList ++ (cs ++ ';' :: '\n' :: rest)))) ⟨line, []⟩ s =
      (s.runPieces (runner fuel) .script (line + 1) true
        (Language.splitStatement (unwords (k.text :: ws)))).bind
        (fun t => runFrom fuel .script (.bytes (Utf8.encode rest)) ⟨line + 1, []⟩ t) := by
  have hfree : ';' ∉ k.text.toList ++ cs := by
    rw [List.mem_append, not_or]
    exact ⟨fun hmem => (Keyword.not_separator (Keyword.sameWord_text k) hmem).2.1 rfl, hsemicolon⟩
  have hne : wordsIn (k.text.toList ++ cs) ≠ [] := by
    rw [hwords]
    exact List.cons_ne_nil _ _
  have hpart : '\n' ∉ k.text.toList ++ cs ++ [';'] := by
    rw [List.mem_append, List.mem_append, not_or, not_or]
    exact ⟨⟨k.lineBreak_not_mem_text, hbreak⟩, by decide⟩
  have htext : k.text.toList ++ (cs ++ ';' :: '\n' :: rest) =
      k.text.toList ++ cs ++ [';'] ++ '\n' :: rest := by
    simp only [List.append_assoc, List.cons_append, List.nil_append]
  have hline : k.text.toList ++ cs ++ [';'] ++ ['\n'] =
      k.text.toList ++ cs ++ [';', '\n'] := by
    rw [List.append_assoc]
    rfl
  -- A script is read without prompts.
  have hprompt : s.prompt .script = s := rfl
  rw [htext, runFrom_line fuel .script hrunning _ hpart, hline,
    Reader.push_statement line hfree hne, hwords, hprompt, handle_statement _ _ hrunning]

/-- The text is at most so many lines, and each of them is a declaration that makes its changes
without a notice. They lead from the first machine to the last one. -/
inductive Declarations : Nat → Machine → List Char → Machine → Prop where
  | nil (n : Nat) (m : Machine) : Declarations n m [] m
  | cons {n : Nat} {m next last : Machine} {c : Command} {changes : List Change}
      {cs rest : List Char} (arguments : LaidOut c cs) (writable : c.Writable)
      (one_line : '\n' ∉ cs) (edits : c.edits = changes.map Change.written) (ne : changes ≠ [])
      (quiet : m.Quietly changes next) (lines : Declarations n next rest last) :
      Declarations (n + 1) m (c.keyword.text.toList ++ (cs ++ ';' :: '\n' :: rest)) last

namespace Declarations

variable {n k : Nat} {m next last : Machine} {cs ds : List Char}

theorem weaken (h : Declarations n m cs last) (hle : n ≤ k) : Declarations k m cs last := by
  induction h generalizing k with
  | nil n m => exact nil k m
  | cons arguments writable one_line edits ne quiet _ ih =>
    obtain ⟨l, rfl⟩ : ∃ l, k = l + 1 := ⟨k - 1, by omega⟩
    exact cons arguments writable one_line edits ne quiet (ih (by omega))

theorem append (h : Declarations n m cs next) (hrest : Declarations k next ds last) :
    Declarations (n + k) m (cs ++ ds) last := by
  induction h with
  | nil n m => exact hrest.weaken (by omega)
  | @cons n m next last c changes cs rest arguments writable one_line edits ne quiet _ ih =>
    have hlines := cons arguments writable one_line edits ne quiet (ih hrest)
    rw [Nat.add_right_comm, List.append_assoc, List.append_assoc, List.cons_append,
      List.cons_append]
    exact hlines

-- The lines are run one after the other and write nothing, and then the run goes on behind them.
theorem runFrom (h : Declarations n m cs last) (rest : List Char) {s : Session} (hs : s.Ready)
    (hm : s.machine = m) {fuel : Nat} (hfuel : n ≤ fuel) (line : Nat) :
    ∃ fuel' line', fuel ≤ fuel' + n ∧
      Session.runFrom fuel .script (.bytes (Utf8.encode (cs ++ rest))) ⟨line, []⟩ s =
        Session.runFrom fuel' .script (.bytes (Utf8.encode rest)) ⟨line', []⟩
          { s with machine := last } := by
  -- Each line takes one step of the run, and leaves a session that is ready for the next line.
  induction h generalizing s fuel line with
  | nil n m =>
    subst hm
    exact ⟨fuel, line, by omega, rfl⟩
  | @cons n m next last c changes cs ds arguments writable one_line edits ne quiet _ ih =>
    obtain ⟨k, rfl⟩ : ∃ k, fuel = k + 1 := ⟨fuel - 1, by omega⟩
    subst hm
    obtain ⟨hsplit, hparse⟩ := arguments.parse writable (Keyword.sameWord_text c.keyword)
    have hk : n ≤ k := by omega
    obtain ⟨fuel', line', hle, hrun⟩ := ih (hs.withMachine next) rfl hk (line + 1)
    refine ⟨fuel', line', by omega, ?_⟩
    have hwords : wordsIn (c.keyword.text.toList ++ cs) = c.keyword.text :: wordsIn cs := by
      rw [arguments.wordsIn_append writable, wordsIn_of_isWord c.keyword.isWord_text,
        List.singleton_append]
    rw [List.append_assoc, List.append_assoc, List.cons_append, List.cons_append,
      Session.runFrom_statement k hs.running line hwords (arguments.not_mem_semicolon writable)
        one_line, hsplit, hs.runPieces hparse edits ne quiet]
    exact hrun

end Declarations

end Statewright
