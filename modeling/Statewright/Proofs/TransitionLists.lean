import Mathlib.Data.List.Forall2
import Statewright.Proofs.History
import Statewright.Proofs.Messages
import Statewright.Proofs.Runs

/-!
# Lists of transitions

TRANSITIONS enters all transitions of its list or none. Entering a transition declares nothing and
takes no declaration back, so each part of the list is judged by the machine as it was before, and
the order of the parts decides which transition a key is left with, and what is noticed, but not
whether the list is taken.
-/

open Statewright.Fallible Statewright.Ascending

namespace Statewright

-- Of a list of computations all succeed, or the first that fails decides.
theorem Fallible.mapM_cases {ε α β : Type} (f : α → Except ε β) (as : List α) :
    (∃ bs, as.mapM f = .ok bs ∧ List.Forall₂ (fun a b => f a = .ok b) as bs) ∨
    ∃ front a rest e, as = front ++ a :: rest ∧ (∀ x ∈ front, ∃ b, f x = .ok b) ∧
      f a = .error e ∧ as.mapM f = .error e := by
  induction as with
  | nil => exact .inl ⟨[], rfl, .nil⟩
  | cons a as ih =>
    rw [List.mapM_cons]
    cases ha : f a with
    | error e =>
      exact .inr ⟨[], a, as, e, rfl, fun x hx => absurd hx List.not_mem_nil, ha, rfl⟩
    | ok b =>
      rcases ih with ⟨bs, hbs, hall⟩ | ⟨front, a', rest, e, rfl, hfront, ha', he⟩
      · refine .inl ⟨b :: bs, ?_, .cons ha hall⟩
        rw [ok_bind, hbs]
        rfl
      · refine .inr ⟨a :: front, a', rest, e, rfl, ?_, ha', ?_⟩
        · rintro x (_ | ⟨_, hx⟩)
          · exact ⟨b, ha⟩
          · exact hfront x hx
        · rw [ok_bind, he]
          rfl

theorem exists_of_mem_left {α β : Type} {R : α → β → Prop} {as : List α} {bs : List β}
    (h : List.Forall₂ R as bs) {a : α} (ha : a ∈ as) : ∃ b ∈ bs, R a b := by
  induction h with
  | nil => exact absurd ha List.not_mem_nil
  | @cons a' b' as bs hab _ ih =>
    rcases List.mem_cons.mp ha with rfl | ha
    · exact ⟨b', List.mem_cons_self, hab⟩
    · obtain ⟨b, hb, hab⟩ := ih ha
      exact ⟨b, List.mem_cons_of_mem b' hb, hab⟩

/-! ## The parts of a list -/

namespace Language

open Text

theorem commaParts_ne_nil (text : String) : commaParts text ≠ [] := by
  have hne : between ',' text.toList ≠ [] := between_ne_nil ',' text.toList
  intro hnil
  have hwords := words_commaParts text
  rw [hnil, List.map_nil, withoutDangling] at hwords
  split at hwords
  · next hdangling =>
    have hlength := congrArg List.length hwords
    rw [List.length_dropLast, List.length_nil] at hlength
    omega
  · exact hne hwords.symm

end Language

namespace Command

open Text

-- Behind the keyword, the text and its words are the same list.
theorem between_afterFirstWord {text head : String} {arguments : List String}
    (h : words text = head :: arguments) :
    between ',' (afterFirstWord text).toList = between ',' (unwords arguments).toList := by
  have hall : ∀ w ∈ arguments, IsWord w := by
    intro w hw
    have hmem : w ∈ words text := by
      rw [h]
      exact List.mem_cons_of_mem head hw
    exact isWord_of_mem hmem
  exact between_congr rfl ((words_after h).trans (wordsIn_unwords hall).symm)

end Command

/-! ## Entering transitions -/

/-- The edit that enters an entry of a list. -/
def Triple.edit (t : Triple) : Edit :=
  .addTransition t.symbol t.source t.target

namespace Machine

/-- Whether a part of a list is a transition with declared names. -/
def Lists (m : Machine) (part : String) (t : Transition) : Prop :=
  ∃ symbol source target, Text.words part = [symbol, source, target] ∧
    Symbol.parse symbol = .ok t.symbol ∧ StateName.parse source = .ok t.source ∧
    StateName.parse target = .ok t.target ∧ m.Declares t

/-- The machine with transitions entered one after the other. -/
def enterAll (m : Machine) (ts : List Transition) : Machine :=
  { m with transitions := putAll Transition.key ts m.transitions }

/-- Where a key leads when transitions were entered one after the other: the last of them that has
the key decides. -/
def targetAfter (m : Machine) (entered : List Transition) (k : Transition.Key) : Option StateName :=
  ((entered.filter (fun t => t.key = k)).getLast?.map Transition.target).or
    (m.target? k.symbol k.source)

/-- The notice on a transition that is entered after others, if its key led elsewhere by then. -/
def override? (m : Machine) (entered : List Transition) (t : Transition) : Option Notice :=
  match m.targetAfter entered t.key with
  | some previous =>
    if previous = t.target then none else some (.overridden t.symbol t.source previous t.target)
  | none => none

/-- The notices on transitions that are entered in turn after others. -/
def overrides (m : Machine) (entered : List Transition) : List Transition → List Notice
  | [] => []
  | t :: ts => (m.override? entered t).toList ++ m.overrides (entered ++ [t]) ts

variable {m : Machine}

theorem target?_enterAll (m : Machine) (ts : List Transition) (k : Transition.Key) :
    (m.enterAll ts).target? k.symbol k.source = m.targetAfter ts k := by
  show ((putAll Transition.key ts m.transitions).find? (fun t => t.key = k)).map _ = _
  rw [find?_putAll, Option.map_or]
  rfl

theorem setTransition_enterAll (m : Machine) (entered : List Transition) (t : Transition) :
    (m.enterAll entered).setTransition t =
      (m.enterAll (entered ++ [t]), .done (m.override? entered t).toList) := by
  have hput : m.enterAll (entered ++ [t]) =
      { m.enterAll entered with
        transitions := put Transition.key t (m.enterAll entered).transitions } := by
    unfold enterAll putAll
    rw [List.foldl_append]
    rfl
  have htarget : (m.enterAll entered).target? t.symbol t.source = m.targetAfter entered t.key :=
    m.target?_enterAll entered t.key
  unfold setTransition override?
  rw [← hput, htarget]
  cases m.targetAfter entered t.key with
  | none => rfl
  | some previous =>
    dsimp only
    split
    · rfl
    · rfl

/-- What a machine makes of an entry of a list. -/
def readEntry (m : Machine) (triple : Triple) : Except TransitionFault Transition :=
  m.readTransition triple.symbol triple.source triple.target

-- Transitions that were entered change nothing about which names are declared.
theorem edit_triple {triple : Triple} {t : Transition} (h : m.readEntry triple = .ok t)
    (entered : List Transition) : (m.enterAll entered).edit triple.edit =
      .ok (m.enterAll (entered ++ [t]), .done (m.override? entered t).toList) := by
  have hread : (m.enterAll entered).readTransition triple.symbol triple.source triple.target =
      .ok t := h
  show (m.enterAll entered).addTransition triple.symbol triple.source triple.target = _
  rw [addTransition, hread, ← setTransition_enterAll]
  rfl

theorem edit_triple_error {triple : Triple} {fault : TransitionFault}
    (h : m.readEntry triple = .error fault) (entered : List Transition) :
    (m.enterAll entered).edit triple.edit =
      .error (.transition triple.symbol triple.source triple.target fault) := by
  have hread : (m.enterAll entered).readTransition triple.symbol triple.source triple.target =
      .error fault := h
  show (m.enterAll entered).addTransition triple.symbol triple.source triple.target = _
  rw [addTransition, hread]
  rfl

theorem editEach_triples {triples : List Triple} {ts : List Transition}
    (h : List.Forall₂ (fun triple t => m.readEntry triple = .ok t) triples ts)
    (entered : List Transition) :
    ∃ applied, (m.enterAll entered).editEach (triples.map Triple.edit) =
      (m.enterAll (entered ++ ts), .ok ⟨applied, m.overrides entered ts⟩) := by
  induction h generalizing entered with
  | nil =>
    rw [List.append_nil]
    exact ⟨false, rfl⟩
  | @cons triple t triples ts hread _ ih =>
    obtain ⟨applied, hrest⟩ := ih (entered ++ [t])
    refine ⟨true, ?_⟩
    rw [List.map_cons, editEach, edit_triple hread entered]
    dsimp only
    rw [hrest, List.append_assoc]
    rfl

theorem editEach_triples_error {front rest : List Triple} {triple : Triple}
    {fault : TransitionFault} (hfront : ∀ u ∈ front, ∃ t, m.readEntry u = .ok t)
    (hfault : m.readEntry triple = .error fault) (entered : List Transition) :
    ((m.enterAll entered).editEach ((front ++ triple :: rest).map Triple.edit)).2 =
      .error (.transition triple.symbol triple.source triple.target fault) := by
  induction front generalizing entered with
  | nil =>
    rw [List.nil_append, List.map_cons, editEach, edit_triple_error hfault entered]
  | cons u front ih =>
    obtain ⟨t, ht⟩ := hfront u List.mem_cons_self
    have hrest := ih (fun v hv => hfront v (List.mem_cons_of_mem u hv)) (entered ++ [t])
    rw [List.cons_append, List.map_cons, editEach, edit_triple ht entered]
    dsimp only
    rw [hrest]
    rfl

-- All entries of a list are entered, or none.
theorem editAll_triples {triples : List Triple} {ts : List Transition}
    (h : List.Forall₂ (fun triple t => m.readEntry triple = .ok t) triples ts) :
    ∃ applied, m.editAll (triples.map Triple.edit) =
      .ok (m.enterAll ts, ⟨applied, m.overrides [] ts⟩) := by
  obtain ⟨applied, heach⟩ := editEach_triples h []
  refine ⟨applied, ?_⟩
  have heach' : m.editEach (triples.map Triple.edit) =
      (m.enterAll ts, .ok ⟨applied, m.overrides [] ts⟩) := heach
  rw [editAll, heach']

theorem editAll_triples_error {front rest : List Triple} {triple : Triple} {fault : TransitionFault}
    (hfront : ∀ u ∈ front, ∃ t, m.readEntry u = .ok t)
    (hfault : m.readEntry triple = .error fault) :
    m.editAll ((front ++ triple :: rest).map Triple.edit) =
      .error (.transition triple.symbol triple.source triple.target fault) := by
  have heach : (m.editEach ((front ++ triple :: rest).map Triple.edit)).2 = _ :=
    editEach_triples_error hfront hfault []
  unfold editAll
  generalize m.editEach _ = edited at heach ⊢
  obtain ⟨last, result⟩ := edited
  cases heach
  rfl

/-! ## Parts and entries -/

theorem lists_iff {part : String} {t : Transition} : m.Lists part t ↔
    ∃ triple, Command.readTriple part = .ok triple ∧ m.readEntry triple = .ok t := by
  constructor
  · rintro ⟨symbol, source, target, hwords, hnames⟩
    refine ⟨⟨symbol, source, target⟩, ?_, readTransition_ok_iff.mpr hnames⟩
    rw [Command.readTriple, hwords]
  · rintro ⟨triple, hpart, hread⟩
    exact ⟨_, _, _, Command.words_of_readTriple hpart, readTransition_ok_iff.mp hread⟩

-- A list that is listed is read as entries, each of which the machine reads.
theorem exists_triples {parts : List String} {ts : List Transition}
    (h : List.Forall₂ m.Lists parts ts) :
    ∃ triples, parts.mapM Command.readTriple = .ok triples ∧
      List.Forall₂ (fun triple t => m.readEntry triple = .ok t) triples ts := by
  induction h with
  | nil => exact ⟨[], rfl, .nil⟩
  | cons hlists _ ih =>
    obtain ⟨triple, hpart, hread⟩ := lists_iff.mp hlists
    obtain ⟨triples, hparts, hall⟩ := ih
    refine ⟨triple :: triples, ?_, .cons hread hall⟩
    rw [List.mapM_cons, hpart, ok_bind, hparts]
    rfl

theorem exists_listed_iff {parts : List String} :
    (∃ ts, List.Forall₂ m.Lists parts ts) ↔ ∀ part ∈ parts, ∃ t, m.Lists part t := by
  constructor
  · rintro ⟨ts, hall⟩
    induction hall with
    | nil => exact fun part hpart => absurd hpart List.not_mem_nil
    | cons hlists _ ih => exact List.forall_mem_cons.mpr ⟨⟨_, hlists⟩, ih⟩
  · intro h
    induction parts with
    | nil => exact ⟨[], .nil⟩
    | cons part parts ih =>
      obtain ⟨⟨t, ht⟩, hrest⟩ := List.forall_mem_cons.mp h
      obtain ⟨ts, hts⟩ := ih hrest
      exact ⟨t :: ts, .cons ht hts⟩

instance (m : Machine) (part : String) : Decidable (∃ t, m.Lists part t) :=
  decidable_of_iff (((Command.readTriple part).toOption.bind
      (fun triple => (m.readEntry triple).toOption)).isSome = true) (by
    simp only [lists_iff, Option.isSome_iff_exists, Option.bind_eq_some_iff,
      toOption_eq_some_iff])

instance (m : Machine) (parts : List String) :
    Decidable (∃ ts, List.Forall₂ m.Lists parts ts) :=
  decidable_of_iff _ exists_listed_iff.symm

end Machine

/-- Why a list is refused: for its first part that is not three words or, if it has none, for its
first part that is no transition with declared names. -/
inductive Machine.Refuses (m : Machine) (parts : List String) : Failure → Prop
  | malformed {front rest : List String} {part : String} :
      parts = front ++ part :: rest → (∀ p ∈ front, (Text.words p).length = 3) →
      (Text.words part).length ≠ 3 →
      m.Refuses parts (.command (.malformedTriple part))
  | invalid {front rest : List String} {part symbol source target : String}
      {fault : TransitionFault} :
      (∀ p ∈ parts, (Text.words p).length = 3) → parts = front ++ part :: rest →
      (∀ p ∈ front, ∃ t, m.Lists p t) → Text.words part = [symbol, source, target] →
      m.readTransition symbol source target = .error fault →
      m.Refuses parts (.edit (.transition symbol source target fault))

namespace Session

variable {head text : String} {arguments : List String}

theorem answer_machine (line : Nat) (piece : String) (s : Session) (reply : Reply) :
    (s.answer line piece reply).machine = s.machine := by
  rw [answer_eq]

theorem performPiece_transitions (hwords : Text.words text = head :: arguments)
    (hhead : Keyword.ofWord? head = some .transitions) (harguments : arguments ≠ [])
    (run : Runner) (s : Session) :
    s.performPiece run text =
      match (Language.commaParts (Command.afterFirstWord text)).mapM Command.readTriple with
      | .error e => some (s, .error (.command e))
      | .ok triples => some (s.editAll (triples.map Triple.edit)) := by
  have hne : Command.afterFirstWord text ≠ "" := by
    intro hempty
    have hafter := Command.words_after hwords
    rw [hempty] at hafter
    exact harguments hafter.symm
  have hparse : Command.parse text = Command.transitions <$>
      (Language.commaParts (Command.afterFirstWord text)).mapM Command.readTriple := by
    rw [Command.parse, hwords]
    dsimp only
    rw [hhead]
    dsimp only
    rw [Command.readTriples, if_neg hne]
  have hparts := Language.commaParts_ne_nil (Command.afterFirstWord text)
  rw [performPiece, hparse]
  generalize Language.commaParts (Command.afterFirstWord text) = parts at hparts ⊢
  rcases mapM_cases Command.readTriple parts with
    ⟨triples, hread, hall⟩ | ⟨-, -, -, e, -, -, -, herror⟩
  · rw [hread]
    cases triples with
    | nil =>
      -- A list has a part at least, so this is no query.
      have hlength := hall.length_eq
      exact absurd (List.length_eq_zero_iff.mp hlength) hparts
    | cons triple triples => rfl
  · rw [herror]
    rfl

-- A list is taken if all of its parts are transitions with declared names.
theorem performPiece_listed (hwords : Text.words text = head :: arguments)
    (hhead : Keyword.ofWord? head = some .transitions) (harguments : arguments ≠ [])
    (run : Runner) (s : Session) {ts : List Transition}
    (h : List.Forall₂ s.machine.Lists (Language.commaParts (Command.afterFirstWord text)) ts) :
    s.performPiece run text = some ({ s with machine := s.machine.enterAll ts },
      .ok (joinLines ((s.machine.overrides [] ts).map Notice.message))) := by
  obtain ⟨triples, hread, hall⟩ := Machine.exists_triples h
  obtain ⟨applied, hedit⟩ := Machine.editAll_triples hall
  rw [performPiece_transitions hwords hhead harguments, hread]
  dsimp only
  rw [editAll, hedit]
  rfl

theorem performPiece_refused (hwords : Text.words text = head :: arguments)
    (hhead : Keyword.ofWord? head = some .transitions) (harguments : arguments ≠ [])
    (run : Runner) (s : Session)
    (h : ¬ ∃ ts, List.Forall₂ s.machine.Lists
      (Language.commaParts (Command.afterFirstWord text)) ts) :
    ∃ e, s.performPiece run text = some (s, .error e) ∧
      s.machine.Refuses (Language.commaParts (Command.afterFirstWord text)) e := by
  rw [performPiece_transitions hwords hhead harguments]
  generalize Language.commaParts (Command.afterFirstWord text) = parts at h ⊢
  have hlength : ∀ {part triple}, Command.readTriple part = .ok triple →
      (Text.words part).length = 3 := by
    intro part triple hpart
    rw [Command.words_of_readTriple hpart]
    rfl
  rcases mapM_cases Command.readTriple parts with
    ⟨triples, hread, hall⟩ | ⟨front, part, rest, e, hparts, hfront, hpart, herror⟩
  · -- All parts are three words, so one of them is no transition with declared names.
    rw [hread]
    dsimp only
    rcases mapM_cases s.machine.readEntry triples with
      ⟨ts, -, hall'⟩ | ⟨front, triple, rest, fault, rfl, hfront, hfault, -⟩
    · refine absurd (Machine.exists_listed_iff.mpr ?_) h
      intro part hpart
      obtain ⟨triple, htriple, hpart⟩ := exists_of_mem_left hall hpart
      obtain ⟨t, -, ht⟩ := exists_of_mem_left hall' htriple
      exact ⟨t, Machine.lists_iff.mpr ⟨triple, hpart, ht⟩⟩
    · -- The parts fall apart where their entries do.
      have htake := List.forall₂_take_append parts front (triple :: rest) hall
      have hdrop := List.forall₂_drop_append parts front (triple :: rest) hall
      obtain ⟨part, rest', hpart, -, hparts⟩ := List.forall₂_cons_right_iff.mp hdrop
      have hcut : parts = parts.take front.length ++ part :: rest' := by
        rw [← hparts, List.take_append_drop]
      refine ⟨_, ?_, .invalid ?_ hcut ?_ (Command.words_of_readTriple hpart) hfault⟩
      · rw [editAll, Machine.editAll_triples_error hfront hfault]
      · intro p hp
        obtain ⟨triple', -, hp⟩ := exists_of_mem_left hall hp
        exact hlength hp
      · intro p hp
        obtain ⟨triple', hmem, hp⟩ := exists_of_mem_left htake hp
        obtain ⟨t, ht⟩ := hfront triple' hmem
        exact ⟨t, Machine.lists_iff.mpr ⟨triple', hp, ht⟩⟩
  · rw [herror]
    refine ⟨_, rfl, ?_⟩
    rw [Command.readTriple_eq_error hpart]
    refine .malformed hparts ?_ ?_
    · intro p hp
      obtain ⟨triple, hp⟩ := hfront p hp
      exact hlength hp
    · intro hthree
      obtain ⟨a, b, c, habc⟩ := List.length_eq_three.mp hthree
      rw [Command.readTriple, habc] at hpart
      cases hpart

theorem taken_iff (hwords : Text.words text = head :: arguments)
    (hhead : Keyword.ofWord? head = some .transitions) (harguments : arguments ≠ [])
    (run : Runner) (s : Session) :
    (∃ t response, s.performPiece run text = some (t, .ok response)) ↔
      ∀ part ∈ Language.commaParts (Command.afterFirstWord text), ∃ t, s.machine.Lists part t := by
  rw [← Machine.exists_listed_iff]
  constructor
  · rintro ⟨t, response, hperform⟩
    by_contra h
    obtain ⟨e, hrefused, -⟩ := performPiece_refused hwords hhead harguments run s h
    rw [hrefused] at hperform
    cases hperform
  · rintro ⟨ts, hts⟩
    exact ⟨_, _, performPiece_listed hwords hhead harguments run s hts⟩

/-- A TRANSITIONS statement with arguments is taken if each part of its list is three words that are
a declared symbol and two declared states. Then all transitions are entered in turn, so that the
last one with a key decides where that leads, and nothing else changes; the response lists the
overridings in order, each seen against what was entered before it. Otherwise the statement fails
for the first part that is not three words or, if there is none, for the first one with a name that
is invalid or not declared, and the session is left as it was. The order of the parts does not
decide whether the statement is taken. -/
theorem runPiece_transitions (hwords : Text.words text = head :: arguments)
    (hhead : Keyword.ofWord? head = some .transitions) (harguments : arguments ≠ [])
    (run : Runner) (line : Nat) (s : Session) :
    let parts := Language.commaParts (Command.afterFirstWord text)
    parts.map Text.words =
      Language.withoutDangling (Text.between ',' (Text.unwords arguments).toList) ∧
    (∀ ts, List.Forall₂ s.machine.Lists parts ts →
      ∃ u, s.runPiece run line text = some u ∧ u.machine = s.machine.enterAll ts ∧
        (∀ k, u.machine.target? k.symbol k.source = s.machine.targetAfter ts k) ∧
        u = answer line text { s with machine := s.machine.enterAll ts }
          (.ok (joinLines ((s.machine.overrides [] ts).map Notice.message)))) ∧
    ((¬ ∃ ts, List.Forall₂ s.machine.Lists parts ts) →
      ∃ u e, s.runPiece run line text = some u ∧ u.machine = s.machine ∧
        s.machine.Refuses parts e ∧ u = s.answer line text (.error e)) ∧
    ∀ head' arguments' text', Text.words text' = head' :: arguments' →
      Keyword.ofWord? head' = some .transitions → arguments' ≠ [] →
      parts.Perm (Language.commaParts (Command.afterFirstWord text')) →
      ((∃ t response, s.performPiece run text' = some (t, .ok response)) ↔
        ∃ t response, s.performPiece run text = some (t, .ok response)) := by
  intro parts
  refine ⟨?_, ?_, ?_, ?_⟩
  · rw [Language.words_commaParts, Command.between_afterFirstWord hwords]
  · intro ts hts
    rw [runPiece_eq, performPiece_listed hwords hhead harguments run s hts]
    have hkept := answer_machine line text { s with machine := s.machine.enterAll ts }
      (.ok (joinLines ((s.machine.overrides [] ts).map Notice.message)))
    refine ⟨_, rfl, hkept, fun k => ?_, rfl⟩
    rw [← s.machine.target?_enterAll ts k]
    exact congrArg (fun m => m.target? k.symbol k.source) hkept
  · intro h
    obtain ⟨e, hrefused, he⟩ := performPiece_refused hwords hhead harguments run s h
    rw [runPiece_eq, hrefused]
    exact ⟨_, e, rfl, answer_machine line text s (.error e), he, rfl⟩
  · intro head' arguments' text' hwords' hhead' harguments' hperm
    rw [taken_iff hwords hhead harguments, taken_iff hwords' hhead' harguments']
    constructor
    · exact fun h part hpart => h part (hperm.mem_iff.mp hpart)
    · exact fun h part hpart => h part (hperm.mem_iff.mpr hpart)

/-- A session whose machine has two states, a symbol, and no transitions. -/
def unwired : Session :=
  { start .default ⟨.zero, .epoch⟩ (.empty []) with
    machine := Machine.empty.afterAll [.addSymbol "a", .addState "p", .addState "q"] }

/-- The premises hold of a list that overrides its own first transition and ends with a comma, and
of one with a name that is not declared, in front of a part that is no transition at all. -/
theorem runPiece_transitions_unwired :
    (∃ u, unwired.runPiece (runner 0) 1 "TRANSITIONS a p q, A q p, a P p," = some u ∧
      u.machine.transitions.map toString = ["A P P", "A Q P"] ∧
      u.output = [.response "Warning: transition <A,P> overridden (Q -> P)"]) ∧
    ∃ u e, unwired.runPiece (runner 0) 1 "transitions a p z, a p" = some u ∧
      u.machine = unwired.machine ∧
      unwired.machine.Refuses ["a p z", "a p"] e := by
  have hwords : Text.words "TRANSITIONS a p q, A q p, a P p," =
      ["TRANSITIONS", "a", "p", "q,", "A", "q", "p,", "a", "P", "p,"] := by decide +kernel
  have hwords' : Text.words "transitions a p z, a p" =
      ["transitions", "a", "p", "z,", "a", "p"] := by decide +kernel
  obtain ⟨-, htaken, -, -⟩ := runPiece_transitions hwords rfl (by decide) (runner 0) 1 unwired
  obtain ⟨-, -, hrefused, -⟩ := runPiece_transitions hwords' rfl (by decide) (runner 0) 1 unwired
  constructor
  · obtain ⟨ts, hts⟩ : ∃ ts, List.Forall₂ unwired.machine.Lists
        (Language.commaParts (Command.afterFirstWord "TRANSITIONS a p q, A q p, a P p,")) ts := by
      decide +kernel
    obtain ⟨u, hu, -⟩ := htaken ts hts
    have hshown : (unwired.runPiece (runner 0) 1 "TRANSITIONS a p q, A q p, a P p,").map
        (fun u => (u.machine.transitions.map toString, u.output)) =
        some (["A P P", "A Q P"],
          [.response "Warning: transition <A,P> overridden (Q -> P)"]) := by
      decide +kernel
    rw [hu, Option.map_some, Option.some.injEq, Prod.mk.injEq] at hshown
    exact ⟨u, hu, hshown⟩
  · obtain ⟨u, e, hu, hmachine, he, -⟩ := hrefused (by decide +kernel)
    exact ⟨u, e, hu, hmachine, he⟩

end Session

end Statewright
