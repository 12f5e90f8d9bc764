import Statewright.Proofs.Instant
import Statewright.Proofs.LetterCase
import Statewright.Snapshot.Basic

/-!
# Snapshots as they are spelled

What a file holds of a snapshot are texts: names in any case, or texts that are no names at all, and
a time in any of its written forms. A spelling is a snapshot before these texts are read. Spellings
that have the same capitals are read as the same snapshot, or none of them is.
-/

namespace Statewright

/-! ## Texts that are read -/

def Symbol.read? (c : Char) : Option Symbol :=
  (Symbol.ofChar c).toOption

def StateName.read? (s : String) : Option StateName :=
  (StateName.parse s).toOption

def Instant.read? (s : String) : Option Instant :=
  (Instant.parse s).toOption

theorem Symbol.read?_char (s : Symbol) : read? s.char = some s := by
  rw [read?, ofChar_char]
  rfl

theorem StateName.read?_text (q : StateName) : read? q.text = some q := by
  rw [read?, parse_text]
  rfl

theorem Instant.read?_text (t : Instant) : read? t.text = some t := by
  rw [read?, parse_text]
  rfl

theorem Symbol.read?_toUpper (c : Char) : read? c.toUpper = read? c := by
  rw [read?, ofChar_toUpper, read?]
  cases ofChar c with
  | error e => rfl
  | ok s => rfl

theorem StateName.read?_upper (s : String) : read? (Text.upper s) = read? s := by
  rw [read?, parse_upper, read?]
  cases parse s with
  | error e => rfl
  | ok q => rfl

theorem StateName.text_of_read? {s : String} {q : StateName} (h : read? s = some q) :
    q.text = Text.upper s := by
  unfold read? parse at h
  split at h
  · cases h
    rfl
  · cases h

/-! ## Spellings -/

/-- A transition before its names are read. -/
structure SpelledTransition where
  symbol : Char
  source : String
  target : String
  deriving DecidableEq

/-- A snapshot before its names and its time are read. -/
structure Spelling where
  version : UInt32
  id : Uuid
  createdAt : String
  symbols : List Char
  states : List String
  finals : List String
  initial : Option String
  current : Option String
  transitions : List SpelledTransition
  deriving DecidableEq

namespace SpelledTransition

def read? (t : SpelledTransition) : Option Transition := do
  let symbol ← Symbol.read? t.symbol
  let source ← StateName.read? t.source
  let target ← StateName.read? t.target
  return { symbol, source, target }

def upper (t : SpelledTransition) : SpelledTransition :=
  ⟨t.symbol.toUpper, Text.upper t.source, Text.upper t.target⟩

theorem read?_upper (t : SpelledTransition) : t.upper.read? = t.read? := by
  unfold read? upper
  dsimp only
  rw [Symbol.read?_toUpper, StateName.read?_upper, StateName.read?_upper]

end SpelledTransition

namespace Spelling

/-- The snapshot that is spelled, if all its names are names and its time is one. -/
def read? (r : Spelling) : Option Snapshot := do
  let createdAt ← Instant.read? r.createdAt
  let symbols ← r.symbols.mapM Symbol.read?
  let states ← r.states.mapM StateName.read?
  let finals ← r.finals.mapM StateName.read?
  let initial ← r.initial.mapM StateName.read?
  let current ← r.current.mapM StateName.read?
  let transitions ← r.transitions.mapM SpelledTransition.read?
  return {
    version := r.version
    id := r.id
    createdAt, symbols, states, finals, initial, current, transitions }

/-- The spelling with its names and symbols in capitals. -/
def upper (r : Spelling) : Spelling :=
  { r with
    symbols := r.symbols.map Char.toUpper
    states := r.states.map Text.upper
    finals := r.finals.map Text.upper
    initial := r.initial.map Text.upper
    current := r.current.map Text.upper
    transitions := r.transitions.map SpelledTransition.upper }

theorem mapM_map {α β : Type} {f : α → α} {read : α → Option β} (h : ∀ a, read (f a) = read a)
    (l : List α) : (l.map f).mapM read = l.mapM read := by
  induction l with
  | nil => rfl
  | cons a l ih => rw [List.map_cons, List.mapM_cons, List.mapM_cons, h, ih]

theorem mapM_option_map {α β : Type} {f : α → α} {read : α → Option β}
    (h : ∀ a, read (f a) = read a) (o : Option α) : (o.map f).mapM read = o.mapM read := by
  cases o with
  | none => rfl
  | some a => rw [Option.map_some, Option.mapM_some, Option.mapM_some, h]

/-- Capitals do not change what is spelled. -/
theorem read?_upper (r : Spelling) : r.upper.read? = r.read? := by
  unfold read? upper
  dsimp only
  simp only [mapM_map Symbol.read?_toUpper, mapM_map StateName.read?_upper,
    mapM_option_map StateName.read?_upper, mapM_map SpelledTransition.read?_upper]

theorem read?_of_upper_eq {r r' : Spelling} (h : r.upper = r'.upper) : r.read? = r'.read? := by
  rw [← r.read?_upper, h, r'.read?_upper]

theorem mapM_eq_some_iff {α β : Type} {f : α → Option β} {a : α} {l : List α} {bs : List β} :
    (a :: l).mapM f = some bs ↔ ∃ b rest, f a = some b ∧ l.mapM f = some rest ∧ bs = b :: rest := by
  rw [List.mapM_cons, Option.bind_eq_bind, Option.bind_eq_some_iff]
  constructor
  · rintro ⟨b, hb, h⟩
    obtain ⟨rest, hrest, h⟩ := Option.bind_eq_some_iff.mp h
    exact ⟨b, rest, hb, hrest, (Option.some.inj h).symm⟩
  · rintro ⟨b, rest, hb, hrest, rfl⟩
    exact ⟨b, hb, Option.bind_eq_some_iff.mpr ⟨rest, hrest, rfl⟩⟩

-- States are held in capitals, however they are spelled.
theorem texts_of_mapM {ss : List String} {qs : List StateName}
    (h : ss.mapM StateName.read? = some qs) : qs.map StateName.text = ss.map Text.upper := by
  induction ss generalizing qs with
  | nil =>
    cases h
    rfl
  | cons s ss ih =>
    obtain ⟨q, rest, hq, hrest, rfl⟩ := mapM_eq_some_iff.mp h
    rw [List.map_cons, List.map_cons, StateName.text_of_read? hq, ih hrest]

/-- The parts of a spelling that is read. -/
theorem read?_eq_some_iff {r : Spelling} {c : Snapshot} : r.read? = some c ↔
    c.version = r.version ∧ c.id = r.id ∧ Instant.read? r.createdAt = some c.createdAt ∧
    r.symbols.mapM Symbol.read? = some c.symbols ∧
    r.states.mapM StateName.read? = some c.states ∧
    r.finals.mapM StateName.read? = some c.finals ∧
    r.initial.mapM StateName.read? = some c.initial ∧
    r.current.mapM StateName.read? = some c.current ∧
    r.transitions.mapM SpelledTransition.read? = some c.transitions := by
  unfold read?
  simp only [Option.bind_eq_bind, Option.bind_eq_some_iff, Option.pure_def, Option.some.injEq]
  constructor
  · rintro ⟨_, h1, _, h2, _, h3, _, h4, _, h5, _, h6, _, h7, rfl⟩
    exact ⟨rfl, rfl, h1, h2, h3, h4, h5, h6, h7⟩
  · rintro ⟨hversion, hid, h1, h2, h3, h4, h5, h6, h7⟩
    refine ⟨_, h1, _, h2, _, h3, _, h4, _, h5, _, h6, _, h7, ?_⟩
    rw [← hversion, ← hid]

/-- Two spellings of one state in the list of states are one state twice. -/
theorem not_nodup_of_read? {r : Spelling} {c : Snapshot} (h : r.read? = some c)
    (hstates : ¬ (r.states.map Text.upper).Nodup) : ¬ c.states.Nodup := by
  intro hnodup
  obtain ⟨-, -, -, -, hread, -⟩ := read?_eq_some_iff.mp h
  rw [← texts_of_mapM hread] at hstates
  refine hstates (hnodup.map (fun q q' hq => ?_))
  have hboth := congrArg StateName.read? hq
  rw [q.read?_text, q'.read?_text] at hboth
  exact Option.some.inj hboth

end Spelling

/-! ## How snapshots are spelled -/

def Transition.spelling (t : Transition) : SpelledTransition :=
  ⟨t.symbol.char, t.source.text, t.target.text⟩

/-- The spelling of a snapshot that is written out. -/
def Snapshot.spelling (c : Snapshot) : Spelling where
  version := c.version
  id := c.id
  createdAt := c.createdAt.text
  symbols := c.symbols.map Symbol.char
  states := c.states.map StateName.text
  finals := c.finals.map StateName.text
  initial := c.initial.map StateName.text
  current := c.current.map StateName.text
  transitions := c.transitions.map Transition.spelling

theorem Transition.read?_spelling (t : Transition) : t.spelling.read? = some t := by
  unfold SpelledTransition.read? spelling
  dsimp only
  rw [Symbol.read?_char, StateName.read?_text, StateName.read?_text]
  rfl

theorem Spelling.mapM_written {α β : Type} {write : β → α} {read : α → Option β}
    (h : ∀ b, read (write b) = some b) (l : List β) : (l.map write).mapM read = some l := by
  induction l with
  | nil => rfl
  | cons b l ih =>
    rw [List.map_cons]
    exact mapM_eq_some_iff.mpr ⟨b, l, h b, ih, rfl⟩

theorem Spelling.mapM_option_written {α β : Type} {write : β → α} {read : α → Option β}
    (h : ∀ b, read (write b) = some b) (o : Option β) : (o.map write).mapM read = some o := by
  cases o with
  | none => rfl
  | some b =>
    rw [Option.map_some, Option.mapM_some, h]
    rfl

theorem Snapshot.read?_spelling (c : Snapshot) : c.spelling.read? = some c :=
  Spelling.read?_eq_some_iff.mpr ⟨rfl, rfl, c.createdAt.read?_text,
    Spelling.mapM_written Symbol.read?_char _, Spelling.mapM_written StateName.read?_text _,
    Spelling.mapM_written StateName.read?_text _,
    Spelling.mapM_option_written StateName.read?_text _,
    Spelling.mapM_option_written StateName.read?_text _,
    Spelling.mapM_written Transition.read?_spelling _⟩

end Statewright
