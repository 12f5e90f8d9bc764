import Statewright.Proofs.JsonSpelling
import Statewright.Proofs.Uuid
import Statewright.Snapshot.Json

/-!
# Spellings of snapshots in JSON

The decoder of snapshots takes the texts of a spelling and reads them. A text in JSON is a snapshot
exactly if a spelling is taken from it that is read as one.
-/

open Statewright.Fallible

namespace Statewright

open Statewright.Json (Decoder Printer)
open Statewright.Json.Decoder

theorem Json.Decoder.need_eq_ok_iff {α : Type} {name : String} {o : Option α} {a : α} :
    need name o = .ok a ↔ o = some a := by
  cases o with
  | none => exact ⟨fun h => (nomatch h), fun h => (nomatch h)⟩
  | some b => exact ⟨fun h => by rw [Except.ok.inj h], fun h => by rw [Option.some.inj h]; rfl⟩

theorem spells_symbol : Spells Decoder.char Symbol.decoder Symbol.read? :=
  spells_refine

theorem spells_state : Spells Decoder.string StateName.decoder StateName.read? :=
  spells_refine

theorem spells_instant : Spells Decoder.string Instant.decoder Instant.read? :=
  spells_textAs

/-! ## Transitions -/

namespace SpelledTransition

structure Draft where
  symbol : Option Char := none
  source : Option String := none
  target : Option String := none

/-- A transition before its names are read. -/
def shape : Decoder.Shape Draft SpelledTransition where
  label := "struct TransitionRecord"
  fields := [
    .of "symbol" Draft.symbol (fun d a => { d with symbol := some a }) .char,
    .of "from" Draft.source (fun d a => { d with source := some a }) .string,
    .of "to" Draft.target (fun d a => { d with target := some a }) .string]
  start := {}
  mayEndEarly := false
  finish d := do
    let symbol ← Decoder.need "symbol" d.symbol
    let source ← Decoder.need "from" d.source
    let target ← Decoder.need "to" d.target
    return { symbol, source, target }

def decoder : Decoder SpelledTransition :=
  .record shape

/-- Whether the fields that are set in a draft are read as those of another one. -/
structure Draft.ReadAs (x : Draft) (y : Transition.Draft) : Prop where
  symbol : x.symbol.mapM Symbol.read? = some y.symbol
  source : x.source.mapM StateName.read? = some y.source
  target : x.target.mapM StateName.read? = some y.target

theorem fields_spell :
    List.Forall₂ (FieldSpells Draft.ReadAs) shape.fields Transition.shape.fields := by
  refine .cons ?symbol (.cons ?source (.cons ?target .nil))
  case symbol =>
    exact fieldSpells_of spells_symbol (fun y => { y with symbol := none })
      (fun _ _ h => h.symbol) (fun _ _ => rfl)
      (fun _ _ _ a h ha => { h with symbol := mapM_some_eq_some_iff.mpr ⟨a, ha, rfl⟩ })
      (fun _ _ _ hx h => { h with symbol := by rw [hx]; rfl })
      (fun _ _ hy => by rw [← hy])
  case source =>
    exact fieldSpells_of spells_state (fun y => { y with source := none })
      (fun _ _ h => h.source) (fun _ _ => rfl)
      (fun _ _ _ a h ha => { h with source := mapM_some_eq_some_iff.mpr ⟨a, ha, rfl⟩ })
      (fun _ _ _ hx h => { h with source := by rw [hx]; rfl })
      (fun _ _ hy => by rw [← hy])
  case target =>
    exact fieldSpells_of spells_state (fun y => { y with target := none })
      (fun _ _ h => h.target) (fun _ _ => rfl)
      (fun _ _ _ a h ha => { h with target := mapM_some_eq_some_iff.mpr ⟨a, ha, rfl⟩ })
      (fun _ _ _ hx h => { h with target := by rw [hx]; rfl })
      (fun _ _ hy => by rw [← hy])

theorem fields_apart : shape.fields.Pairwise Apart := by
  simp only [shape, List.pairwise_cons, List.forall_mem_cons, List.not_mem_nil, false_implies,
    implies_true, and_true, List.Pairwise.nil]
  and_intros
  all_goals exact apart_of fun _ _ => rfl

theorem finish_eq_ok_iff {x : Draft} {t : SpelledTransition} : shape.finish x = .ok t ↔
    x.symbol = some t.symbol ∧ x.source = some t.source ∧ x.target = some t.target := by
  show (need "symbol" x.symbol >>= fun symbol => need "from" x.source >>= fun source =>
    need "to" x.target >>= fun target => pure ⟨symbol, source, target⟩) = .ok t ↔ _
  simp only [bind_eq_ok_iff, need_eq_ok_iff, pure_eq_ok_iff]
  constructor
  · rintro ⟨_, hsymbol, _, hsource, _, htarget, rfl⟩
    exact ⟨hsymbol, hsource, htarget⟩
  · rintro ⟨hsymbol, hsource, htarget⟩
    exact ⟨_, hsymbol, _, hsource, _, htarget, rfl⟩

theorem transition_finish_eq_ok_iff {y : Transition.Draft} {t : Transition} :
    Transition.shape.finish y = .ok t ↔
      y.symbol = some t.symbol ∧ y.source = some t.source ∧ y.target = some t.target := by
  show (need "symbol" y.symbol >>= fun symbol => need "from" y.source >>= fun source =>
    need "to" y.target >>= fun target => pure ⟨symbol, source, target⟩) = .ok t ↔ _
  simp only [bind_eq_ok_iff, need_eq_ok_iff, pure_eq_ok_iff]
  constructor
  · rintro ⟨_, hsymbol, _, hsource, _, htarget, rfl⟩
    exact ⟨hsymbol, hsource, htarget⟩
  · rintro ⟨hsymbol, hsource, htarget⟩
    exact ⟨_, hsymbol, _, hsource, _, htarget, rfl⟩

theorem read?_eq_some_iff {t : SpelledTransition} {a : Transition} : t.read? = some a ↔
    Symbol.read? t.symbol = some a.symbol ∧ StateName.read? t.source = some a.source ∧
    StateName.read? t.target = some a.target := by
  unfold read?
  simp only [Option.bind_eq_bind, Option.bind_eq_some_iff, Option.pure_def, Option.some.injEq]
  constructor
  · rintro ⟨_, hsymbol, _, hsource, _, htarget, rfl⟩
    exact ⟨hsymbol, hsource, htarget⟩
  · rintro ⟨hsymbol, hsource, htarget⟩
    exact ⟨_, hsymbol, _, hsource, _, htarget, rfl⟩

theorem shape_spells : ShapeSpells Draft.ReadAs shape Transition.shape read? where
  fields := fields_spell
  apart := fields_apart
  unset := by
    intro f hf
    simp only [shape, List.mem_cons, List.not_mem_nil, or_false] at hf
    rcases hf with rfl | rfl | rfl <;> rfl
  start y := by
    constructor
    · rintro ⟨hsymbol, hsource, htarget⟩
      cases y
      cases hsymbol
      cases hsource
      cases htarget
      rfl
    · rintro rfl
      exact ⟨rfl, rfl, rfl⟩
  mayEndEarly := rfl
  finish x a := by
    simp only [finish_eq_ok_iff, transition_finish_eq_ok_iff, read?_eq_some_iff]
    constructor
    · rintro ⟨y, ⟨hsymbol, hsource, htarget⟩, hy⟩
      rw [hy.1] at hsymbol
      rw [hy.2.1] at hsource
      rw [hy.2.2] at htarget
      obtain ⟨symbol, hx, hsymbol⟩ := mapM_eq_some_some_iff.mp hsymbol
      obtain ⟨source, hx', hsource⟩ := mapM_eq_some_some_iff.mp hsource
      obtain ⟨target, hx'', htarget⟩ := mapM_eq_some_some_iff.mp htarget
      exact ⟨⟨symbol, source, target⟩, ⟨hx, hx', hx''⟩, hsymbol, hsource, htarget⟩
    · rintro ⟨t, ⟨hx, hx', hx''⟩, hsymbol, hsource, htarget⟩
      refine ⟨⟨some a.symbol, some a.source, some a.target⟩, ⟨?_, ?_, ?_⟩, rfl, rfl, rfl⟩
      · exact mapM_eq_some_some_iff.mpr ⟨_, hx, hsymbol⟩
      · exact mapM_eq_some_some_iff.mpr ⟨_, hx', hsource⟩
      · exact mapM_eq_some_some_iff.mpr ⟨_, hx'', htarget⟩

theorem spells_transition : Spells decoder Transition.decoder read? :=
  shape_spells.record

end SpelledTransition

/-! ## Snapshots -/

namespace Spelling

structure Draft where
  version : Option UInt32 := none
  id : Option Uuid := none
  createdAt : Option String := none
  symbols : Option (List Char) := none
  states : Option (List String) := none
  finals : Option (List String) := none
  initial : Option (Option String) := none
  current : Option (Option String) := none
  transitions : Option (List SpelledTransition) := none

/-- A snapshot before its names and its time are read. -/
def shape : Decoder.Shape Draft Spelling where
  label := "struct Checkpoint"
  fields := [
    .of "version" Draft.version (fun d a => { d with version := some a }) .natural32,
    .of "id" Draft.id (fun d a => { d with id := some a }) Uuid.decoder,
    .of "created_at" Draft.createdAt (fun d a => { d with createdAt := some a }) .string,
    .of "symbols" Draft.symbols (fun d a => { d with symbols := some a }) (.list .char),
    .of "states" Draft.states (fun d a => { d with states := some a }) (.list .string),
    .of "final_states" Draft.finals (fun d a => { d with finals := some a }) (.list .string),
    .of "initial_state" Draft.initial (fun d a => { d with initial := some a })
      (.nullable .string),
    .of "current_state" Draft.current (fun d a => { d with current := some a })
      (.nullable .string),
    .of "transitions" Draft.transitions (fun d a => { d with transitions := some a })
      (.list SpelledTransition.decoder)]
  start := {}
  mayEndEarly := false
  finish d := do
    let version ← Decoder.need "version" d.version
    let id ← Decoder.need "id" d.id
    let createdAt ← Decoder.need "created_at" d.createdAt
    let symbols ← Decoder.need "symbols" d.symbols
    let states ← Decoder.need "states" d.states
    let finals ← Decoder.need "final_states" d.finals
    let transitions ← Decoder.need "transitions" d.transitions
    return {
      version, id, createdAt, symbols, states, finals, transitions
      initial := d.initial.getD none
      current := d.current.getD none }

/-- The spelling that a text holds, whatever its names are. -/
def ofJson (source : String) : Except Statewright.Json.Error Spelling :=
  Decoder.decode (.record shape) source

structure Draft.ReadAs (x : Draft) (y : Snapshot.Json.Draft) : Prop where
  version : x.version.mapM some = some y.version
  id : x.id.mapM some = some y.id
  createdAt : x.createdAt.mapM Instant.read? = some y.createdAt
  symbols : x.symbols.mapM (List.mapM Symbol.read?) = some y.symbols
  states : x.states.mapM (List.mapM StateName.read?) = some y.states
  finals : x.finals.mapM (List.mapM StateName.read?) = some y.finals
  initial : x.initial.mapM (Option.mapM StateName.read?) = some y.initial
  current : x.current.mapM (Option.mapM StateName.read?) = some y.current
  transitions : x.transitions.mapM (List.mapM SpelledTransition.read?) = some y.transitions

theorem fields_spell :
    List.Forall₂ (FieldSpells Draft.ReadAs) shape.fields Snapshot.Json.shape.fields := by
  refine .cons ?version (.cons ?id (.cons ?createdAt (.cons ?symbols (.cons ?states (.cons ?finals
    (.cons ?initial (.cons ?current (.cons ?transitions .nil))))))))
  case version =>
    exact fieldSpells_of (spells_self _) (fun y => { y with version := none })
      (fun _ _ h => h.version) (fun _ _ => rfl)
      (fun _ _ _ a h ha => { h with version := mapM_some_eq_some_iff.mpr ⟨a, ha, rfl⟩ })
      (fun _ _ _ hx h => { h with version := by rw [hx]; rfl })
      (fun _ _ hy => by rw [← hy])
  case id =>
    exact fieldSpells_of (spells_self _) (fun y => { y with id := none })
      (fun _ _ h => h.id) (fun _ _ => rfl)
      (fun _ _ _ a h ha => { h with id := mapM_some_eq_some_iff.mpr ⟨a, ha, rfl⟩ })
      (fun _ _ _ hx h => { h with id := by rw [hx]; rfl })
      (fun _ _ hy => by rw [← hy])
  case createdAt =>
    exact fieldSpells_of spells_instant (fun y => { y with createdAt := none })
      (fun _ _ h => h.createdAt) (fun _ _ => rfl)
      (fun _ _ _ a h ha => { h with createdAt := mapM_some_eq_some_iff.mpr ⟨a, ha, rfl⟩ })
      (fun _ _ _ hx h => { h with createdAt := by rw [hx]; rfl })
      (fun _ _ hy => by rw [← hy])
  case symbols =>
    exact fieldSpells_of spells_symbol.list (fun y => { y with symbols := none })
      (fun _ _ h => h.symbols) (fun _ _ => rfl)
      (fun _ _ _ a h ha => { h with symbols := mapM_some_eq_some_iff.mpr ⟨a, ha, rfl⟩ })
      (fun _ _ _ hx h => { h with symbols := by rw [hx]; rfl })
      (fun _ _ hy => by rw [← hy])
  case states =>
    exact fieldSpells_of spells_state.list (fun y => { y with states := none })
      (fun _ _ h => h.states) (fun _ _ => rfl)
      (fun _ _ _ a h ha => { h with states := mapM_some_eq_some_iff.mpr ⟨a, ha, rfl⟩ })
      (fun _ _ _ hx h => { h with states := by rw [hx]; rfl })
      (fun _ _ hy => by rw [← hy])
  case finals =>
    exact fieldSpells_of spells_state.list (fun y => { y with finals := none })
      (fun _ _ h => h.finals) (fun _ _ => rfl)
      (fun _ _ _ a h ha => { h with finals := mapM_some_eq_some_iff.mpr ⟨a, ha, rfl⟩ })
      (fun _ _ _ hx h => { h with finals := by rw [hx]; rfl })
      (fun _ _ hy => by rw [← hy])
  case initial =>
    exact fieldSpells_of spells_state.nullable (fun y => { y with initial := none })
      (fun _ _ h => h.initial) (fun _ _ => rfl)
      (fun _ _ _ a h ha => { h with initial := mapM_some_eq_some_iff.mpr ⟨a, ha, rfl⟩ })
      (fun _ _ _ hx h => { h with initial := by rw [hx]; rfl })
      (fun _ _ hy => by rw [← hy])
  case current =>
    exact fieldSpells_of spells_state.nullable (fun y => { y with current := none })
      (fun _ _ h => h.current) (fun _ _ => rfl)
      (fun _ _ _ a h ha => { h with current := mapM_some_eq_some_iff.mpr ⟨a, ha, rfl⟩ })
      (fun _ _ _ hx h => { h with current := by rw [hx]; rfl })
      (fun _ _ hy => by rw [← hy])
  case transitions =>
    exact fieldSpells_of SpelledTransition.spells_transition.list (fun y => { y with transitions := none })
      (fun _ _ h => h.transitions) (fun _ _ => rfl)
      (fun _ _ _ a h ha => { h with transitions := mapM_some_eq_some_iff.mpr ⟨a, ha, rfl⟩ })
      (fun _ _ _ hx h => { h with transitions := by rw [hx]; rfl })
      (fun _ _ hy => by rw [← hy])

theorem fields_apart : shape.fields.Pairwise Apart := by
  simp only [shape, List.pairwise_cons, List.forall_mem_cons, List.not_mem_nil, false_implies,
    implies_true, and_true, List.Pairwise.nil]
  and_intros
  all_goals exact apart_of fun _ _ => rfl

theorem finish_eq_ok_iff {x : Draft} {r : Spelling} : shape.finish x = .ok r ↔
    x.version = some r.version ∧ x.id = some r.id ∧ x.createdAt = some r.createdAt ∧
    x.symbols = some r.symbols ∧ x.states = some r.states ∧ x.finals = some r.finals ∧
    x.initial.getD none = r.initial ∧ x.current.getD none = r.current ∧
    x.transitions = some r.transitions := by
  unfold shape
  simp only [bind_eq_ok_iff, need_eq_ok_iff, pure_eq_ok_iff]
  constructor
  · rintro ⟨_, h1, _, h2, _, h3, _, h4, _, h5, _, h6, _, h7, rfl⟩
    exact ⟨h1, h2, h3, h4, h5, h6, rfl, rfl, h7⟩
  · rintro ⟨h1, h2, h3, h4, h5, h6, h7, h8, h9⟩
    exact ⟨_, h1, _, h2, _, h3, _, h4, _, h5, _, h6, _, h9, by rw [h7, h8]⟩

theorem snapshot_finish_eq_ok_iff {y : Snapshot.Json.Draft} {c : Snapshot} :
    Snapshot.Json.shape.finish y = .ok c ↔
      y.version = some c.version ∧ y.id = some c.id ∧ y.createdAt = some c.createdAt ∧
      y.symbols = some c.symbols ∧ y.states = some c.states ∧ y.finals = some c.finals ∧
      y.initial.getD none = c.initial ∧ y.current.getD none = c.current ∧
      y.transitions = some c.transitions := by
  unfold Snapshot.Json.shape
  simp only [bind_eq_ok_iff, need_eq_ok_iff, pure_eq_ok_iff]
  constructor
  · rintro ⟨_, h1, _, h2, _, h3, _, h4, _, h5, _, h6, _, h7, rfl⟩
    exact ⟨h1, h2, h3, h4, h5, h6, rfl, rfl, h7⟩
  · rintro ⟨h1, h2, h3, h4, h5, h6, h7, h8, h9⟩
    exact ⟨_, h1, _, h2, _, h3, _, h4, _, h5, _, h6, _, h9, by rw [h7, h8]⟩

/-- A state that may be missing is read as none if it is. -/
theorem mapM_getD_none {x : Option (Option String)} {o : Option StateName} :
    (x.getD none).mapM StateName.read? = some o ↔
      ∃ y, x.mapM (Option.mapM StateName.read?) = some y ∧ y.getD none = o := by
  cases x with
  | none =>
    constructor
    · exact fun h => ⟨none, rfl, Option.some.inj h⟩
    · rintro ⟨y, hy, rfl⟩
      cases hy
      rfl
  | some s =>
    constructor
    · exact fun h => ⟨some o, mapM_some_eq_some_iff.mpr ⟨o, h, rfl⟩, rfl⟩
    · rintro ⟨y, hy, rfl⟩
      obtain ⟨o, ho, rfl⟩ := mapM_some_eq_some_iff.mp hy
      exact ho

theorem shape_spells : ShapeSpells Draft.ReadAs shape Snapshot.Json.shape read? where
  fields := fields_spell
  apart := fields_apart
  unset := by
    intro f hf
    simp only [shape, List.mem_cons, List.not_mem_nil, or_false] at hf
    rcases hf with rfl | rfl | rfl | rfl | rfl | rfl | rfl | rfl | rfl <;> rfl
  start y := by
    constructor
    · rintro ⟨h1, h2, h3, h4, h5, h6, h7, h8, h9⟩
      cases y
      cases h1
      cases h2
      cases h3
      cases h4
      cases h5
      cases h6
      cases h7
      cases h8
      cases h9
      rfl
    · rintro rfl
      exact ⟨rfl, rfl, rfl, rfl, rfl, rfl, rfl, rfl, rfl⟩
  mayEndEarly := rfl
  finish x c := by
    simp only [finish_eq_ok_iff, snapshot_finish_eq_ok_iff, read?_eq_some_iff]
    constructor
    · rintro ⟨y, hR, h1, h2, h3, h4, h5, h6, h7, h8, h9⟩
      obtain ⟨version, hx1, h1⟩ := mapM_eq_some_some_iff.mp (h1 ▸ hR.version)
      obtain ⟨id, hx2, h2⟩ := mapM_eq_some_some_iff.mp (h2 ▸ hR.id)
      obtain ⟨createdAt, hx3, h3⟩ := mapM_eq_some_some_iff.mp (h3 ▸ hR.createdAt)
      obtain ⟨symbols, hx4, h4⟩ := mapM_eq_some_some_iff.mp (h4 ▸ hR.symbols)
      obtain ⟨states, hx5, h5⟩ := mapM_eq_some_some_iff.mp (h5 ▸ hR.states)
      obtain ⟨finals, hx6, h6⟩ := mapM_eq_some_some_iff.mp (h6 ▸ hR.finals)
      obtain ⟨transitions, hx9, h9⟩ := mapM_eq_some_some_iff.mp (h9 ▸ hR.transitions)
      exact ⟨⟨version, id, createdAt, symbols, states, finals, x.initial.getD none,
          x.current.getD none, transitions⟩,
        ⟨hx1, hx2, hx3, hx4, hx5, hx6, rfl, rfl, hx9⟩, (Option.some.inj h1).symm,
        (Option.some.inj h2).symm, h3, h4, h5, h6, mapM_getD_none.mpr ⟨_, hR.initial, h7⟩,
        mapM_getD_none.mpr ⟨_, hR.current, h8⟩, h9⟩
    · rintro ⟨r, ⟨hx1, hx2, hx3, hx4, hx5, hx6, hx7, hx8, hx9⟩, h1, h2, h3, h4, h5, h6, h7, h8, h9⟩
      obtain ⟨initial, hinitial, h7⟩ := mapM_getD_none.mp (hx7 ▸ h7)
      obtain ⟨current, hcurrent, h8⟩ := mapM_getD_none.mp (hx8 ▸ h8)
      refine ⟨⟨some c.version, some c.id, some c.createdAt, some c.symbols, some c.states,
        some c.finals, initial, current, some c.transitions⟩,
        ⟨?_, ?_, ?_, ?_, ?_, ?_, hinitial, hcurrent, ?_⟩,
        rfl, rfl, rfl, rfl, rfl, rfl, h7, h8, rfl⟩
      · exact mapM_eq_some_some_iff.mpr ⟨_, hx1, by rw [h1]⟩
      · exact mapM_eq_some_some_iff.mpr ⟨_, hx2, by rw [h2]⟩
      · exact mapM_eq_some_some_iff.mpr ⟨_, hx3, h3⟩
      · exact mapM_eq_some_some_iff.mpr ⟨_, hx4, h4⟩
      · exact mapM_eq_some_some_iff.mpr ⟨_, hx5, h5⟩
      · exact mapM_eq_some_some_iff.mpr ⟨_, hx6, h6⟩
      · exact mapM_eq_some_some_iff.mpr ⟨_, hx9, h9⟩

/-- A text is a snapshot exactly if it holds the spelling of one. -/
theorem decode_eq_ok_iff {source : String} {c : Snapshot} :
    Snapshot.Json.decode source = .ok c ↔ ∃ r, ofJson source = .ok r ∧ r.read? = some c :=
  shape_spells.record.decode

end Spelling

/-! ## Writing -/

theorem reads_string (s : String) : Reads Decoder.string (.text s) s :=
  reads_textAs rfl

theorem reads_char (c : Char) : Reads Decoder.char (.text c.toString) c := by
  apply reads_textAs
  rw [Char.toString_eq_singleton, String.toList_singleton]

theorem reads_nullableString (o : Option String) :
    Reads (nullable Decoder.string) (.nullable (o.map .text)) o := by
  cases o with
  | none => exact reads_null
  | some s => exact reads_some (reads_string s) (fun _ h => by cases h)

theorem reads_id (id : Uuid) : Reads Uuid.decoder (.text id.text) id := by
  apply reads_textAs
  rw [id.parse_text]
  rfl

namespace SpelledTransition

def printer (t : SpelledTransition) : Printer :=
  .object [
    ("symbol", .text t.symbol.toString),
    ("from", .text t.source),
    ("to", .text t.target)]

theorem reads_printer (t : SpelledTransition) : Reads decoder t.printer t := by
  unfold decoder printer
  refine reads_record (.cons rfl rfl (reads_field (reads_char t.symbol) _)
    (.cons rfl rfl (reads_field (reads_string t.source) _)
    (.cons rfl rfl (reads_field (reads_string t.target) _) (.nil _)))) (List.cons_ne_nil _ _) rfl

end SpelledTransition

namespace Spelling

def printer (r : Spelling) : Printer :=
  .object [
    ("version", .natural r.version.toNat),
    ("id", .text r.id.text),
    ("created_at", .text r.createdAt),
    ("symbols", .list (r.symbols.map fun c => .text c.toString)),
    ("states", .list (r.states.map .text)),
    ("final_states", .list (r.finals.map .text)),
    ("initial_state", .nullable (r.initial.map .text)),
    ("current_state", .nullable (r.current.map .text)),
    ("transitions", .list (r.transitions.map SpelledTransition.printer))]

/-- The text in which a spelling is printed. -/
def toJson (r : Spelling) : String :=
  r.printer.print

theorem reads_printer (r : Spelling) : Reads (record shape) r.printer r := by
  have htexts (l : List String) : Reads (list Decoder.string) (.list (l.map .text)) l :=
    reads_list (fun s _ => reads_string s)
  have hsymbols : Reads (list Decoder.char) (.list (r.symbols.map fun c => .text c.toString))
      r.symbols := reads_list (fun c _ => reads_char c)
  have htransitions : Reads (list SpelledTransition.decoder)
      (.list (r.transitions.map SpelledTransition.printer)) r.transitions :=
    reads_list (fun t _ => t.reads_printer)
  unfold printer
  -- The fields fill the draft in the order in which they are printed.
  refine reads_record (.cons rfl rfl (reads_field (reads_natural32 r.version) _)
    (.cons rfl rfl (reads_field (reads_id r.id) _)
    (.cons rfl rfl (reads_field (reads_string r.createdAt) _)
    (.cons rfl rfl (reads_field hsymbols _)
    (.cons rfl rfl (reads_field (htexts r.states) _)
    (.cons rfl rfl (reads_field (htexts r.finals) _)
    (.cons rfl rfl (reads_field (reads_nullableString r.initial) _)
    (.cons rfl rfl (reads_field (reads_nullableString r.current) _)
    (.cons rfl rfl (reads_field htransitions _) (.nil _)))))))))) (List.cons_ne_nil _ _) rfl

theorem ofJson_toJson (r : Spelling) : ofJson r.toJson = .ok r :=
  decode_print r.reads_printer

/-- A snapshot is printed as its own spelling is. -/
theorem toJson_spelling (c : Snapshot) : c.spelling.toJson = Snapshot.Json.encode c := by
  unfold toJson printer Snapshot.spelling Snapshot.Json.encode Snapshot.Json.printer
  simp only [List.map_map, Option.map_map]
  rfl

end Spelling

theorem Snapshot.Json.decode_encode (c : Snapshot) : decode (encode c) = .ok c :=
  Spelling.decode_eq_ok_iff.mpr ⟨c.spelling, by rw [← Spelling.toJson_spelling,
    Spelling.ofJson_toJson], c.read?_spelling⟩

end Statewright
