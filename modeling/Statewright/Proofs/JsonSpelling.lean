import Statewright.Proofs.JsonExtent
import Statewright.Proofs.Spelling

/-!
# JSON: decoders and what they read

A decoder of names takes texts and reads them as names. Two decoders that differ only in what is
made of the texts take the same, and the one reads what the other one took. So do lists and records
of such values.
-/

open Statewright.Fallible

namespace Statewright.Json.Decoder

variable {α β γ δ ρ : Type}

/-- Whether a decoder takes what another one takes, and makes of it what `read` does. -/
def Spells (raw : Decoder β) (d : Decoder α) (read : β → Option α) : Prop :=
  ∀ cs a rest, d cs = .ok (a, rest) ↔ ∃ b, raw cs = .ok (b, rest) ∧ read b = some a

/-! ## Scalars and lists -/

theorem spells_self (d : Decoder α) : Spells d d some := by
  intro cs a rest
  constructor
  · exact fun h => ⟨a, h, rfl⟩
  · rintro ⟨b, h, hb⟩
    cases hb
    exact h

theorem spells_textAs {ε : Type} {expected expected' : String} {parse : String → Except ε α}
    {cause : ε → Cause} :
    Spells (textAs expected .ok) (textAs expected' fun s => (parse s).mapError cause)
      (fun s => (parse s).toOption) := by
  intro cs a rest
  rw [textAs_eq_ok_iff]
  constructor
  · rintro ⟨front, s, hquote, htext, hread⟩
    exact ⟨s, textAs_eq_ok_iff.mpr ⟨front, s, hquote, htext, rfl⟩,
      toOption_eq_some_iff.mpr (mapError_eq_ok_iff.mp hread)⟩
  · rintro ⟨s, hs, hread⟩
    obtain ⟨front, s, hquote, htext, hsame⟩ := textAs_eq_ok_iff.mp hs
    cases hsame
    exact ⟨front, _, hquote, htext, mapError_eq_ok_iff.mpr (toOption_eq_some_iff.mp hread)⟩

theorem spells_refine {ε : Type} {d : Decoder β} {parse : β → Except ε α} {reason : ε → String} :
    Spells d (refine d fun b => (parse b).mapError reason) (fun b => (parse b).toOption) := by
  intro cs a rest
  rw [refine_eq_ok_iff]
  constructor
  · rintro ⟨b, hb, hread⟩
    exact ⟨b, hb, toOption_eq_some_iff.mpr (mapError_eq_ok_iff.mp hread)⟩
  · rintro ⟨b, hb, hread⟩
    exact ⟨b, hb, mapError_eq_ok_iff.mpr (toOption_eq_some_iff.mp hread)⟩

theorem mapM_some_eq_some_iff {read : β → Option α} {b : β} {o : Option α} :
    (some b).mapM read = some o ↔ ∃ a, read b = some a ∧ o = some a := by
  rw [Option.mapM_some]
  constructor
  · intro h
    obtain ⟨a, ha, ho⟩ := Option.map_eq_some_iff.mp h
    exact ⟨a, ha, ho.symm⟩
  · rintro ⟨a, ha, rfl⟩
    exact Option.map_eq_some_iff.mpr ⟨a, ha, rfl⟩

theorem mapM_eq_some_some_iff {read : β → Option α} {o : Option β} {a : α} :
    o.mapM read = some (some a) ↔ ∃ b, o = some b ∧ read b = some a := by
  cases o with
  | none => exact ⟨fun h => (nomatch Option.some.inj h), fun ⟨_, h, _⟩ => (nomatch h)⟩
  | some b =>
    rw [mapM_some_eq_some_iff]
    constructor
    · rintro ⟨a', ha, h⟩
      cases h
      exact ⟨b, rfl, ha⟩
    · rintro ⟨b', h, ha⟩
      cases h
      exact ⟨a, ha, rfl⟩

theorem Spells.nullable {raw : Decoder β} {d : Decoder α} {read : β → Option α}
    (h : Spells raw d read) : Spells raw.nullable d.nullable (Option.mapM read) := by
  intro cs o rest
  unfold Decoder.nullable
  split
  · constructor
    · intro hnull
      obtain ⟨after, hword, hafter⟩ := map_eq_ok_iff.mp hnull
      cases hafter
      exact ⟨none, map_eq_ok_iff.mpr ⟨after, hword, rfl⟩, rfl⟩
    · rintro ⟨o', hnull, hread⟩
      obtain ⟨after, hword, hafter⟩ := map_eq_ok_iff.mp hnull
      cases hafter
      cases hread
      exact map_eq_ok_iff.mpr ⟨after, hword, rfl⟩
  · constructor
    · intro hsome
      obtain ⟨⟨a, after⟩, ha, hafter⟩ := map_eq_ok_iff.mp hsome
      cases hafter
      obtain ⟨b, hb, hread⟩ := (h _ _ _).mp ha
      exact ⟨some b, map_eq_ok_iff.mpr ⟨_, hb, rfl⟩, mapM_some_eq_some_iff.mpr ⟨a, hread, rfl⟩⟩
    · rintro ⟨o', hsome, hread⟩
      obtain ⟨⟨b, after⟩, hb, hafter⟩ := map_eq_ok_iff.mp hsome
      cases hafter
      obtain ⟨a, ha, rfl⟩ := mapM_some_eq_some_iff.mp hread
      exact map_eq_ok_iff.mpr ⟨_, (h _ _ _).mpr ⟨b, hb, ha⟩, rfl⟩

theorem Spells.elements {raw : Decoder β} {d : Decoder α} {read : β → Option α}
    (h : Spells raw d read) (n : Nat) (isFirst : Bool) :
    Spells (elements raw n isFirst) (elements d n isFirst) (List.mapM read) := by
  induction n generalizing isFirst with
  | zero =>
    intro cs as rest
    exact ⟨fun h => (nomatch h), fun ⟨_, h, _⟩ => (nomatch h)⟩
  | succ n ih =>
    intro cs as rest
    rw [elements_eq_ok_iff]
    constructor
    · rintro (⟨hnext, rfl, rfl⟩ | ⟨front, a, after, others, hnext, ha, hothers, rfl⟩)
      · exact ⟨[], elements_eq_ok_iff.mpr (.inl ⟨hnext, rfl, rfl⟩), rfl⟩
      · obtain ⟨b, hb, hread⟩ := (h _ _ _).mp ha
        obtain ⟨bs, hbs, hreads⟩ := (ih _ _ _ _).mp hothers
        exact ⟨b :: bs, elements_eq_ok_iff.mpr (.inr ⟨front, b, after, bs, hnext, hb, hbs, rfl⟩),
          Spelling.mapM_eq_some_iff.mpr ⟨a, others, hread, hreads, rfl⟩⟩
    · rintro ⟨bs, hbs, hread⟩
      rcases elements_eq_ok_iff.mp hbs with
        ⟨hnext, rfl, rfl⟩ | ⟨front, b, after, others, hnext, hb, hothers, rfl⟩
      · cases hread
        exact .inl ⟨hnext, rfl, rfl⟩
      · obtain ⟨a, as, ha, has, rfl⟩ := Spelling.mapM_eq_some_iff.mp hread
        exact .inr ⟨front, a, after, as, hnext, (h _ _ _).mpr ⟨b, hb, ha⟩,
          (ih _ _ _ _).mpr ⟨others, hothers, has⟩, rfl⟩

theorem Spells.list {raw : Decoder β} {d : Decoder α} {read : β → Option α}
    (h : Spells raw d read) : Spells raw.list d.list (List.mapM read) := by
  intro cs as rest
  rw [list_eq_ok_iff]
  constructor
  · rintro ⟨front, after, hlist, helements, hend⟩
    obtain ⟨bs, hbs, hread⟩ := (h.elements _ _ _ _ _).mp helements
    exact ⟨bs, list_eq_ok_iff.mpr ⟨front, after, hlist, hbs, hend⟩, hread⟩
  · rintro ⟨bs, hbs, hread⟩
    obtain ⟨front, after, hlist, helements, hend⟩ := list_eq_ok_iff.mp hbs
    exact ⟨front, after, hlist, (h.elements _ _ _ _ _).mpr ⟨bs, helements, hread⟩, hend⟩

/-! ## Records -/

/-- Whether a field is read from the text that another one takes, from a draft that is read from the
draft of the other one. -/
structure FieldSpells (R : ρ → δ → Prop) (raw : Field ρ) (f : Field δ) : Prop where
  name : raw.name = f.name
  isSet : ∀ {x y}, R x y → raw.isSet x = f.isSet y
  forward : ∀ {x y cs y' rest}, R x y → f.read y cs = .ok (y', rest) →
    ∃ x', raw.read x cs = .ok (x', rest) ∧ R x' y'
  /-- A draft was read before, if what it became once the field was set is read. -/
  back : ∀ {x x' y' cs rest}, raw.isSet x = false → raw.read x cs = .ok (x', rest) → R x' y' →
    ∃ y, R x y ∧ f.read y cs = .ok (y', rest)

theorem fieldSpells_of {R : ρ → δ → Prop} {name : String} {getRaw : ρ → Option β}
    {setRaw : ρ → β → ρ} {get : δ → Option α} {set : δ → α → δ} {raw : Decoder β} {d : Decoder α}
    {read : β → Option α} (h : Spells raw d read) (clear : δ → δ)
    (hget : ∀ x y, R x y → (getRaw x).mapM read = some (get y))
    (hgetRaw : ∀ x b, getRaw (setRaw x b) = some b)
    (hset : ∀ x y b a, R x y → read b = some a → R (setRaw x b) (set y a))
    (hclear : ∀ x y b, getRaw x = none → R (setRaw x b) y → R x (clear y))
    (hput : ∀ y a, get y = some a → set (clear y) a = y) :
    FieldSpells R (.of name getRaw setRaw raw) (.of name get set d) where
  name := rfl
  isSet {x y} hR := by
    have hread := hget x y hR
    show (getRaw x).isSome = (get y).isSome
    cases hx : getRaw x with
    | none =>
      rw [hx] at hread
      rw [← Option.some.inj hread]
      rfl
    | some b =>
      rw [hx] at hread
      obtain ⟨a, -, ha⟩ := mapM_some_eq_some_iff.mp hread
      rw [ha]
      rfl
  forward {x y cs y' rest} hR hread := by
    obtain ⟨⟨a, after⟩, ha, hread⟩ := map_eq_ok_iff.mp hread
    cases hread
    obtain ⟨b, hb, hab⟩ := (h _ _ _).mp ha
    exact ⟨setRaw x b, map_eq_ok_iff.mpr ⟨_, hb, rfl⟩, hset x y b a hR hab⟩
  back {x x' y' cs rest} hunset hread hR := by
    obtain ⟨⟨b, after⟩, hb, hread⟩ := map_eq_ok_iff.mp hread
    cases hread
    have hx : getRaw x = none := Option.not_isSome_iff_eq_none.mp (Bool.eq_false_iff.mp hunset)
    have hab := hget _ _ hR
    rw [hgetRaw] at hab
    obtain ⟨a, ha, hy⟩ := mapM_some_eq_some_iff.mp hab
    refine ⟨clear y', hclear x y' b hx hR, map_eq_ok_iff.mpr ⟨_, (h _ _ _).mpr ⟨b, hb, ha⟩, ?_⟩⟩
    dsimp only
    rw [hput y' a hy]

/-- Whether reading one field leaves another one as it is. -/
def Apart (f g : Field δ) : Prop :=
  ∀ draft cs next rest, f.read draft cs = .ok (next, rest) → g.isSet next = g.isSet draft

theorem apart_of {name name' : String} {get : δ → Option α} {set : δ → α → δ} {d : Decoder α}
    {get' : δ → Option β} {set' : δ → β → δ} {d' : Decoder β}
    (h : ∀ draft a, get' (set draft a) = get' draft) :
    Apart (Field.of name get set d) (Field.of name' get' set' d') := by
  intro draft cs next rest hread
  obtain ⟨⟨a, after⟩, -, hread⟩ := map_eq_ok_iff.mp hread
  cases hread
  show (get' (set draft a)).isSome = (get' draft).isSome
  rw [h]

/-- Whether a record is read from what another one takes. -/
structure ShapeSpells (R : ρ → δ → Prop) (raw : Shape ρ β) (shape : Shape δ α)
    (read : β → Option α) : Prop where
  fields : List.Forall₂ (FieldSpells R) raw.fields shape.fields
  apart : raw.fields.Pairwise Apart
  unset : ∀ f ∈ raw.fields, f.isSet raw.start = false
  start : ∀ y, R raw.start y ↔ y = shape.start
  mayEndEarly : raw.mayEndEarly = shape.mayEndEarly
  finish : ∀ x a, (∃ y, R x y ∧ shape.finish y = .ok a) ↔
    ∃ b, raw.finish x = .ok b ∧ read b = some a

variable {R : ρ → δ → Prop} {raw : Shape ρ β} {shape : Shape δ α} {read : β → Option α}

theorem fieldsInOrder_forward (hearly : raw.mayEndEarly = shape.mayEndEarly)
    {rawFields : List (Field ρ)} {fields : List (Field δ)}
    (hfields : List.Forall₂ (FieldSpells R) rawFields fields) {index : Nat} {x : ρ} {y final : δ}
    {cs rest : List Char} (hR : R x y)
    (h : fieldsInOrder shape fields index y cs = .ok (final, rest)) :
    ∃ rawFinal, fieldsInOrder raw rawFields index x cs = .ok (rawFinal, rest) ∧
      R rawFinal final := by
  induction hfields generalizing index x y cs with
  | nil =>
    cases h
    exact ⟨x, rfl, hR⟩
  | cons hf _ ih =>
    rcases fieldsInOrder_eq_ok_iff.mp h with
      ⟨hnext, hends, rfl, rfl⟩ | ⟨front, next, after, hnext, hread, h⟩
    · exact ⟨x, fieldsInOrder_eq_ok_iff.mpr (.inl ⟨hnext, hearly.trans hends, rfl, rfl⟩), hR⟩
    · obtain ⟨rawNext, hraw, hR⟩ := hf.forward hR hread
      obtain ⟨rawFinal, hrest, hR⟩ := ih hR h
      exact ⟨rawFinal, fieldsInOrder_eq_ok_iff.mpr
        (.inr ⟨front, rawNext, after, hnext, hraw, hrest⟩), hR⟩

theorem fieldsInOrder_back (hearly : raw.mayEndEarly = shape.mayEndEarly)
    {rawFields : List (Field ρ)} {fields : List (Field δ)}
    (hfields : List.Forall₂ (FieldSpells R) rawFields fields) (hapart : rawFields.Pairwise Apart)
    {index : Nat} {x rawFinal : ρ} {final : δ} {cs rest : List Char}
    (hunset : ∀ f ∈ rawFields, f.isSet x = false)
    (h : fieldsInOrder raw rawFields index x cs = .ok (rawFinal, rest)) (hR : R rawFinal final) :
    ∃ y, R x y ∧ fieldsInOrder shape fields index y cs = .ok (final, rest) := by
  induction hfields generalizing index x cs with
  | nil =>
    cases h
    exact ⟨final, hR, rfl⟩
  | @cons _ _ rawFields _ hf _ ih =>
    obtain ⟨hset, hunset⟩ := List.forall_mem_cons.mp hunset
    obtain ⟨hothers, hapart⟩ := List.pairwise_cons.mp hapart
    rcases fieldsInOrder_eq_ok_iff.mp h with
      ⟨hnext, hends, rfl, rfl⟩ | ⟨front, next, after, hnext, hread, h⟩
    · exact ⟨final, hR, fieldsInOrder_eq_ok_iff.mpr
        (.inl ⟨hnext, hearly.symm.trans hends, rfl, rfl⟩)⟩
    · -- The fields behind this one are still to be set.
      have hlater : ∀ g ∈ rawFields, g.isSet next = false := fun g hg =>
        (hothers g hg _ _ _ _ hread).trans (hunset g hg)
      obtain ⟨y', hR', hrest⟩ := ih hapart hlater h
      obtain ⟨y, hR, htyped⟩ := hf.back hset hread hR'
      exact ⟨y, hR, fieldsInOrder_eq_ok_iff.mpr (.inr ⟨front, y', after, hnext, htyped, hrest⟩)⟩

theorem find?_forall₂ {rawFields : List (Field ρ)} {fields : List (Field δ)}
    (h : List.Forall₂ (FieldSpells R) rawFields fields) (name : String) :
    (rawFields.find? (fun f => f.name = name) = none ∧
      fields.find? (fun f => f.name = name) = none) ∨
    ∃ rawField f, rawFields.find? (fun f => f.name = name) = some rawField ∧
      fields.find? (fun f => f.name = name) = some f ∧ FieldSpells R rawField f := by
  induction h with
  | nil => exact .inl ⟨rfl, rfl⟩
  | @cons rawField f _ _ hf _ ih =>
    rw [List.find?_cons, List.find?_cons, hf.name]
    cases decide (f.name = name) with
    | true => exact .inr ⟨rawField, f, rfl, rfl, hf⟩
    | false => exact ih

theorem fieldsByName_forward (hfields : List.Forall₂ (FieldSpells R) raw.fields shape.fields)
    {n : Nat} {isFirst : Bool} {x : ρ} {y final : δ} {cs rest : List Char} (hR : R x y)
    (h : fieldsByName shape n isFirst y cs = .ok (final, rest)) :
    ∃ rawFinal, fieldsByName raw n isFirst x cs = .ok (rawFinal, rest) ∧ R rawFinal final := by
  induction n generalizing isFirst x y cs with
  | zero => cases h
  | succ n ih =>
    rcases fieldsByName_eq_ok_iff.mp h with
      ⟨hnext, rfl, rfl⟩ | ⟨front, name, afterName, value, hnext, hname, hcolon, h⟩
    · exact ⟨x, fieldsByName_eq_ok_iff.mpr (.inl ⟨hnext, rfl, rfl⟩), hR⟩
    · rcases find?_forall₂ hfields name with ⟨hraw, hnone⟩ | ⟨rawField, g, hraw, hsome, hg⟩
      · rcases h with ⟨f, next, after, hf, hset, hread, h⟩ | ⟨after, hf, hskip, h⟩
        · rw [hnone] at hf
          cases hf
        · obtain ⟨rawFinal, hrest, hR⟩ := ih hR h
          exact ⟨rawFinal, fieldsByName_eq_ok_iff.mpr (.inr ⟨front, name, afterName, value, hnext,
            hname, hcolon, .inr ⟨after, hraw, hskip, hrest⟩⟩), hR⟩
      · rcases h with ⟨f, next, after, hf, hset, hread, h⟩ | ⟨after, hf, hskip, h⟩
        · rw [hsome] at hf
          cases hf
          obtain ⟨rawNext, hrawRead, hR'⟩ := hg.forward hR hread
          obtain ⟨rawFinal, hrest, hR''⟩ := ih hR' h
          exact ⟨rawFinal, fieldsByName_eq_ok_iff.mpr (.inr ⟨front, name, afterName, value, hnext,
            hname, hcolon, .inl ⟨rawField, rawNext, after, hraw, (hg.isSet hR).trans hset, hrawRead,
            hrest⟩⟩), hR''⟩
        · rw [hsome] at hf
          cases hf

theorem fieldsByName_back (hfields : List.Forall₂ (FieldSpells R) raw.fields shape.fields)
    {n : Nat} {isFirst : Bool} {x rawFinal : ρ} {final : δ} {cs rest : List Char}
    (h : fieldsByName raw n isFirst x cs = .ok (rawFinal, rest)) (hR : R rawFinal final) :
    ∃ y, R x y ∧ fieldsByName shape n isFirst y cs = .ok (final, rest) := by
  induction n generalizing isFirst x cs with
  | zero => cases h
  | succ n ih =>
    rcases fieldsByName_eq_ok_iff.mp h with
      ⟨hnext, rfl, rfl⟩ | ⟨front, name, afterName, value, hnext, hname, hcolon, h⟩
    · exact ⟨final, hR, fieldsByName_eq_ok_iff.mpr (.inl ⟨hnext, rfl, rfl⟩)⟩
    · rcases find?_forall₂ hfields name with ⟨hraw, hnone⟩ | ⟨rawField, g, hraw, hsome, hg⟩
      · rcases h with ⟨f, next, after, hf, hset, hread, h⟩ | ⟨after, hf, hskip, h⟩
        · rw [hraw] at hf
          cases hf
        · obtain ⟨y, hR, hrest⟩ := ih h
          exact ⟨y, hR, fieldsByName_eq_ok_iff.mpr (.inr ⟨front, name, afterName, value, hnext,
            hname, hcolon, .inr ⟨after, hnone, hskip, hrest⟩⟩)⟩
      · rcases h with ⟨f, next, after, hf, hset, hread, h⟩ | ⟨after, hf, hskip, h⟩
        · rw [hraw] at hf
          cases hf
          obtain ⟨y', hR', hrest⟩ := ih h
          obtain ⟨y, hR, htyped⟩ := hg.back hset hread hR'
          exact ⟨y, hR, fieldsByName_eq_ok_iff.mpr (.inr ⟨front, name, afterName, value, hnext,
            hname, hcolon, .inl ⟨g, y', after, hsome, (hg.isSet hR).symm.trans hset, htyped,
            hrest⟩⟩)⟩
        · rw [hraw] at hf
          cases hf

/-- A record is read from what the other one takes, in either form. -/
theorem ShapeSpells.record (h : ShapeSpells R raw shape read) :
    Spells (record raw) (record shape) read := by
  intro cs a rest
  have hstart := (h.start shape.start).mpr rfl
  constructor
  · intro hread
    rcases record_eq_ok_iff.mp hread with
      ⟨front, final, after, hlist, hfields, hfinish, hend⟩ |
      ⟨front, final, after, hobject, hfields, hfinish, hend⟩
    · obtain ⟨rawFinal, hraw, hR⟩ := fieldsInOrder_forward h.mayEndEarly h.fields hstart hfields
      obtain ⟨b, hb, hab⟩ := (h.finish _ _).mp ⟨final, hR, hfinish⟩
      exact ⟨b, record_eq_ok_iff.mpr (.inl ⟨front, rawFinal, after, hlist, hraw, hb, hend⟩), hab⟩
    · obtain ⟨rawFinal, hraw, hR⟩ := fieldsByName_forward h.fields hstart hfields
      obtain ⟨b, hb, hab⟩ := (h.finish _ _).mp ⟨final, hR, hfinish⟩
      exact ⟨b, record_eq_ok_iff.mpr (.inr ⟨front, rawFinal, after, hobject, hraw, hb, hend⟩), hab⟩
  · rintro ⟨b, hread, hab⟩
    rcases record_eq_ok_iff.mp hread with
      ⟨front, rawFinal, after, hlist, hfields, hfinish, hend⟩ |
      ⟨front, rawFinal, after, hobject, hfields, hfinish, hend⟩
    · obtain ⟨final, hR, ha⟩ := (h.finish _ _).mpr ⟨b, hfinish, hab⟩
      obtain ⟨y, hy, htyped⟩ :=
        fieldsInOrder_back h.mayEndEarly h.fields h.apart h.unset hfields hR
      cases (h.start y).mp hy
      exact record_eq_ok_iff.mpr (.inl ⟨front, final, after, hlist, htyped, ha, hend⟩)
    · obtain ⟨final, hR, ha⟩ := (h.finish _ _).mpr ⟨b, hfinish, hab⟩
      obtain ⟨y, hy, htyped⟩ := fieldsByName_back h.fields hfields hR
      cases (h.start y).mp hy
      exact record_eq_ok_iff.mpr (.inr ⟨front, final, after, hobject, htyped, ha, hend⟩)

/-! ## Whole texts -/

theorem Spells.decode {raw : Decoder β} {d : Decoder α} {read : β → Option α}
    (h : Spells raw d read) {source : String} {a : α} :
    decode d source = .ok a ↔ ∃ b, decode raw source = .ok b ∧ read b = some a := by
  rw [decode_eq_ok_iff]
  constructor
  · rintro ⟨rest, hread, hspace⟩
    obtain ⟨b, hb, hab⟩ := (h _ _ _).mp hread
    exact ⟨b, decode_eq_ok_iff.mpr ⟨rest, hb, hspace⟩, hab⟩
  · rintro ⟨b, hb, hab⟩
    obtain ⟨rest, hread, hspace⟩ := decode_eq_ok_iff.mp hb
    exact ⟨rest, (h _ _ _).mpr ⟨b, hread, hab⟩, hspace⟩

end Statewright.Json.Decoder
