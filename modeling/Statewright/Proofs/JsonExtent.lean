import Statewright.Proofs.Json
import Statewright.Proofs.JsonSkip

/-!
# JSON: where values end

A list, an object or a text that is read ends with a sign of its own, so it is read as the same
value whatever is put behind it. A text that holds such a value is refused as soon as anything but
space is put behind it, or anything but space is taken off its end.
-/

open Statewright.Fallible

namespace Statewright.Json

variable {α β δ : Type}

namespace Decoder

/-! ## Scalars -/

theorem textAs_eq_ok_iff {expected : String} {read : String → Except Cause α} {cs rest : List Char}
    {a : α} : textAs expected read cs = .ok (a, rest) ↔
      ∃ front s, skipSpace cs = '"' :: front ∧ text front = .ok (s, rest) ∧ read s = .ok a := by
  constructor
  · intro h
    unfold textAs at h
    split at h
    · cases h
    · next front hquote =>
      obtain ⟨⟨s, after⟩, htext, h⟩ := bind_eq_ok_iff.mp h
      dsimp only at h
      split at h
      · next hread =>
        cases h
        exact ⟨front, s, hquote, htext, hread⟩
      · cases h
    · cases h
  · rintro ⟨front, s, hquote, htext, hread⟩
    rw [textAs, hquote]
    refine bind_eq_ok_iff.mpr ⟨_, htext, ?_⟩
    dsimp only
    rw [hread]
    rfl

theorem textAs_closed (expected : String) (read : String → Except Cause α) :
    Closed (textAs expected read) := by
  intro cs a rest h more
  obtain ⟨front, s, hquote, htext, hread⟩ := textAs_eq_ok_iff.mp h
  exact textAs_eq_ok_iff.mpr
    ⟨_, s, skipSpace_more hquote more, text_closed _ _ _ htext more, hread⟩

theorem refine_eq_ok_iff {d : Decoder α} {read : α → Except String β} {cs rest : List Char} {b : β} :
    refine d read cs = .ok (b, rest) ↔ ∃ a, d cs = .ok (a, rest) ∧ read a = .ok b := by
  constructor
  · intro h
    obtain ⟨⟨a, after⟩, ha, h⟩ := bind_eq_ok_iff.mp h
    dsimp only at h
    split at h
    · next hread =>
      cases h
      exact ⟨a, ha, hread⟩
    · cases h
  · rintro ⟨a, ha, hread⟩
    refine bind_eq_ok_iff.mpr ⟨_, ha, ?_⟩
    dsimp only
    rw [hread]
    rfl

theorem refine_closed {d : Decoder α} (h : Closed d) (read : α → Except String β) :
    Closed (refine d read) := by
  intro cs b rest hd more
  obtain ⟨a, ha, hread⟩ := refine_eq_ok_iff.mp hd
  exact refine_eq_ok_iff.mpr ⟨a, h _ _ _ ha more, hread⟩

/-- What is made of a number that was read where a whole one of 32 bits is expected. -/
def take32 (scan : Except Fault (Number × List Char)) : Except Fault (UInt32 × List Char) := do
  let (n, rest) ← scan
  match n with
  | .natural n =>
    if n < UInt32.size then return (UInt32.ofNat n, rest)
    else throw (.here (.wrongValue (.integer n) "u32") rest)
  | .negative n => throw (.here (.wrongValue (.integer (-n)) "u32") rest)
  | .float x => throw (.here (.wrongType (Number.float x).found "u32") rest)

theorem natural32_eq (cs : List Char) : natural32 cs =
    match skipSpace cs with
    | [] => .error (.here .endInValue [])
    | '-' :: rest => take32 (number true rest)
    | c :: cs =>
      if c.isDigit then take32 (number false (c :: cs))
      else .error (wrongShape "u32" (c :: cs)) :=
  rfl

theorem take32_more {negative : Bool} {cs rest : List Char} {n : UInt32}
    (h : take32 (number negative cs) = .ok (n, rest)) (hrest : rest ≠ []) (more : List Char) :
    take32 (number negative (cs ++ more)) = .ok (n, rest ++ more) := by
  obtain ⟨⟨k, after⟩, hk, h⟩ := bind_eq_ok_iff.mp h
  cases k with
  | natural k =>
    dsimp only at h
    split at h
    · next hsize =>
      cases h
      rw [number_steady _ _ _ _ hk hrest, take32, ok_bind]
      exact if_pos hsize
    · cases h
  | negative k => cases h
  | float x => cases h

theorem natural32_steady : Steady natural32 := by
  intro cs n rest h hrest more
  rw [natural32_eq] at h ⊢
  split at h
  · cases h
  · next front hminus =>
    rw [skipSpace_more hminus]
    exact take32_more h hrest more
  · next c front hminus hspace =>
    rw [skipSpace_more hspace]
    split at h
    · next hc =>
      split
      · next heq => cases heq
      · next heq => exact absurd (List.cons.inj heq).1 hminus
      · next heq =>
        cases heq
        rw [if_pos hc]
        exact take32_more h hrest more
    · cases h

theorem nullable_closed {d : Decoder α} (h : Closed d) (hempty : ∀ a rest, d [] ≠ .ok (a, rest)) :
    Closed (nullable d) := by
  intro cs o rest hd more
  unfold nullable at hd
  split at hd
  · next hnull =>
    obtain ⟨⟨⟨⟩, after⟩, hword, hd⟩ := map_eq_ok_iff.mp hd
    cases hd
    rw [nullable, skipSpace_more hnull]
    exact map_eq_ok_iff.mpr ⟨_, word_closed _ _ _ _ hword more, rfl⟩
  · next hnull =>
    obtain ⟨⟨a, after⟩, ha, hd⟩ := map_eq_ok_iff.mp hd
    cases hd
    cases hspace : skipSpace cs with
    | nil =>
      rw [hspace] at ha
      exact absurd ha (hempty _ _)
    | cons c front =>
      rw [hspace] at ha
      have hmore := h _ _ _ ha more
      unfold nullable
      rw [skipSpace_more hspace]
      split
      · next heq => exact absurd (by rw [hspace, (List.cons.inj heq).1]) (hnull front)
      · exact map_eq_ok_iff.mpr ⟨_, hmore, rfl⟩

/-! ## Lists -/

theorem closeWith_eq_ok_iff {search : List Char → List Char × Option Fault}
    {entries : Except Fault (α × List Char)} {a : α} {rest : List Char} :
    closeWith search entries = .ok (a, rest) ↔
      ∃ after, entries = .ok (a, after) ∧ search after = (rest, none) := by
  constructor
  · intro h
    unfold closeWith at h
    split at h
    · next after =>
      split at h
      · next hsearch =>
        cases h
        exact ⟨after, rfl, hsearch⟩
      · cases h
    · cases h
    · cases h
  · rintro ⟨after, rfl, hsearch⟩
    rw [closeWith, hsearch]

theorem endList_more {cs rest : List Char} (h : endList cs = (rest, none)) (more : List Char) :
    endList (cs ++ more) = (rest ++ more, none) := by
  unfold endList at h
  split at h
  · cases h
  · next hend =>
    cases h
    rw [endList, skipSpace_more hend]
    rfl
  · split at h <;> cases h
  · cases h

theorem endObject_more {cs rest : List Char} (h : endObject cs = (rest, none))
    (more : List Char) : endObject (cs ++ more) = (rest ++ more, none) := by
  unfold endObject at h
  split at h
  · cases h
  · next hend =>
    cases h
    rw [endObject, skipSpace_more hend]
    rfl
  · cases h
  · cases h

theorem nextElement?_more {isFirst : Bool} {cs : List Char} {front? : Option (List Char)}
    (h : nextElement? isFirst cs = .ok front?) (more : List Char) :
    nextElement? isFirst (cs ++ more) = .ok (front?.map (· ++ more)) := by
  unfold nextElement? at h
  split at h
  · cases h
  · next hend =>
    cases h
    rw [nextElement?, skipSpace_more hend]
    rfl
  · next c front hend hspace =>
    unfold nextElement?
    rw [skipSpace_more hspace]
    split
    · next heq => cases heq
    · next heq => exact absurd (List.cons.inj heq).1 hend
    · next heq =>
      cases heq
      split at h
      · next hfirst =>
        cases h
        rw [if_pos hfirst]
        rfl
      · next hfirst =>
        rw [if_neg hfirst]
        split at h
        · next hcomma =>
          rw [if_pos hcomma]
          split at h
          · cases h
          · cases h
          · next hnil hclose =>
            cases h
            obtain ⟨d, cs, hd⟩ := List.exists_cons_of_ne_nil hnil
            rw [skipSpace_more hd, hd]
            split
            · next heq => cases heq
            · next heq => exact absurd (by rw [hd, (List.cons.inj heq).1]) (hclose cs)
            · rfl
        · cases h

/-- What is read of the elements of a list: nothing at its end, and otherwise an element and what is
read of the others. -/
theorem elements_eq_ok_iff {d : Decoder α} {n : Nat} {isFirst : Bool} {cs rest : List Char}
    {as : List α} : elements d (n + 1) isFirst cs = .ok (as, rest) ↔
      (nextElement? isFirst cs = .ok none ∧ as = [] ∧ rest = cs) ∨
      ∃ front a after others, nextElement? isFirst cs = .ok (some front) ∧
        d front = .ok (a, after) ∧ elements d n false after = .ok (others, rest) ∧
        as = a :: others := by
  rw [elements, bind_eq_ok_iff]
  constructor
  · rintro ⟨front?, hnext, h⟩
    cases front? with
    | none =>
      cases h
      exact .inl ⟨hnext, rfl, rfl⟩
    | some front =>
      obtain ⟨⟨a, after⟩, ha, h⟩ := bind_eq_ok_iff.mp h
      obtain ⟨⟨others, rest⟩, hothers, h⟩ := bind_eq_ok_iff.mp h
      cases h
      exact .inr ⟨front, a, after, others, hnext, ha, hothers, rfl⟩
  · rintro (⟨hnext, rfl, rfl⟩ | ⟨front, a, after, others, hnext, ha, hothers, rfl⟩)
    · exact ⟨none, hnext, rfl⟩
    · refine ⟨some front, hnext, bind_eq_ok_iff.mpr ⟨_, ha, bind_eq_ok_iff.mpr ⟨_, hothers, rfl⟩⟩⟩

theorem elements_more {d : Decoder α} (hd : Steady d) {n m : Nat} {isFirst : Bool}
    {cs rest : List Char} {as : List α} (h : elements d n isFirst cs = .ok (as, rest)) (hm : n ≤ m)
    (more : List Char) : elements d m isFirst (cs ++ more) = .ok (as, rest ++ more) := by
  induction n generalizing m isFirst cs as with
  | zero => cases h
  | succ n ih =>
    obtain ⟨m, rfl⟩ := Nat.exists_eq_add_of_lt hm
    rcases elements_eq_ok_iff.mp h with
      ⟨hnext, rfl, rfl⟩ | ⟨front, a, after, others, hnext, ha, hothers, rfl⟩
    · exact elements_eq_ok_iff.mpr (.inl ⟨nextElement?_more hnext more, rfl, rfl⟩)
    · -- Something is left behind an element, at least the end of the list.
      have hafter : after ≠ [] := by
        rintro rfl
        cases n <;> cases hothers
      exact elements_eq_ok_iff.mpr (.inr ⟨_, a, _, others, nextElement?_more hnext more,
        hd _ _ _ ha hafter more, ih hothers (Nat.le_add_right n m), rfl⟩)

theorem list_eq_ok_iff {d : Decoder α} {cs rest : List Char} {as : List α} :
    list d cs = .ok (as, rest) ↔ ∃ front after, skipSpace cs = '[' :: front ∧
      elements d (front.length + 1) true front = .ok (as, after) ∧
      endList after = (rest, none) := by
  constructor
  · intro h
    unfold list at h
    split at h
    · cases h
    · next front hlist =>
      obtain ⟨after, helements, hend⟩ := closeWith_eq_ok_iff.mp h
      exact ⟨front, after, hlist, helements, hend⟩
    · cases h
  · rintro ⟨front, after, hlist, helements, hend⟩
    rw [list, hlist]
    exact closeWith_eq_ok_iff.mpr ⟨after, helements, hend⟩

theorem list_closed {d : Decoder α} (hd : Steady d) : Closed (list d) := by
  intro cs as rest h more
  obtain ⟨front, after, hlist, helements, hend⟩ := list_eq_ok_iff.mp h
  have hfuel : front.length + 1 ≤ (front ++ more).length + 1 := by
    rw [List.length_append]
    omega
  exact list_eq_ok_iff.mpr ⟨_, _, skipSpace_more hlist more,
    elements_more hd helements hfuel more, endList_more hend more⟩

/-! ## Records -/

theorem nextKey?_more {isFirst : Bool} {cs : List Char} {front? : Option (List Char)}
    (h : nextKey? isFirst cs = .ok front?) (more : List Char) :
    nextKey? isFirst (cs ++ more) = .ok (front?.map (· ++ more)) := by
  unfold nextKey? at h
  split at h
  · cases h
  · next hend =>
    cases h
    rw [nextKey?, skipSpace_more hend]
    rfl
  · next c front hend hspace =>
    unfold nextKey?
    rw [skipSpace_more hspace]
    split
    · next heq => cases heq
    · next heq => exact absurd (List.cons.inj heq).1 hend
    · next heq =>
      cases heq
      split at h
      · next hfirst =>
        rw [if_pos hfirst]
        split at h
        · next hquote =>
          cases h
          rw [if_pos hquote]
          rfl
        · cases h
      · next hfirst =>
        rw [if_neg hfirst]
        split at h
        · next hcomma =>
          rw [if_pos hcomma]
          split at h
          · cases h
          · next hquote =>
            cases h
            rw [skipSpace_more hquote]
            rfl
          · cases h
          · cases h
        · cases h

theorem colon_closed : Closed colon := by
  intro cs a rest h more
  unfold colon at h
  split at h
  · cases h
  · next hcolon =>
    cases h
    rw [colon, skipSpace_more hcolon]
    rfl
  · cases h

/-- Whether all fields of a record are read from as much as a value takes, whatever stands behind
it. -/
def Shape.Steady (shape : Shape δ α) : Prop :=
  ∀ f ∈ shape.fields, ∀ draft, Json.Steady (f.read draft)

theorem field_steady {name : String} {get : δ → Option α} {set : δ → α → δ} {d : Decoder α}
    (hd : Json.Steady d) (draft : δ) : Json.Steady ((Field.of name get set d).read draft) := by
  intro cs final rest h hrest more
  obtain ⟨⟨a, after⟩, ha, h⟩ := map_eq_ok_iff.mp h
  cases h
  exact map_eq_ok_iff.mpr ⟨_, hd _ _ _ ha hrest more, rfl⟩

theorem fieldsInOrder_eq_ok_iff {shape : Shape δ α} {f : Field δ} {fields : List (Field δ)}
    {index : Nat} {draft final : δ} {cs rest : List Char} :
    fieldsInOrder shape (f :: fields) index draft cs = .ok (final, rest) ↔
      (nextElement? (index == 0) cs = .ok none ∧ shape.mayEndEarly = true ∧ final = draft ∧
        rest = cs) ∨
      ∃ front next after, nextElement? (index == 0) cs = .ok (some front) ∧
        f.read draft front = .ok (next, after) ∧
        fieldsInOrder shape fields (index + 1) next after = .ok (final, rest) := by
  rw [fieldsInOrder, bind_eq_ok_iff]
  constructor
  · rintro ⟨front?, hnext, h⟩
    cases front? with
    | none =>
      dsimp only at h
      split at h
      · next hearly =>
        cases h
        exact .inl ⟨hnext, hearly, rfl, rfl⟩
      · cases h
    | some front =>
      obtain ⟨⟨next, after⟩, hread, h⟩ := bind_eq_ok_iff.mp h
      exact .inr ⟨front, next, after, hnext, hread, h⟩
  · rintro (⟨hnext, hearly, rfl, rfl⟩ | ⟨front, next, after, hnext, hread, h⟩)
    · exact ⟨none, hnext, if_pos hearly⟩
    · exact ⟨some front, hnext, bind_eq_ok_iff.mpr ⟨_, hread, h⟩⟩

theorem fieldsInOrder_more {shape : Shape δ α} {fields : List (Field δ)}
    (hfields : ∀ f ∈ fields, ∀ draft, Json.Steady (f.read draft)) {index : Nat} {draft final : δ}
    {cs rest : List Char} (h : fieldsInOrder shape fields index draft cs = .ok (final, rest))
    (hrest : rest ≠ []) (more : List Char) :
    fieldsInOrder shape fields index draft (cs ++ more) = .ok (final, rest ++ more) := by
  induction fields generalizing index draft cs with
  | nil =>
    cases h
    rfl
  | cons f fields ih =>
    obtain ⟨hf, hothers⟩ := List.forall_mem_cons.mp hfields
    rcases fieldsInOrder_eq_ok_iff.mp h with
      ⟨hnext, hearly, rfl, rfl⟩ | ⟨front, next, after, hnext, hread, h⟩
    · exact fieldsInOrder_eq_ok_iff.mpr (.inl ⟨nextElement?_more hnext more, hearly, rfl, rfl⟩)
    · have hafter : after ≠ [] := by
        rintro rfl
        cases fields with
        | nil =>
          cases h
          exact hrest rfl
        | cons g fields => cases h
      exact fieldsInOrder_eq_ok_iff.mpr (.inr ⟨_, next, _, nextElement?_more hnext more,
        hf draft _ _ _ hread hafter more, ih hothers h⟩)

/-- What is read of the entries of an object: nothing at its end, and otherwise a key and a colon,
the value of a field that was not set, or one that is passed over, and the other entries. -/
theorem fieldsByName_eq_ok_iff {shape : Shape δ α} {n : Nat} {isFirst : Bool} {draft final : δ}
    {cs rest : List Char} : fieldsByName shape (n + 1) isFirst draft cs = .ok (final, rest) ↔
      (nextKey? isFirst cs = .ok none ∧ final = draft ∧ rest = cs) ∨
      ∃ front name afterName value, nextKey? isFirst cs = .ok (some front) ∧
        text front = .ok (name, afterName) ∧ colon afterName = .ok ((), value) ∧
        ((∃ f next after, shape.fields.find? (fun f => f.name = name) = some f ∧
            f.isSet draft = false ∧ f.read draft value = .ok (next, after) ∧
            fieldsByName shape n false next after = .ok (final, rest)) ∨
          ∃ after, shape.fields.find? (fun f => f.name = name) = none ∧
            skipValue value = .ok ((), after) ∧
            fieldsByName shape n false draft after = .ok (final, rest)) := by
  rw [fieldsByName, bind_eq_ok_iff]
  constructor
  · rintro ⟨front?, hnext, h⟩
    cases front? with
    | none =>
      cases h
      exact .inl ⟨hnext, rfl, rfl⟩
    | some front =>
      obtain ⟨⟨name, afterName⟩, hname, h⟩ := bind_eq_ok_iff.mp h
      refine .inr ⟨front, name, afterName, ?_⟩
      dsimp only at h
      split at h
      · next f hf =>
        cases hset : f.isSet draft with
        | true =>
          rw [hset, if_pos rfl] at h
          cases h
        | false =>
          rw [hset, if_neg Bool.false_ne_true] at h
          obtain ⟨⟨⟨⟩, value⟩, hcolon, h⟩ := bind_eq_ok_iff.mp h
          obtain ⟨⟨next, after⟩, hread, h⟩ := bind_eq_ok_iff.mp h
          exact ⟨value, hnext, hname, hcolon, .inl ⟨f, next, after, hf, hset, hread, h⟩⟩
      · next hf =>
        obtain ⟨⟨⟨⟩, value⟩, hcolon, h⟩ := bind_eq_ok_iff.mp h
        obtain ⟨⟨⟨⟩, after⟩, hskip, h⟩ := bind_eq_ok_iff.mp h
        exact ⟨value, hnext, hname, hcolon, .inr ⟨after, hf, hskip, h⟩⟩
  · rintro (⟨hnext, rfl, rfl⟩ | ⟨front, name, afterName, value, hnext, hname, hcolon, h⟩)
    · exact ⟨none, hnext, rfl⟩
    · refine ⟨some front, hnext, bind_eq_ok_iff.mpr ⟨_, hname, ?_⟩⟩
      dsimp only
      rcases h with ⟨f, next, after, hf, hset, hread, h⟩ | ⟨after, hf, hskip, h⟩
      · rw [hf]
        dsimp only
        rw [hset, if_neg Bool.false_ne_true]
        exact bind_eq_ok_iff.mpr ⟨_, hcolon, bind_eq_ok_iff.mpr ⟨_, hread, h⟩⟩
      · rw [hf]
        exact bind_eq_ok_iff.mpr ⟨_, hcolon, bind_eq_ok_iff.mpr ⟨_, hskip, h⟩⟩

theorem fieldsByName_more {shape : Shape δ α} (hshape : shape.Steady) {n m : Nat} {isFirst : Bool}
    {draft final : δ} {cs rest : List Char}
    (h : fieldsByName shape n isFirst draft cs = .ok (final, rest)) (hm : n ≤ m)
    (more : List Char) :
    fieldsByName shape m isFirst draft (cs ++ more) = .ok (final, rest ++ more) := by
  induction n generalizing m isFirst draft cs with
  | zero => cases h
  | succ n ih =>
    obtain ⟨m, rfl⟩ := Nat.exists_eq_add_of_lt hm
    have hle := Nat.le_add_right n m
    -- Something is left behind a value, at least the end of the object.
    have hleft : ∀ {draft : δ} {after : List Char},
        fieldsByName shape n false draft after = .ok (final, rest) → after ≠ [] := by
      rintro draft after h rfl
      cases n <;> cases h
    rcases fieldsByName_eq_ok_iff.mp h with
      ⟨hnext, rfl, rfl⟩ | ⟨front, name, afterName, value, hnext, hname, hcolon, h⟩
    · exact fieldsByName_eq_ok_iff.mpr (.inl ⟨nextKey?_more hnext more, rfl, rfl⟩)
    · refine fieldsByName_eq_ok_iff.mpr (.inr ⟨_, name, _, _, nextKey?_more hnext more,
        text_closed _ _ _ hname more, colon_closed _ _ _ hcolon more, ?_⟩)
      rcases h with ⟨f, next, after, hf, hset, hread, h⟩ | ⟨after, hf, hskip, h⟩
      · have hmore := hshape f (List.mem_of_find?_eq_some hf) draft _ _ _ hread (hleft h) more
        exact .inl ⟨f, next, _, hf, hset, hmore, ih h hle⟩
      · exact .inr ⟨_, hf, skipValue_steady _ _ _ hskip (hleft h) more, ih h hle⟩

theorem assemble_eq_ok_iff {shape : Shape δ α} {fields : Except Fault (δ × List Char)} {a : α}
    {rest : List Char} : assemble shape fields = .ok (a, rest) ↔
      ∃ draft, fields = .ok (draft, rest) ∧ shape.finish draft = .ok a := by
  constructor
  · intro h
    obtain ⟨⟨draft, after⟩, hfields, h⟩ := bind_eq_ok_iff.mp h
    dsimp only at h
    split at h
    · next hfinish =>
      cases h
      exact ⟨draft, hfields, hfinish⟩
    · cases h
  · rintro ⟨draft, rfl, hfinish⟩
    rw [assemble, ok_bind]
    dsimp only
    rw [hfinish]
    rfl

/-- What is read as a record: the values of its fields in a list, or its fields in an object. -/
theorem record_eq_ok_iff {shape : Shape δ α} {cs rest : List Char} {a : α} :
    record shape cs = .ok (a, rest) ↔
      (∃ front final after, skipSpace cs = '[' :: front ∧
        fieldsInOrder shape shape.fields 0 shape.start front = .ok (final, after) ∧
        shape.finish final = .ok a ∧ endList after = (rest, none)) ∨
      ∃ front final after, skipSpace cs = '\x7b' :: front ∧
        fieldsByName shape (front.length + 1) true shape.start front = .ok (final, after) ∧
        shape.finish final = .ok a ∧ endObject after = (rest, none) := by
  constructor
  · intro h
    unfold record at h
    split at h
    · cases h
    · next front hlist =>
      obtain ⟨after, hassemble, hend⟩ := closeWith_eq_ok_iff.mp h
      obtain ⟨final, hfields, hfinish⟩ := assemble_eq_ok_iff.mp hassemble
      exact .inl ⟨front, final, after, hlist, hfields, hfinish, hend⟩
    · next front hobject =>
      obtain ⟨after, hassemble, hend⟩ := closeWith_eq_ok_iff.mp h
      obtain ⟨final, hfields, hfinish⟩ := assemble_eq_ok_iff.mp hassemble
      exact .inr ⟨front, final, after, hobject, hfields, hfinish, hend⟩
    · cases h
  · rintro (⟨front, final, after, hlist, hfields, hfinish, hend⟩ |
      ⟨front, final, after, hobject, hfields, hfinish, hend⟩)
    · rw [record, hlist]
      exact closeWith_eq_ok_iff.mpr
        ⟨after, assemble_eq_ok_iff.mpr ⟨final, hfields, hfinish⟩, hend⟩
    · rw [record, hobject]
      exact closeWith_eq_ok_iff.mpr
        ⟨after, assemble_eq_ok_iff.mpr ⟨final, hfields, hfinish⟩, hend⟩

/-- Where a record ends does not depend on what is behind it. -/
theorem record_closed {shape : Shape δ α} (hshape : shape.Steady) : Closed (record shape) := by
  intro cs a rest h more
  rcases record_eq_ok_iff.mp h with
    ⟨front, final, after, hlist, hfields, hfinish, hend⟩ |
    ⟨front, final, after, hobject, hfields, hfinish, hend⟩
  · have hafter : after ≠ [] := by
      rintro rfl
      cases hend
    exact record_eq_ok_iff.mpr (.inl ⟨_, final, _, skipSpace_more hlist more,
      fieldsInOrder_more hshape hfields hafter more, hfinish, endList_more hend more⟩)
  · have hfuel : front.length + 1 ≤ (front ++ more).length + 1 := by
      rw [List.length_append]
      omega
    exact record_eq_ok_iff.mpr (.inr ⟨_, final, _, skipSpace_more hobject more,
      fieldsByName_more hshape hfields hfuel more, hfinish, endObject_more hend more⟩)

/-! ## Whole texts -/

theorem decode_eq_ok_iff {d : Decoder α} {source : String} {a : α} :
    decode d source = .ok a ↔ ∃ rest, d source.toList = .ok (a, rest) ∧ skipSpace rest = [] := by
  constructor
  · intro h
    unfold decode at h
    dsimp only at h
    split at h
    · cases h
    · next hread =>
      split at h
      · next hspace =>
        cases h
        exact ⟨_, hread, hspace⟩
      · cases h
  · rintro ⟨rest, hread, hspace⟩
    rw [decode, hread]
    dsimp only
    rw [hspace]

/-- A text that is read is still read, and as the same value, with more space behind it, and it is
refused with anything else behind it. -/
theorem decode_append_eq_ok_iff {d : Decoder α} (hd : Closed d) {source : String} {a : α}
    (h : decode d source = .ok a) {more : String} {b : α} :
    decode d (source ++ more) = .ok b ↔ b = a ∧ skipSpace more.toList = [] := by
  obtain ⟨rest, hread, hspace⟩ := decode_eq_ok_iff.mp h
  have hmore := hd _ _ _ hread more.toList
  have hleft := skipSpace_spaces hspace more.toList
  rw [decode_eq_ok_iff, String.toList_append, hmore]
  constructor
  · rintro ⟨_, heq, hnil⟩
    cases heq
    exact ⟨rfl, hleft ▸ hnil⟩
  · rintro ⟨rfl, hnil⟩
    exact ⟨_, rfl, hleft.trans hnil⟩

end Decoder

end Statewright.Json
