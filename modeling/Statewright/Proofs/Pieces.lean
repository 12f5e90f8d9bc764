import Statewright.Proofs.Agenda
import Statewright.Proofs.Commands

/-!
# What pieces hold

Every piece that a run performs was cut from a statement. So it is made of words with single spaces
between them, and no word behind its first is a keyword, unless the first is EXECUTE.
-/

open Statewright.Text Statewright.Fallible

namespace Statewright

/-- A piece as it is cut from a statement. -/
structure IsPiece (piece : String) (head : String) (arguments : List String) : Prop where
  written : piece = unwords (head :: arguments)
  word : ∀ w ∈ head :: arguments, IsWord w
  no_keyword : Keyword.ofWord? head ≠ some .execute →
    ∀ w ∈ arguments, Keyword.ofWord? w = none

namespace Language

-- The words that a piece grows by are no keywords, except for the input of EXECUTE.
theorem growPiece_arguments {head : String} {front : List String}
    (hfront : Keyword.ofWord? head ≠ some .execute → ∀ w ∈ front, Keyword.ofWord? w = none)
    (ws : List String) :
    ∀ piece ∈ growPiece (head :: front) ws, ∃ head' arguments, piece = head' :: arguments ∧
      (Keyword.ofWord? head' ≠ some .execute → ∀ w ∈ arguments, Keyword.ofWord? w = none) := by
  induction ws generalizing head front with
  | nil =>
    intro piece hpiece
    exact ⟨head, front, List.mem_singleton.mp hpiece, hfront⟩
  | cons w ws ih =>
    rw [growPiece]
    split
    · intro piece hpiece
      rcases List.mem_cons.mp hpiece with rfl | hpiece
      · exact ⟨head, front, rfl, hfront⟩
      · exact ih (fun _ v hv => absurd hv List.not_mem_nil) piece hpiece
    · next hcut =>
      refine ih (fun hhead v hv => ?_)
      rcases List.mem_append.mp hv with hv | hv
      · exact hfront hhead v hv
      · -- Only a lone EXECUTE awaits its input.
        have hawaits : awaitsInput (head :: front) = false := by
          cases front with
          | nil => exact beq_eq_false_iff_ne.mpr hhead
          | cons _ _ => rfl
        rw [hawaits, Bool.not_false, Bool.and_true, Bool.not_eq_true] at hcut
        rw [List.mem_singleton.mp hv]
        exact Option.isNone_iff_eq_none.mp (Option.isSome_eq_false_iff.mp hcut)

theorem isPiece_of_mem {text piece : String} (h : piece ∈ splitStatement text) :
    ∃ head arguments, IsPiece piece head arguments := by
  obtain ⟨ws, hws, rfl⟩ := List.mem_map.mp h
  have hwords : ∀ w ∈ ws, IsWord w := by
    intro w hw
    have hmem : w ∈ (pieces (words text)).flatten := List.mem_flatten.mpr ⟨ws, hws, hw⟩
    rw [pieces_flatten] at hmem
    exact isWord_of_mem hmem
  unfold pieces at hws
  split at hws
  · cases hws
  · obtain ⟨head, arguments, rfl, hno⟩ :=
      growPiece_arguments (fun _ v hv => absurd hv List.not_mem_nil) _ ws hws
    exact ⟨head, arguments, rfl, hwords, hno⟩

end Language

namespace IsPiece

variable {piece head : String} {arguments : List String}

theorem words_eq (h : IsPiece piece head arguments) : words piece = head :: arguments := by
  rw [h.written]
  exact wordsIn_unwords h.word

end IsPiece

/-- Whether a task comes from an input: what it performs was cut from statements, and it loads no
file outside of any statement. -/
def Task.FromInput : Task → Prop
  | .pieces _ _ _ ps => ∀ piece ∈ ps, ∃ head arguments, IsPiece piece head arguments
  | .load _ => False
  | _ => True

theorem Task.fromInput_heritable : Heritable FromInput where
  line _ _ _ := ⟨trivial, trivial⟩
  finish _ := trivial
  remark _ := trivial
  statement _ := ⟨fun _ hpiece => Language.isPiece_of_mem hpiece, trivial⟩
  piece h := (List.forall_mem_cons.mp h).2
  script _ := trivial
  leave _ _ := trivial

/-- The tasks of inputs that are run one after the other come from an input, at every moment. -/
theorem Moment.fromInput_of_leads {s : Session} {inputs : List (Mode × List UInt8)} {m : Moment}
    (h : (start s (inputs.map (fun (mode, input) => .run mode input))).Leads m) :
    ∀ task ∈ m.agenda, task.FromInput := by
  refine Task.fromInput_heritable.leads h (fun task htask => ?_)
  obtain ⟨call, hcall, rfl⟩ := List.mem_map.mp htask
  obtain ⟨⟨mode, input⟩, -, rfl⟩ := List.mem_map.mp hcall
  trivial

/-! ## Arguments -/

namespace Command

theorem exactlyOne_eq_ok {k : Keyword} {ws : List String} {a : String}
    (h : exactlyOne k ws = .ok a) : ws = [a] := by
  unfold exactlyOne at h
  split at h
  · cases h
    rfl
  · cases h

theorem atMostOne_eq_ok {k : Keyword} {ws : List String} {a : Option String}
    (h : atMostOne k ws = .ok a) : ws = a.toList := by
  unfold atMostOne at h
  split at h
  · cases h
    rfl
  · cases h
    rfl
  · cases h

theorem bare_eq_ok {k : Keyword} {c c' : Command} {ws : List String}
    (h : bare k c ws = .ok c') : ws = [] ∧ c = c' := by
  unfold bare at h
  split at h
  · cases h
    exact ⟨rfl, rfl⟩
  · cases h

/-- The arguments of a command are the words behind the keyword, for all commands but
TRANSITIONS. -/
theorem words_of_parse {piece : String} {c : Command} (h : parse piece = .ok c) :
    ∃ head arguments, words piece = head :: arguments ∧ Keyword.ofWord? head = some c.keyword ∧
      (c.keyword ≠ .transitions → arguments = c.arguments) := by
  unfold parse at h
  cases hwords : words piece with
  | nil =>
    rw [hwords] at h
    cases h
  | cons head ws =>
    refine ⟨head, ws, rfl, ?_⟩
    rw [hwords] at h
    dsimp only at h
    cases hkeyword : Keyword.ofWord? head with
    | none =>
      rw [hkeyword] at h
      cases h
    | some k =>
      rw [hkeyword] at h
      cases k with
      | symbols | states | finalStates =>
        cases h
        exact ⟨rfl, fun _ => rfl⟩
      | initialState | compile | load =>
        obtain ⟨a, ha, rfl⟩ := map_eq_ok_iff.mp h
        exact ⟨rfl, fun _ => exactlyOne_eq_ok ha⟩
      | print | log =>
        obtain ⟨a, ha, rfl⟩ := map_eq_ok_iff.mp h
        exact ⟨rfl, fun _ => atMostOne_eq_ok ha⟩
      | transitions =>
        obtain ⟨triples, -, rfl⟩ := map_eq_ok_iff.mp h
        exact ⟨rfl, fun hne => absurd rfl hne⟩
      | clear | exit =>
        obtain ⟨rfl, rfl⟩ := bare_eq_ok h
        exact ⟨rfl, fun _ => rfl⟩
      | execute =>
        dsimp only at h
        split at h
        · cases h
        · cases h
          exact ⟨rfl, fun _ => rfl⟩
        · cases h

end Command

/-- The arguments of a command that is read from a piece are no keywords, unless it is EXECUTE or
TRANSITIONS. -/
theorem IsPiece.no_keyword_of_parse {piece head : String} {arguments : List String} {c : Command}
    (h : IsPiece piece head arguments) (hparse : Command.parse piece = .ok c)
    (htransitions : c.keyword ≠ .transitions) (hexecute : c.keyword ≠ .execute) :
    ∀ w ∈ c.arguments, Keyword.ofWord? w = none := by
  obtain ⟨head', arguments', hwords, hkeyword, harguments⟩ := Command.words_of_parse hparse
  rw [h.words_eq] at hwords
  obtain ⟨rfl, rfl⟩ := List.cons.inj hwords
  rw [← harguments htransitions]
  refine h.no_keyword (fun heq => hexecute ?_)
  rw [hkeyword] at heq
  exact Option.some.inj heq

end Statewright
