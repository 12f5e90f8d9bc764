import Statewright.Proofs.Pieces
import Statewright.Proofs.Restore
import Statewright.Proofs.Script

/-!
# Messages of one line

A failure is told in one line if nothing that its message quotes holds a line break. What a piece
holds never does, and neither do names, numbers and quoted texts.
-/

open Statewright.Text Statewright.Fallible

namespace Statewright

namespace Text

/-! ## Lines -/

/-- Whether a text is one line: it holds no line break. -/
def IsLine (s : String) : Prop :=
  '\n' ∉ s.toList

instance : DecidablePred IsLine :=
  fun s => inferInstanceAs (Decidable ('\n' ∉ s.toList))

@[simp]
theorem isLine_append {s t : String} : IsLine (s ++ t) ↔ IsLine s ∧ IsLine t := by
  unfold IsLine
  rw [String.toList_append, List.mem_append, not_or]

@[simp]
theorem isLine_toString {s : String} : IsLine (toString s) ↔ IsLine s :=
  Iff.rfl

theorem isLine_ofList {cs : List Char} : IsLine (String.ofList cs) ↔ '\n' ∉ cs := by
  unfold IsLine
  rw [String.toList_ofList]

theorem IsWord.isLine {w : String} (h : IsWord w) : IsLine w :=
  fun hmem => absurd (h.2 '\n' hmem) (by decide)

theorem isLine_of_isNameChar {s : String} (h : ∀ c ∈ s.toList, isNameChar c = true) : IsLine s :=
  fun hmem => absurd (h '\n' hmem) (by decide)

theorem lineBreak_not_mem_toDigits {base : Nat} (hpos : 0 < base) (hle : base ≤ 16) (n : Nat) :
    '\n' ∉ Nat.toDigits base n := by
  have hdigit : ∀ k : Fin 16, '\n' ≠ Nat.digitChar k.val := by decide
  have hcore : ∀ (fuel n : Nat) (ds : List Char), '\n' ∉ ds →
      '\n' ∉ Nat.toDigitsCore base fuel n ds := by
    intro fuel
    induction fuel with
    | zero => exact fun _ _ h => h
    | succ fuel ih =>
      intro n ds h
      have hnext : '\n' ∉ Nat.digitChar (n % base) :: ds := by
        rw [List.mem_cons, not_or]
        exact ⟨hdigit ⟨n % base, Nat.lt_of_lt_of_le (Nat.mod_lt n hpos) hle⟩, h⟩
      rw [Nat.toDigitsCore]
      split
      · exact hnext
      · exact ih _ _ hnext
  exact hcore _ _ _ List.not_mem_nil

@[simp]
theorem isLine_nat (n : Nat) : IsLine n.repr := by
  rw [Nat.repr_eq_ofList_toDigits, isLine_ofList]
  exact lineBreak_not_mem_toDigits (by decide) (by decide) n

@[simp]
theorem isLine_int (n : Int) : IsLine n.repr := by
  cases n with
  | ofNat n => exact isLine_nat n
  | negSucc n => exact isLine_append.mpr ⟨by decide, isLine_nat (n + 1)⟩

theorem toUpper_eq_lineBreak_iff {c : Char} : c.toUpper = '\n' ↔ c = '\n' := by
  constructor
  · intro h
    by_cases hlower : 'a'.val ≤ c.val ∧ c.val ≤ 'z'.val
    · -- The capital of a letter is a letter.
      have halpha : c.isAlphanum = true := by
        have hisLower : c.isLower = true := by
          unfold Char.isLower
          rw [Bool.and_eq_true, decide_eq_true_eq, decide_eq_true_eq]
          exact hlower
        show (c.isUpper || c.isLower || c.isDigit) = true
        rw [hisLower, Bool.or_true, Bool.true_or]
      have hname := isNameChar_toUpper halpha
      rw [h] at hname
      cases hname
    · unfold Char.toUpper at h
      rwa [dif_neg hlower] at h
  · rintro rfl
    rfl

@[simp]
theorem isLine_upper {s : String} : IsLine (upper s) ↔ IsLine s := by
  unfold IsLine
  rw [toList_upper, List.mem_map]
  simp only [toUpper_eq_lineBreak_iff, exists_eq_right]

@[simp]
theorem isLine_quoted (s : String) : IsLine (quoted s) := by
  have hchar : ∀ c, '\n' ∉ quotedChar c := by
    intro c
    unfold quotedChar
    split
    case h_7 hbreak _ _ =>
      have hdigits := lineBreak_not_mem_toDigits (by decide : 0 < 16) (Nat.le_refl 16) c.toNat
      split
      · exact fun hmem => hbreak (List.mem_singleton.mp hmem).symm
      · simp [hdigits]
    all_goals decide
  unfold quoted
  rw [isLine_ofList]
  simp [hchar]

end Text

/-! ## Names -/

@[simp]
theorem StateName.isLine_text (q : StateName) : IsLine q.text :=
  isLine_of_isNameChar q.canonical

@[simp]
theorem StateName.isLine_toString (q : StateName) : IsLine (toString q) :=
  q.isLine_text

@[simp]
theorem Symbol.isLine_toString (s : Symbol) : IsLine (toString s) :=
  isLine_of_isNameChar s.isName.canonical

/-! ## Errors -/

@[simp]
theorem FileError.isLine_message (e : FileError) : IsLine e.message := by
  cases e
  all_goals decide

@[simp]
theorem Keyword.isLine_toString (k : Keyword) : IsLine (toString k) := by
  cases k
  all_goals decide

/-- The text that a name is not read from. -/
def NameError.raw : NameError → String
  | symbol raw => raw
  | state raw => raw

@[simp]
theorem NameError.isLine_message {e : NameError} : IsLine e.message ↔ IsLine e.raw := by
  cases e
  all_goals
    unfold message raw
    simp +decide

@[simp]
theorem TransitionFault.isLine_name {e : NameError} :
    IsLine (TransitionFault.name e).message ↔ IsLine e.raw :=
  NameError.isLine_message

@[simp]
theorem TransitionFault.isLine_undeclaredSymbol (s : Symbol) :
    IsLine (undeclaredSymbol s).message := by
  unfold message
  simp +decide

@[simp]
theorem TransitionFault.isLine_undeclaredState (q : StateName) :
    IsLine (undeclaredState q).message := by
  unfold message
  simp +decide

@[simp]
theorem EditError.isLine_transition {symbol source target : String} {fault : TransitionFault} :
    IsLine (transition symbol source target fault).message ↔
      IsLine symbol ∧ IsLine source ∧ IsLine target ∧ IsLine fault.message := by
  unfold message
  simp +decide [and_assoc]

/-- A requirement that a snapshot does not meet is reported with names only. -/
theorem Snapshot.isLine_of_reports {c : Snapshot} {k : Requirement} {reason : Inconsistency}
    (h : c.Reports k (.inconsistent reason)) : IsLine reason.message := by
  cases h
  all_goals
    unfold Inconsistency.message
    simp +decide

@[simp]
theorem Text.Utf8.Fault.isLine_message (f : Utf8.Fault) : IsLine f.message := by
  unfold message
  split
  all_goals simp +decide

@[simp]
theorem InstantError.isLine_message (e : InstantError) : IsLine e.message := by
  cases e
  all_goals decide

/-! ## Names that are refused -/

theorem StateName.raw_of_parse {raw : String} {e : NameError} (h : parse raw = .error e) :
    e = .state raw := by
  unfold parse at h
  split at h
  · cases h
  · cases h
    rfl

theorem Symbol.raw_of_ofChar {c : Char} {e : NameError} (h : ofChar c = .error e) :
    e = .symbol c.toString := by
  unfold ofChar at h
  split at h
  · cases h
  · cases h
    rfl

theorem Symbol.raw_of_parse {raw : String} {e : NameError} (h : parse raw = .error e) :
    e = .symbol raw := by
  unfold parse at h
  split at h
  · next c hraw =>
    have hc : c.toString = raw := by
      rw [← String.toList_inj, hraw, Char.toString_eq_singleton, String.toList_singleton]
    rw [← hc]
    exact raw_of_ofChar h
  · cases h
    rfl

/-! ## Edits that fail -/

/-- The texts of an edit. -/
def Edit.texts : Edit → List String
  | addSymbol raw => [raw]
  | addState raw => [raw]
  | setInitial raw => [raw]
  | setCurrent raw => [raw]
  | addFinal raw => [raw]
  | addTransition symbol source target => [symbol, source, target]

namespace Machine

theorem isLine_of_readTransition {m : Machine} {symbol source target : String}
    {fault : TransitionFault} (h : m.readTransition symbol source target = .error fault)
    (hsymbol : IsLine symbol) (hsource : IsLine source) (htarget : IsLine target) :
    IsLine fault.message := by
  unfold readTransition at h
  simp only [throw_bind, bind_eq_error_iff, mapError_eq_error_iff, ite_throw_eq_error_iff,
    pure_ne_error, mapError_eq_ok_iff, and_false, or_false] at h
  rcases h with ⟨e, he, rfl⟩ | ⟨s, -, ⟨e, he, rfl⟩ | ⟨q, -, ⟨e, he, rfl⟩ | ⟨r, -, h⟩⟩⟩
  · rw [Symbol.raw_of_parse he]
    exact TransitionFault.isLine_name.mpr hsymbol
  · rw [StateName.raw_of_parse he]
    exact TransitionFault.isLine_name.mpr hsource
  · rw [StateName.raw_of_parse he]
    exact TransitionFault.isLine_name.mpr htarget
  · rcases h with ⟨-, rfl⟩ | ⟨-, ⟨-, rfl⟩ | ⟨-, -, rfl⟩⟩
    · exact TransitionFault.isLine_undeclaredSymbol s
    · exact TransitionFault.isLine_undeclaredState q
    · exact TransitionFault.isLine_undeclaredState r

/-- An edit that fails quotes nothing but its texts and names. -/
theorem isLine_of_edit {m : Machine} {e : Edit} {err : EditError} (h : m.edit e = .error err)
    (htexts : ∀ raw ∈ e.texts, IsLine raw) : IsLine err.message := by
  rw [edit_eq, map_eq_error_iff] at h
  cases e with
  | addSymbol raw =>
    obtain ⟨e, he, rfl⟩ := mapError_eq_error_iff.mp (map_eq_error_iff.mp h)
    rw [Symbol.raw_of_parse he]
    exact NameError.isLine_message.mpr (htexts raw List.mem_cons_self)
  | addState raw | setInitial raw | setCurrent raw | addFinal raw =>
    obtain ⟨e, he, rfl⟩ := mapError_eq_error_iff.mp (map_eq_error_iff.mp h)
    rw [StateName.raw_of_parse he]
    exact NameError.isLine_message.mpr (htexts raw List.mem_cons_self)
  | addTransition symbol source target =>
    obtain ⟨fault, hfault, rfl⟩ := mapError_eq_error_iff.mp (map_eq_error_iff.mp h)
    obtain ⟨hsymbol, hsource, htarget, -⟩ := by
      simpa only [Edit.texts, List.forall_mem_cons] using htexts
    exact EditError.isLine_transition.mpr
      ⟨hsymbol, hsource, htarget, isLine_of_readTransition hfault hsymbol hsource htarget⟩

theorem isLine_of_editAll {m : Machine} {es : List Edit} {err : EditError}
    (h : m.editAll es = .error err) (htexts : ∀ e ∈ es, ∀ raw ∈ e.texts, IsLine raw) :
    IsLine err.message := by
  have heach : (m.editEach es).2 = .error err := by
    unfold editAll at h
    split at h
    · cases h
    · next heach =>
      cases h
      rw [heach]
  clear h
  induction es generalizing m with
  | nil => cases heach
  | cons e es ih =>
    obtain ⟨he, hes⟩ := List.forall_mem_cons.mp htexts
    rw [editEach] at heach
    cases hedit : m.edit e with
    | error err' =>
      rw [hedit] at heach
      cases heach
      exact isLine_of_edit hedit he
    | ok r =>
      rw [hedit] at heach
      exact ih hes (map_eq_error_iff.mp heach)

end Machine

/-! ## Commands that cannot be read -/

namespace Text

/-- A text that holds no other characters than a line is a line. -/
theorem IsLine.mono {s t : String} (h : IsLine t) (hsubset : s.toList ⊆ t.toList) : IsLine s :=
  fun hmem => h (hsubset hmem)

theorem isLine_unwords {ws : List String} (h : ∀ w ∈ ws, IsLine w) : IsLine (unwords ws) :=
  not_mem_unwords (by decide) h

theorem isLine_of_mem_words {s w : String} (h : w ∈ words s) : IsLine w :=
  (isWord_of_mem h).isLine

theorem trimLeft_subset (cs : List Char) : trimLeft cs ⊆ cs :=
  (List.dropWhile_suffix _).subset

theorem trimRight_subset (cs : List Char) : trimRight cs ⊆ cs := by
  intro c hc
  have hmem := (List.dropWhile_suffix _).subset (List.mem_reverse.mp hc)
  exact List.mem_reverse.mp hmem

theorem trim_ofList_subset (cs : List Char) : (trim (String.ofList cs)).toList ⊆ cs := by
  unfold trim
  rw [String.toList_ofList, String.toList_ofList]
  exact fun c hc => trimLeft_subset _ (trimRight_subset _ hc)

theorem subset_of_mem_splitOnP {p : Char → Bool} {cs part : List Char}
    (h : part ∈ cs.splitOnP p) : part ⊆ cs := by
  induction cs using cut_induction (p := p) with
  | last part' hpart =>
    rw [List.splitOnP_eq_singleton hpart, List.mem_singleton] at h
    exact h ▸ List.Subset.refl _
  | cons part' s rest hpart hs ih =>
    rw [List.splitOnP_append_cons _ _ hs, List.splitOnP_eq_singleton hpart, List.singleton_append,
      List.mem_cons] at h
    rcases h with rfl | h
    · exact List.subset_append_left _ _
    · exact fun c hc => List.mem_append_right _ (List.mem_cons_of_mem s (ih h hc))

end Text

theorem Language.isLine_of_mem_commaParts {text part : String} (h : part ∈ commaParts text)
    (htext : IsLine text) : IsLine part := by
  have hparts : ∀ part ∈ (text.toList.splitOnP (· = ',')).map (fun p => trim (String.ofList p)),
      IsLine part := by
    intro part hpart
    obtain ⟨p, hp, rfl⟩ := List.mem_map.mp hpart
    exact htext.mono (fun c hc => subset_of_mem_splitOnP hp (trim_ofList_subset p hc))
  unfold commaParts at h
  dsimp only at h
  split at h
  · split at h
    · exact hparts part (List.dropLast_subset _ h)
    · exact hparts part h
  · exact hparts part h

namespace Command

theorem isLine_afterFirstWord {text : String} (h : IsLine text) :
    IsLine (afterFirstWord text) := by
  unfold afterFirstWord
  exact h.mono (fun c hc =>
    trimLeft_subset _ ((List.dropWhile_suffix _).subset (trim_ofList_subset _ hc)))

theorem exactlyOne_eq_error {k : Keyword} {ws : List String} {e : CommandError}
    (h : exactlyOne k ws = .error e) : e = .arity k := by
  unfold exactlyOne at h
  split at h
  · cases h
  · cases h
    rfl

theorem atMostOne_eq_error {k : Keyword} {ws : List String} {e : CommandError}
    (h : atMostOne k ws = .error e) : e = .arity k := by
  unfold atMostOne at h
  split at h
  · cases h
  · cases h
  · cases h
    rfl

theorem bare_eq_error {k : Keyword} {c : Command} {ws : List String} {e : CommandError}
    (h : bare k c ws = .error e) : e = .arity k := by
  unfold bare at h
  split at h
  · cases h
  · cases h
    rfl

theorem readTriple_eq_error {part : String} {e : CommandError} (h : readTriple part = .error e) :
    e = .malformedTriple part := by
  unfold readTriple at h
  split at h
  · cases h
  · cases h
    rfl

theorem words_of_readTriple {part : String} {t : Triple} (h : readTriple part = .ok t) :
    words part = tripleWords t := by
  unfold readTriple at h
  split at h
  · next hwords =>
    cases h
    exact hwords
  · cases h

/-- Why a text is no command: it has no words, the first one is no keyword, or the others do not fit
the keyword. -/
inductive Refuses (text : String) : CommandError → Prop where
  | empty (nothing : words text = []) : Refuses text .empty
  | unknownKeyword {head : String} {ws : List String} (written : words text = head :: ws)
      (unknown : Keyword.ofWord? head = none) : Refuses text (.unknownKeyword head)
  | arity {k : Keyword} {head : String} {ws : List String} (written : words text = head :: ws)
      (known : Keyword.ofWord? head = some k) (input : k = .execute → ws ≠ []) :
      Refuses text (.arity k)
  | malformedTriple {head part : String} {ws : List String} (written : words text = head :: ws)
      (known : Keyword.ofWord? head = some .transitions)
      (listed : part ∈ Language.commaParts (afterFirstWord text)) :
      Refuses text (.malformedTriple part)
  | missingInput {head : String} (written : words text = [head])
      (known : Keyword.ofWord? head = some .execute) : Refuses text .missingInput

theorem refuses_of_parse {text : String} {e : CommandError} (h : parse text = .error e) :
    Refuses text e := by
  unfold parse at h
  cases hwords : words text with
  | nil =>
    rw [hwords] at h
    cases h
    exact .empty hwords
  | cons head ws =>
    rw [hwords] at h
    dsimp only at h
    cases hkeyword : Keyword.ofWord? head with
    | none =>
      rw [hkeyword] at h
      cases h
      exact .unknownKeyword hwords hkeyword
    | some k =>
      rw [hkeyword] at h
      cases k with
      | symbols | states | finalStates => cases h
      | initialState | compile | load =>
        rw [exactlyOne_eq_error (map_eq_error_iff.mp h)]
        exact .arity hwords hkeyword (by rintro ⟨⟩)
      | print | log =>
        rw [atMostOne_eq_error (map_eq_error_iff.mp h)]
        exact .arity hwords hkeyword (by rintro ⟨⟩)
      | clear | exit =>
        rw [bare_eq_error h]
        exact .arity hwords hkeyword (by rintro ⟨⟩)
      | execute =>
        cases ws with
        | nil =>
          cases h
          exact .missingInput hwords hkeyword
        | cons input ws =>
          cases ws with
          | nil => cases h
          | cons v ws =>
            cases h
            exact .arity hwords hkeyword (fun _ => List.cons_ne_nil _ _)
      | transitions =>
        have hread := map_eq_error_iff.mp h
        unfold readTriples at hread
        split at hread
        · cases hread
        · obtain ⟨part, hmem, hpart⟩ := exists_of_mapM_eq_error hread
          rw [readTriple_eq_error hpart]
          exact .malformedTriple hwords hkeyword hmem

end Command

@[simp]
theorem CommandError.isLine_arity (k : Keyword) : IsLine (arity k).message := by
  cases k
  all_goals decide +kernel

@[simp]
theorem CommandError.isLine_unknownKeyword {word : String} :
    IsLine (unknownKeyword word).message ↔ IsLine word := by
  unfold message
  simp +decide

@[simp]
theorem CommandError.isLine_malformedTriple {part : String} :
    IsLine (malformedTriple part).message ↔ IsLine part := by
  unfold message
  simp +decide

/-- What cannot be read as a command is refused with words and parts of it. -/
theorem Command.isLine_of_parse {piece : String} (hpiece : IsLine piece) {e : CommandError}
    (h : parse piece = .error e) : IsLine e.message := by
  cases refuses_of_parse h with
  | empty => decide
  | unknownKeyword written =>
    exact CommandError.isLine_unknownKeyword.mpr
      (isLine_of_mem_words (written ▸ List.mem_cons_self))
  | arity => exact CommandError.isLine_arity _
  | malformedTriple _ _ listed =>
    exact CommandError.isLine_malformedTriple.mpr
      (Language.isLine_of_mem_commaParts listed (isLine_afterFirstWord hpiece))
  | missingInput => decide

/-- The arguments of a command are words, and so hold no line break. -/
theorem Command.isLine_arguments {piece : String} {c : Command} (h : parse piece = .ok c) :
    ∀ w ∈ c.arguments, IsLine w := by
  obtain ⟨head, arguments, hwords, hkeyword, harguments⟩ := words_of_parse h
  by_cases htransitions : c.keyword = .transitions
  · -- The words of an entry are those of its part.
    cases c with
    | transitions triples =>
      unfold parse at h
      rw [hwords] at h
      dsimp only at h
      rw [hkeyword] at h
      obtain ⟨triples', hread, heq⟩ := map_eq_ok_iff.mp h
      cases heq
      unfold readTriples at hread
      split at hread
      · cases hread
        exact fun _ hw => absurd hw List.not_mem_nil
      · intro w hw
        obtain ⟨t, ht, hmem⟩ := List.mem_flatMap.mp hw
        obtain ⟨part, -, hpart⟩ := exists_of_mapM_eq_ok hread ht
        refine isLine_of_mem_words (s := part) ?_
        rw [words_of_readTriple hpart]
        exact hmem
    | _ => cases htransitions
  · intro w hw
    rw [← harguments htransitions] at hw
    exact isLine_of_mem_words (s := piece) (hwords ▸ List.mem_cons_of_mem head hw)

end Statewright
