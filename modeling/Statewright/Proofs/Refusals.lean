import Statewright.Proofs.Faults

/-!
# What the readers of snapshots refuse

A refusal of a name or an identifier quotes what it was read from, line breaks and all. Everything
else that can be wrong with the bytes of a snapshot is told in one line.
-/

open Statewright.Text Statewright.Fallible

namespace Statewright

/-! ## Refusals that quote a line break -/

/-- The reasons of refusals that quote a line break: as a symbol, in the name of a state, or as a
character of an identifier. -/
inductive QuotesLineBreak : String → Prop where
  | symbol : QuotesLineBreak (NameError.symbol "\n").message
  | state {raw : String} (h : ¬ IsLine raw) : QuotesLineBreak (NameError.state raw).message
  | identifier (index : Nat) : QuotesLineBreak (UuidError.character '\n' index).message

@[simp]
theorem UuidError.isLine_character {c : Char} {index : Nat} :
    IsLine (character c index).message ↔ c ≠ '\n' := by
  have hchar : IsLine (toString c) ↔ c ≠ '\n' := by
    show '\n' ∉ c.toString.toList ↔ c ≠ '\n'
    rw [Char.toString_eq_singleton, String.toList_singleton, List.mem_singleton, ne_comm]
  unfold message
  dsimp only
  rw [isLine_append, isLine_append, isLine_append, hchar]
  simp +decide

theorem QuotesLineBreak.not_isLine {reason : String} (h : QuotesLineBreak reason) :
    ¬ IsLine reason := by
  cases h with
  | symbol => decide
  | state h => exact fun hline => h (NameError.isLine_message.mp hline)
  | identifier index => exact fun hline => UuidError.isLine_character.mp hline rfl

/-- Whether a reason is one line, or quotes a line break. -/
def Quotable (reason : String) : Prop :=
  IsLine reason ∨ QuotesLineBreak reason

theorem StateName.quotable_of_parse (raw : String) :
    FailsWith (fun e => Quotable e.message) (parse raw) := by
  intro e h
  rw [raw_of_parse h]
  by_cases hraw : IsLine raw
  · exact .inl (NameError.isLine_message.mpr hraw)
  · exact .inr (.state hraw)

theorem Symbol.quotable_of_ofChar (c : Char) :
    FailsWith (fun e => Quotable e.message) (ofChar c) := by
  intro e h
  rw [raw_of_ofChar h]
  by_cases hc : c = '\n'
  · rw [hc]
    exact .inr .symbol
  · refine .inl (NameError.isLine_message.mpr ?_)
    show '\n' ∉ c.toString.toList
    rw [Char.toString_eq_singleton, String.toList_singleton, List.mem_singleton]
    exact fun h => hc h.symm

theorem UuidError.quotable_message (e : UuidError) : Quotable e.message := by
  cases e with
  | character c index =>
    by_cases hc : c = '\n'
    · rw [hc]
      exact .inr (.identifier index)
    · exact .inl (isLine_character.mpr hc)
  | length | groupCount | groupLength | byteCount =>
    left
    unfold message
    simp +decide

/-! ## JSON -/

section

open Statewright.Json Statewright.Json.Decoder

theorem StateName.told_decoder (cs : List Char) : Told QuotesLineBreak (decoder cs) :=
  told_refine told_string (fun raw => failsWith_mapError (quotable_of_parse raw)) cs

theorem Symbol.told_decoder (cs : List Char) : Told QuotesLineBreak (decoder cs) :=
  told_refine told_char (fun c => failsWith_mapError (quotable_of_ofChar c)) cs

theorem told_of_quotable {reason : String} (h : Quotable reason) :
    (Cause.refused reason).Told QuotesLineBreak := by
  rcases h with hline | hquotes
  · exact .inl hline
  · exact .inr ⟨reason, hquotes, rfl⟩

theorem Uuid.told_decoder (cs : List Char) : Told QuotesLineBreak (decoder cs) :=
  told_textAs (by decide)
    (fun _ => failsWith_mapError (fun e _ => told_of_quotable e.quotable_message)) cs

theorem Instant.told_decoder (cs : List Char) : Told QuotesLineBreak (decoder cs) :=
  told_textAs (by decide)
    (fun _ => failsWith_mapError (fun e _ => .inl e.isLine_message)) cs

theorem Transition.told_shape : shape.Told QuotesLineBreak where
  label := by decide
  names := by decide +kernel
  fields := by
    simp only [shape, List.forall_mem_cons]
    exact ⟨told_of Symbol.told_decoder, told_of StateName.told_decoder,
      told_of StateName.told_decoder, fun _ h => absurd h List.not_mem_nil⟩
  finish _ :=
    (failsWith_need (by decide) _).bind (fun _ => (failsWith_need (by decide) _).bind (fun _ =>
      (failsWith_need (by decide) _).bind (fun _ => failsWith_ok)))

theorem Transition.told_decoder (cs : List Char) : Told QuotesLineBreak (decoder cs) :=
  told_record told_shape cs

namespace Snapshot.Json

theorem told_shape : shape.Told QuotesLineBreak where
  label := by decide
  names := by decide +kernel
  fields := by
    simp only [shape, List.forall_mem_cons]
    exact ⟨told_of told_natural32, told_of Uuid.told_decoder, told_of Instant.told_decoder,
      told_of (told_list Symbol.told_decoder), told_of (told_list StateName.told_decoder),
      told_of (told_list StateName.told_decoder), told_of (told_nullable StateName.told_decoder),
      told_of (told_nullable StateName.told_decoder), told_of (told_list Transition.told_decoder),
      fun _ h => absurd h List.not_mem_nil⟩
  finish _ :=
    (failsWith_need (by decide) _).bind (fun _ => (failsWith_need (by decide) _).bind (fun _ =>
      (failsWith_need (by decide) _).bind (fun _ => (failsWith_need (by decide) _).bind (fun _ =>
        (failsWith_need (by decide) _).bind (fun _ => (failsWith_need (by decide) _).bind (fun _ =>
          (failsWith_need (by decide) _).bind (fun _ => failsWith_ok)))))))

end Snapshot.Json

end

/-! ## Binary -/

namespace Snapshot.Binary

/-- Whether a fault is told in one line, or is a refusal that quotes a line break. -/
def Fault.Told (f : Fault) : Prop :=
  IsLine f.message ∨ ∃ reason, QuotesLineBreak reason ∧ f = .refused reason

section

variable {α β : Type}

/-- Whether every fault of a reader is told in one line, or is a refusal that quotes a line
break. -/
def Told (get : Read α) : Prop :=
  ∀ bytes, FailsWith Fault.Told (get bytes)

theorem told_pure (a : α) : Told (pure a) :=
  fun _ => failsWith_ok

theorem told_throw {f : Fault} (h : f.Told) : Told (throw f : Read α) :=
  fun _ => failsWith_error h

theorem Told.bind {get : Read α} {next : α → Read β} (h : Told get) (hnext : ∀ a, Told (next a)) :
    Told (get >>= next) :=
  fun bytes => FailsWith.bind (h bytes) (fun (a, rest) => hnext a rest)

theorem told_getNumber (width : Nat) : Told (getNumber width) := by
  intro bytes
  unfold getNumber
  split
  · exact failsWith_error (.inl (by decide))
  · exact failsWith_ok

theorem told_getBytes : Told getBytes := by
  refine (told_getNumber 8).bind (fun n bytes => ?_)
  split
  · exact failsWith_error (.inl (by decide))
  · exact failsWith_ok

theorem Fault.isLine_badText (f : Utf8.Fault) : IsLine (badText f).message := by
  unfold message
  simp +decide

theorem told_getText : Told getText := by
  refine told_getBytes.bind (fun bytes => ?_)
  split
  · exact told_pure _
  · exact told_throw (.inl (Fault.isLine_badText _))

theorem told_getChar : Told getChar := by
  intro bytes
  unfold getChar
  split
  · exact failsWith_error (.inl (by decide))
  · split
    · exact failsWith_ok
    · exact failsWith_error (.inl (by decide))

theorem told_accept {ε : Type} {reason : ε → String} {x : Except ε α}
    (h : FailsWith (fun e => Quotable (reason e)) x) : Told (accept reason x) := by
  cases x with
  | ok a => exact told_pure a
  | error e =>
    rcases h e rfl with hline | hquotes
    · exact told_throw (.inl hline)
    · exact told_throw (.inr ⟨_, hquotes, rfl⟩)

theorem told_getSymbol : Told getSymbol :=
  told_getChar.bind (fun c => told_accept (Symbol.quotable_of_ofChar c))

theorem told_getState : Told getState :=
  told_getText.bind (fun raw => told_accept (StateName.quotable_of_parse raw))

theorem Fault.isLine_badTag (found : UInt8) : IsLine (badTag found).message := by
  unfold message
  simp +decide

theorem told_getOption {get : Read α} (h : Told get) : Told (getOption get) := by
  intro bytes
  unfold getOption
  split
  · exact failsWith_error (.inl (by decide))
  · exact failsWith_ok
  · exact h.bind (fun _ => told_pure _) _
  · exact failsWith_error (.inl (Fault.isLine_badTag _))

theorem told_getEntries {get : Read α} (h : Told get) (count : Nat) :
    Told (getEntries get count) := by
  induction count with
  | zero => exact told_pure []
  | succ count ih => exact h.bind (fun a => ih.bind (fun rest => told_pure (a :: rest)))

theorem told_getList {get : Read α} (h : Told get) : Told (getList get) :=
  (told_getNumber 8).bind (fun n => told_getEntries h n)

end

theorem told_getTransition : Told getTransition :=
  told_getSymbol.bind (fun _ => told_getState.bind (fun _ => told_getState.bind (fun _ =>
    told_pure _)))

theorem told_getSnapshot : Told getSnapshot := by
  refine (told_getNumber 4).bind (fun version => ?_)
  refine told_getBytes.bind (fun bytes => ?_)
  refine (told_accept (fun e _ => e.quotable_message)).bind (fun id => ?_)
  refine told_getText.bind (fun written => ?_)
  refine (told_accept (fun e _ => .inl e.isLine_message)).bind (fun createdAt => ?_)
  refine (told_getList told_getSymbol).bind (fun symbols => ?_)
  refine (told_getList told_getState).bind (fun states => ?_)
  refine (told_getList told_getState).bind (fun finals => ?_)
  refine (told_getOption told_getState).bind (fun initial => ?_)
  refine (told_getOption told_getState).bind (fun current => ?_)
  exact (told_getList told_getTransition).bind (fun transitions => told_pure _)

theorem told_decode (bytes : List UInt8) : FailsWith Fault.Told (decode bytes) := by
  unfold decode
  split
  · exact (told_getSnapshot _).map _
  · exact failsWith_error (.inl (by decide))

end Snapshot.Binary

/-! ## Both encodings -/

namespace DecodeFault

/-- Why what was read is refused by a reader of names, identifiers or times, if it is. -/
def refusal? : DecodeFault → Option String
  | binary (.refused reason) => some reason
  | json ⟨.refused reason, _⟩ => some reason
  | _ => none

theorem isLine_message_of_refusal {f : DecodeFault} {reason : String}
    (h : f.refusal? = some reason) : IsLine f.message ↔ IsLine reason := by
  unfold refusal? at h
  split at h
  · cases h
    unfold message Snapshot.Binary.Fault.message
    simp +decide
  · cases h
    unfold message Json.Error.message Json.Cause.message
    dsimp only
    split
    all_goals simp +decide
  · cases h

theorem isLine_json {e : Json.Error} : IsLine (json e).message ↔ IsLine e.cause.message := by
  unfold message Json.Error.message
  dsimp only
  split
  all_goals simp +decide

end DecodeFault

/-- What is wrong with the bytes of a snapshot is told in one line, unless a name or an identifier
with a line break is refused. -/
theorem Snapshot.isLine_of_decode {bytes : List UInt8} {format : Format} {f : DecodeFault}
    (h : decode bytes format = .error f) :
    ¬ IsLine f.message ↔ ∃ reason, f.refusal? = some reason ∧ QuotesLineBreak reason := by
  constructor
  · intro hline
    cases format with
    | binary =>
      obtain ⟨f, hf, rfl⟩ := mapError_eq_error_iff.mp h
      rcases Binary.told_decode bytes f hf with htold | ⟨reason, hquotes, rfl⟩
      · refine absurd ?_ hline
        unfold DecodeFault.message
        simp +decide [htold]
      · exact ⟨reason, rfl, hquotes⟩
    | json =>
      rcases bind_eq_error_iff.mp h with h | ⟨cs, -, h⟩
      · obtain ⟨f, -, rfl⟩ := mapError_eq_error_iff.mp h
        refine absurd ?_ hline
        unfold DecodeFault.message
        simp +decide
      · obtain ⟨e, he, rfl⟩ := mapError_eq_error_iff.mp h
        rcases Json.Decoder.told_decode (Json.Decoder.told_record Json.told_shape) _ e he with
          htold | ⟨reason, hquotes, hcause⟩
        · exact absurd (DecodeFault.isLine_json.mpr htold) hline
        · obtain ⟨cause, place⟩ := e
          cases hcause
          exact ⟨reason, rfl, hquotes⟩
  · rintro ⟨reason, hreason, hquotes⟩ hline
    exact hquotes.not_isLine ((DecodeFault.isLine_message_of_refusal hreason).mp hline)

end Statewright
