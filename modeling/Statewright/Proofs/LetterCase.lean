import Mathlib
import Statewright.Machine.Edit
import Statewright.Machine.Run
import Statewright.Proofs.Commands

/-!
# Letter case

Whatever is read from a text is read from its canonical spelling, in which every ASCII letter is a
capital. Blanks, separators and all other characters are what they were, so the words of a text in
capitals are its words in capitals, and they name the same states, symbols and keywords.
-/

open Statewright.Fallible

namespace Statewright

namespace Text

/-! ## Characters -/

theorem isAlpha_iff {c : Char} :
    c.isAlpha = true ↔ (65 ≤ c.toNat ∧ c.toNat ≤ 90) ∨ (97 ≤ c.toNat ∧ c.toNat ≤ 122) := by
  simp only [Char.isAlpha, Char.isUpper, Char.isLower, Bool.or_eq_true, Bool.and_eq_true,
    decide_eq_true_eq, ge_iff_le, UInt32.le_iff_toNat_le]
  rfl

-- What all letters have in common does not change with their case.
theorem apply_toUpper {β : Type} {f : Char → β} {b : β} (hf : ∀ c, c.isAlpha = true → f c = b)
    (c : Char) : f c.toUpper = f c := by
  by_cases hc : c.isAlpha = true
  · rw [hf c hc, hf _ ((Char.isAlpha_toUpper_eq_isAlpha c).trans hc)]
  · have hlower : ¬ c.isLower = true := fun h => hc (by rw [Char.isAlpha, h, Bool.or_true])
    rw [Char.toUpper_eq_of_not_isLower hlower]

theorem isDigit_toUpper (c : Char) : c.toUpper.isDigit = c.isDigit := by
  refine apply_toUpper (b := false) (fun d hd => ?_) c
  rw [isAlpha_iff] at hd
  rw [← Bool.not_eq_true, isDigit_iff]
  omega

theorem isAlphanum_toUpper (c : Char) : c.toUpper.isAlphanum = c.isAlphanum := by
  rw [Char.isAlphanum, Char.isAlphanum, Char.isAlpha_toUpper_eq_isAlpha, isDigit_toUpper]

theorem isBlank_toUpper (c : Char) : isBlank c.toUpper = isBlank c := by
  refine apply_toUpper (b := false) (fun d hd => ?_) c
  rw [isAlpha_iff] at hd
  simp only [isBlank, Bool.or_eq_false_iff, Bool.and_eq_false_iff, decide_eq_false_iff_not,
    beq_eq_false_iff_ne]
  omega

theorem separates_toUpper {sep : Char} (hsep : sep.isAlpha = false) (c : Char) :
    decide (c.toUpper = sep) = decide (c = sep) := by
  refine apply_toUpper (f := fun c => decide (c = sep)) (b := false) (fun d hd => ?_) c
  rw [decide_eq_false_iff_not]
  rintro rfl
  rw [hsep] at hd
  cases hd

/-! ## Texts -/

theorem upper_ofList (cs : List Char) :
    upper (String.ofList cs) = String.ofList (cs.map Char.toUpper) := by
  rw [upper, String.toList_ofList]

theorem upper_append (s t : String) : upper (s ++ t) = upper s ++ upper t := by
  apply String.toList_inj.mp
  rw [toList_upper, String.toList_append, String.toList_append, toList_upper, toList_upper,
    List.map_append]

theorem upper_upper (s : String) : upper (upper s) = upper s := by
  apply String.toList_inj.mp
  rw [toList_upper, toList_upper, List.map_map]
  exact List.map_congr_left (fun c _ => Char.toUpper_toUpper_eq_toUpper c)

-- A text is cut where its canonical spelling is.
theorem splitOnP_map {p : Char → Bool} (hp : ∀ c, p c.toUpper = p c) (cs : List Char) :
    (cs.map Char.toUpper).splitOnP p = (cs.splitOnP p).map (List.map Char.toUpper) := by
  induction cs with
  | nil => rfl
  | cons c cs ih =>
    rw [List.map_cons, List.splitOnP_cons_eq_if_modifyHead, List.splitOnP_cons_eq_if_modifyHead,
      hp, ih]
    split
    · rfl
    · cases cs.splitOnP p with
      | nil => rfl
      | cons part parts => rfl

theorem wordsIn_map (cs : List Char) :
    wordsIn (cs.map Char.toUpper) = (wordsIn cs).map upper := by
  have hempty : (fun part : List Char => !(part.map Char.toUpper).isEmpty) =
      fun part => !part.isEmpty := by
    funext part
    rw [List.isEmpty_map]
  rw [wordsIn, wordLists, splitOnP_map isBlank_toUpper, List.filter_map]
  unfold Function.comp
  rw [hempty, List.map_map, wordsIn, wordLists, List.map_map]
  exact List.map_congr_left (fun part _ => (upper_ofList part).symm)

theorem words_upper (s : String) : words (upper s) = (words s).map upper := by
  show wordsIn (upper s).toList = (wordsIn s.toList).map upper
  rw [toList_upper, wordsIn_map]

theorem between_map {sep : Char} (hsep : sep.isAlpha = false) (cs : List Char) :
    between sep (cs.map Char.toUpper) = (between sep cs).map (List.map upper) := by
  rw [between, splitOnP_map (separates_toUpper hsep), List.map_map, between, List.map_map]
  exact List.map_congr_left (fun part _ => wordsIn_map part)

theorem unwords_map (ws : List String) : unwords (ws.map upper) = upper (unwords ws) := by
  induction ws with
  | nil => rfl
  | cons w ws ih =>
    by_cases hws : ws = []
    · rw [hws, List.map_singleton, unwords, unwords, String.intercalate_singleton,
        String.intercalate_singleton]
    · have hmap : ws.map upper ≠ [] := fun h => hws (List.map_eq_nil_iff.mp h)
      have hjoin : ∀ (v : String) {vs : List String}, vs ≠ [] →
          unwords (v :: vs) = v ++ " " ++ unwords vs :=
        fun v _ hvs => String.intercalate_cons_of_ne_nil hvs
      rw [List.map_cons, hjoin _ hmap, hjoin _ hws, ih, upper_append, upper_append]
      rfl

theorem trimLeft_map (cs : List Char) :
    trimLeft (cs.map Char.toUpper) = (trimLeft cs).map Char.toUpper := by
  have hblank : isBlank ∘ Char.toUpper = isBlank := funext isBlank_toUpper
  rw [trimLeft, List.dropWhile_map, hblank, trimLeft]

theorem trimRight_map (cs : List Char) :
    trimRight (cs.map Char.toUpper) = (trimRight cs).map Char.toUpper := by
  have hblank : isBlank ∘ Char.toUpper = isBlank := funext isBlank_toUpper
  rw [trimRight, ← List.map_reverse, List.dropWhile_map, hblank, ← List.map_reverse, trimRight]

theorem trim_upper (s : String) : trim (upper s) = upper (trim s) := by
  rw [trim, toList_upper, trimLeft_map, trimRight_map, trim, upper_ofList]

end Text

open Text

/-! ## Names -/

/-- The refusal of a text in capitals. -/
def NameError.upper : NameError → NameError
  | symbol raw => symbol (Text.upper raw)
  | state raw => state (Text.upper raw)

theorem Symbol.ofChar_toUpper (c : Char) :
    ofChar c.toUpper = (ofChar c).mapError NameError.upper := by
  unfold ofChar
  by_cases hc : c.isAlphanum = true
  · rw [dif_pos hc, dif_pos ((isAlphanum_toUpper c).trans hc)]
    show Except.ok _ = Except.ok _
    congr 2
    exact Char.toUpper_toUpper_eq_toUpper c
  · rw [dif_neg hc, dif_neg (by rwa [isAlphanum_toUpper])]
    show Except.error (NameError.symbol _) = Except.error (NameError.symbol _)
    rw [Char.toString_eq_singleton, Char.toString_eq_singleton, Text.upper,
      String.toList_singleton]
    rfl

theorem Symbol.parse_upper (raw : String) :
    parse (Text.upper raw) = (parse raw).mapError NameError.upper := by
  unfold parse
  rw [toList_upper]
  match raw.toList with
  | [] => rfl
  | [c] => exact ofChar_toUpper c
  | _ :: _ :: _ => rfl

theorem StateName.parse_upper (raw : String) :
    parse (Text.upper raw) = (parse raw).mapError NameError.upper := by
  have hall : (Text.upper raw).toList.all Char.isAlphanum = raw.toList.all Char.isAlphanum := by
    rw [toList_upper, List.all_map]
    exact congrArg raw.toList.all (funext isAlphanum_toUpper)
  unfold parse
  by_cases hraw : raw ≠ "" ∧ raw.toList.all Char.isAlphanum = true
  · rw [dif_pos hraw, dif_pos ⟨mt upper_eq_empty_iff.mp hraw.1, hall.trans hraw.2⟩]
    show Except.ok _ = Except.ok _
    congr 2
    exact upper_upper raw
  · rw [dif_neg hraw, dif_neg (fun h => hraw ⟨mt upper_eq_empty_iff.mpr h.1, hall ▸ h.2⟩)]
    rfl

/-- A keyword is recognised in capitals exactly if it is as it is written. -/
theorem Keyword.ofWord?_upper (w : String) : ofWord? (Text.upper w) = ofWord? w := by
  unfold ofWord? sameWord
  rw [upper_upper]

/-! ## Runs -/

namespace Machine

variable {m : Machine}

theorem step_toUpper (q : StateName) (c : Char) : m.step q c.toUpper = m.step q c := by
  unfold step
  rw [Symbol.ofChar_toUpper, Char.toUpper_toUpper_eq_toUpper]
  cases Symbol.ofChar c with
  | error e => rfl
  | ok s => rfl

theorem walk_map (q : StateName) (cs : List Char) :
    m.walk q (cs.map Char.toUpper) = m.walk q cs := by
  induction cs generalizing q with
  | nil => rfl
  | cons c cs ih =>
    rw [List.map_cons, walk, walk, step_toUpper]
    cases m.step q c with
    | error halt => rfl
    | ok r =>
      dsimp only
      rw [ih]

-- A run does the same on an input in capitals, and halts for the same reason.
theorem trace_upper (m : Machine) (input : String) :
    m.trace (Text.upper input) = m.trace input := by
  unfold trace
  rw [toList_upper]
  cases m.initial with
  | none => rfl
  | some q =>
    dsimp only
    rw [walk_map]

end Machine

end Statewright
