import Statewright.Machine.Name
import Statewright.Text.Blank

/-!
# Names in their canonical spelling

What a name holds is read back as that name. A name character is none of the characters that mean
something between names: no blank, no comma, no semicolon.
-/

namespace Statewright

namespace Text

theorem isAlphanum_of_isNameChar {c : Char} (h : isNameChar c = true) : c.isAlphanum = true := by
  rw [isNameChar, Bool.or_eq_true] at h
  show (c.isUpper || c.isLower || c.isDigit) = true
  rw [Bool.or_eq_true, Bool.or_eq_true]
  rcases h with hupper | hdigit
  · exact Or.inl (Or.inl hupper)
  · exact Or.inr hdigit

theorem isDigit_iff {c : Char} : c.isDigit = true ↔ 48 ≤ c.toNat ∧ c.toNat ≤ 57 := by
  simp only [Char.isDigit, Bool.and_eq_true, decide_eq_true_eq, UInt32.le_iff_toNat_le, ge_iff_le]
  rfl

-- A name character is an ASCII capital or digit, by its code point.
theorem isNameChar_iff {c : Char} :
    isNameChar c = true ↔ (65 ≤ c.toNat ∧ c.toNat ≤ 90) ∨ (48 ≤ c.toNat ∧ c.toNat ≤ 57) := by
  show (decide ('A'.val ≤ c.val ∧ c.val ≤ 'Z'.val) ||
    (decide ('0'.val ≤ c.val) && decide (c.val ≤ '9'.val))) = true ↔ _
  simp only [Bool.or_eq_true, Bool.and_eq_true, decide_eq_true_eq, UInt32.le_iff_toNat_le]
  rfl

theorem not_isLower_of_isNameChar {c : Char} (h : isNameChar c = true) : c.isLower = false := by
  rw [isNameChar_iff] at h
  have hlow : ¬ ('a'.val ≤ c.val) := by
    rw [UInt32.le_iff_toNat_le]
    show ¬ (97 ≤ c.toNat)
    omega
  unfold Char.isLower
  rw [Bool.and_eq_false_iff, decide_eq_false_iff_not]
  exact Or.inl hlow

theorem toUpper_of_isNameChar {c : Char} (h : isNameChar c = true) : c.toUpper = c := by
  have hlower := not_isLower_of_isNameChar h
  unfold Char.isLower at hlower
  rw [Bool.and_eq_false_iff, decide_eq_false_iff_not, decide_eq_false_iff_not] at hlower
  unfold Char.toUpper
  rw [dif_neg]
  rintro ⟨hlo, hhi⟩
  rcases hlower with hn | hn
  · exact hn hlo
  · exact hn hhi

-- A text of name characters is its own canonical spelling.
theorem upper_of_isNameChar {s : String} (h : ∀ c ∈ s.toList, isNameChar c = true) :
    upper s = s := by
  apply String.toList_inj.mp
  have hid : s.toList.map Char.toUpper = s.toList.map id :=
    List.map_congr_left (fun c hc => toUpper_of_isNameChar (h c hc))
  rw [toList_upper, hid, List.map_id]

end Text

namespace StateName

-- The name that a text holds is the name that is read from it.
theorem parse_text (q : StateName) : parse q.text = .ok q := by
  have hchars : q.text.toList.all Char.isAlphanum = true :=
    List.all_eq_true.mpr fun c hc => Text.isAlphanum_of_isNameChar (q.canonical c hc)
  unfold parse
  rw [dif_pos ⟨q.nonempty, hchars⟩]
  congr 1
  -- The proofs in a name do not matter, only its text.
  cases q with
  | mk text nonempty canonical =>
    congr 1
    exact Text.upper_of_isNameChar canonical

end StateName

namespace Symbol

theorem ofChar_char (s : Symbol) : ofChar s.char = .ok s := by
  unfold ofChar
  rw [dif_pos (Text.isAlphanum_of_isNameChar s.canonical)]
  congr 1
  cases s with
  | mk char canonical =>
    congr 1
    exact Text.toUpper_of_isNameChar canonical

theorem toList_toString (s : Symbol) : (toString s).toList = [s.char] := by
  show (s.char.toString).toList = [s.char]
  rw [Char.toString_eq_singleton, String.toList_singleton]

-- The symbol that is written is the symbol that is read.
theorem parse_toString (s : Symbol) : parse (toString s) = .ok s := by
  unfold parse
  rw [toList_toString]
  exact ofChar_char s

end Symbol

end Statewright
