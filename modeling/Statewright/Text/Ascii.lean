/-!
# ASCII case

Names, keywords and file extensions are compared without regard to the case of ASCII letters.
`upper` is the canonical spelling; two texts are `sameWord` when their canonical spellings agree.
-/

namespace Statewright.Text

/-- The text with its ASCII letters in upper case; every other character stays. -/
def upper (s : String) : String :=
  String.ofList (s.toList.map Char.toUpper)

/-- Equality up to the case of ASCII letters. -/
def sameWord (s t : String) : Bool :=
  upper s == upper t

/-- An upper-case ASCII letter or a digit: the characters that names are held in. -/
def isNameChar (c : Char) : Bool :=
  c.isUpper || c.isDigit

@[simp]
theorem toList_upper (s : String) : (upper s).toList = s.toList.map Char.toUpper :=
  String.toList_ofList

@[simp]
theorem upper_eq_empty_iff {s : String} : upper s = "" ↔ s = "" := by
  rw [← String.toList_eq_nil_iff, toList_upper, List.map_eq_nil_iff, String.toList_eq_nil_iff]

-- An ASCII letter or digit in upper case is a name character.
theorem isNameChar_toUpper {c : Char} (h : c.isAlphanum = true) : isNameChar c.toUpper = true := by
  unfold Char.isAlphanum Char.isAlpha at h
  unfold isNameChar
  rw [Bool.or_eq_true, Bool.or_eq_true] at h
  rw [Bool.or_eq_true]
  rcases h with (hu | hl) | hd
  · left
    have : c.toUpper = c := by
      unfold Char.isUpper at hu
      unfold Char.toUpper
      rw [decide_eq_true_eq] at hu
      grind
    rwa [this]
  · left
    unfold Char.isLower at hl
    unfold Char.toUpper Char.isUpper
    simp only [Bool.and_eq_true, decide_eq_true_eq] at hl ⊢
    grind
  · right
    have : c.toUpper = c := by
      unfold Char.isDigit at hd
      unfold Char.toUpper
      simp only [Bool.and_eq_true, decide_eq_true_eq] at hd
      grind
    rwa [this]

end Statewright.Text
