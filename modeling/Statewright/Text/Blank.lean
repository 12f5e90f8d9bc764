/-!
# Blank characters and words

`isBlank` is the White_Space property. A text is cut into `words` at its blanks, and `trim` drops
the blanks at both ends. Words are never empty and hold no blank; joining two texts by a blank joins
their lists of words.
-/

namespace Statewright.Text

/-- The White_Space property: the characters that separate words. -/
def isBlank (c : Char) : Bool :=
  (9 ≤ c.toNat && c.toNat ≤ 13) || c.toNat == 0x20 || c.toNat == 0x85 || c.toNat == 0xA0 ||
  c.toNat == 0x1680 || (0x2000 ≤ c.toNat && c.toNat ≤ 0x200A) || c.toNat == 0x2028 ||
  c.toNat == 0x2029 || c.toNat == 0x202F || c.toNat == 0x205F || c.toNat == 0x3000

/-- The pieces of a list between its blanks, empty pieces left out. -/
def wordLists (cs : List Char) : List (List Char) :=
  (cs.splitOnP isBlank).filter (fun w => !w.isEmpty)

/-- The maximal runs of characters that are not blank, in order. -/
def words (s : String) : List String :=
  (wordLists s.toList).map String.ofList

def unwords (ws : List String) : String :=
  " ".intercalate ws

def trimLeft (cs : List Char) : List Char :=
  cs.dropWhile isBlank

def trimRight (cs : List Char) : List Char :=
  (cs.reverse.dropWhile isBlank).reverse

def trim (s : String) : String :=
  String.ofList (trimRight (trimLeft s.toList))

@[simp]
theorem wordLists_nil : wordLists [] = [] := rfl

-- A blank between two lists separates their words.
theorem wordLists_append_blank {b : Char} (hb : isBlank b = true) (s t : List Char) :
    wordLists (s ++ b :: t) = wordLists s ++ wordLists t := by
  simp [wordLists, List.splitOnP_append_cons _ _ hb]

end Statewright.Text
