import Statewright.Language.Keyword
import Statewright.Text.Blank

/-!
# Pieces of a statement

A statement whose semicolon was forgotten runs on into the next one. It is cut before every
keyword past its first word, so that each piece holds one command. The word after a lone EXECUTE
is its input and never a keyword.
-/

namespace Statewright.Language

def isKeyword (word : String) : Bool :=
  (Keyword.ofWord? word).isSome

/-- Whether a piece is a lone EXECUTE, which takes the next word whatever it is. -/
def awaitsInput : List String → Bool
  | [head] => Keyword.ofWord? head == some .execute
  | _ => false

/-- Extends a piece by the words that belong to it, and goes on with the piece after it. -/
def growPiece (piece : List String) : List String → List (List String)
  | [] => [piece]
  | w :: ws =>
    if isKeyword w && !awaitsInput piece then
      piece :: growPiece [w] ws
    else
      growPiece (piece ++ [w]) ws

def pieces : List String → List (List String)
  | [] => []
  | w :: ws => growPiece [w] ws

/-- Cuts a statement into pieces, each written with single spaces. -/
def splitStatement (text : String) : List String :=
  (pieces (Text.words text)).map Text.unwords

/-- The parts of a comma-separated list, without the blanks around each. One dangling comma at the
end adds no part. -/
def commaParts (text : String) : List String :=
  let parts := (text.toList.splitOnP (· = ',')).map (fun p => Text.trim (String.ofList p))
  match parts.getLast? with
  | some "" => if parts.length > 1 then parts.dropLast else parts
  | _ => parts

-- No word is lost, added or moved by cutting.
theorem growPiece_flatten (piece ws : List String) :
    (growPiece piece ws).flatten = piece ++ ws := by
  fun_induction growPiece piece ws with
  | case1 => simp
  | case2 _ _ _ _ ih => simp [ih]
  | case3 _ _ _ _ ih => simp [ih]

theorem pieces_flatten (ws : List String) : (pieces ws).flatten = ws := by
  cases ws with
  | nil => rfl
  | cons w ws => exact growPiece_flatten [w] ws

end Statewright.Language
