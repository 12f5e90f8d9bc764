import Statewright.Proofs.Utf8
import Statewright.Proofs.Words
import Statewright.Session.Source

/-!
# Lines of a text

The bytes of a text are cut into lines where its line breaks are, and each line holds its
characters.
-/

open Statewright.Text

namespace Statewright.Source

/-! ## Cutting bytes -/

theorem cutLine_append (bytes : List UInt8) : (cutLine bytes).1 ++ (cutLine bytes).2 = bytes := by
  induction bytes with
  | nil => rfl
  | cons b bytes ih =>
    rw [cutLine]
    by_cases hb : b = lineBreak
    · rw [if_pos hb]
      rfl
    · rw [if_neg hb]
      show b :: ((cutLine bytes).1 ++ (cutLine bytes).2) = _
      rw [ih]

theorem length_cutLine {bytes line rest : List UInt8} (h : cutLine bytes = (line, rest))
    (hne : line ≠ []) : rest.length < bytes.length := by
  have happend := congrArg List.length (cutLine_append bytes)
  have hline := List.length_pos_iff.mpr hne
  rw [h, List.length_append] at happend
  dsimp only at happend
  omega

theorem cutLine_of_break {bytes : List UInt8} (h : lineBreak ∉ bytes) (rest : List UInt8) :
    cutLine (bytes ++ lineBreak :: rest) = (bytes ++ [lineBreak], rest) := by
  induction bytes with
  | nil => rfl
  | cons b bytes ih =>
    have hb : b ≠ lineBreak := fun heq => h (by rw [heq]; exact List.mem_cons_self)
    have hbytes : lineBreak ∉ bytes := fun hmem => h (List.mem_cons_of_mem b hmem)
    rw [List.cons_append, cutLine, if_neg hb, ih hbytes]
    rfl

theorem cutLine_of_no_break {bytes : List UInt8} (h : lineBreak ∉ bytes) :
    cutLine bytes = (bytes, []) := by
  induction bytes with
  | nil => rfl
  | cons b bytes ih =>
    have hb : b ≠ lineBreak := fun heq => h (by rw [heq]; exact List.mem_cons_self)
    have hbytes : lineBreak ∉ bytes := fun hmem => h (List.mem_cons_of_mem b hmem)
    rw [cutLine, if_neg hb, ih hbytes]

/-! ## Cutting texts -/

theorem lineBreak_not_mem {cs : List Char} (h : '\n' ∉ cs) : lineBreak ∉ Utf8.encode cs := by
  intro hmem
  -- The byte of a line break is in the encoding of no other character.
  obtain ⟨c, hc, hb⟩ := List.mem_flatMap.mp hmem
  have hcode : c.toNat = 10 := Utf8.toNat_of_mem_encodeChar hb (by decide)
  have heq : c = '\n' := by
    rw [← Char.ofNat_toNat c, hcode]
  rw [heq] at hc
  exact h hc

theorem encode_line (part rest : List Char) :
    Utf8.encode (part ++ '\n' :: rest) = Utf8.encode part ++ lineBreak :: Utf8.encode rest := by
  rw [Utf8.encode_append, Utf8.encode_cons]
  rfl

theorem cutLine_encode {part : List Char} (h : '\n' ∉ part) (rest : List Char) :
    cutLine (Utf8.encode (part ++ '\n' :: rest)) =
      (Utf8.encode (part ++ ['\n']), Utf8.encode rest) := by
  rw [encode_line, encode_line, cutLine_of_break (lineBreak_not_mem h)]
  rfl

/-- The lines of some bytes: each is cut off what the one before it left. -/
def lines (bytes : List UInt8) : List (List UInt8) :=
  match _h : cutLine bytes with
  | ([], _) => []
  | (b :: line, rest) => (b :: line) :: lines rest
termination_by bytes.length
decreasing_by exact length_cutLine _h (List.cons_ne_nil _ _)

theorem lines_of_cutLine {bytes line rest : List UInt8} (h : cutLine bytes = (line, rest))
    (hne : line ≠ []) : lines bytes = line :: lines rest := by
  rw [lines]
  split
  · next heq =>
    rw [h] at heq
    exact absurd (Prod.mk.inj heq).1 hne
  · next heq =>
    rw [h] at heq
    rw [(Prod.mk.inj heq).1, (Prod.mk.inj heq).2]

/-- The lines of a text as they are handed to the reader. -/
def textLines (cs : List Char) : List String :=
  (lines (Utf8.encode cs)).map (fun line => String.ofList (Utf8.decodeLossy line))

theorem textLines_nil : textLines [] = [] := by
  rw [textLines, Utf8.encode_nil, lines]
  rfl

theorem textLines_of_cutLine {cs line rest : List Char}
    (h : cutLine (Utf8.encode cs) = (Utf8.encode line, Utf8.encode rest)) (hne : line ≠ []) :
    textLines cs = String.ofList line :: textLines rest := by
  rw [textLines, lines_of_cutLine h (Utf8.encode_ne_nil hne), List.map_cons,
    Utf8.decodeLossy_encode, textLines]

theorem textLines_last {part : List Char} (h : '\n' ∉ part) (hne : part ≠ []) :
    textLines part = [String.ofList part] := by
  have hcut : cutLine (Utf8.encode part) = (Utf8.encode part, Utf8.encode []) :=
    cutLine_of_no_break (lineBreak_not_mem h)
  rw [textLines_of_cutLine hcut hne, textLines_nil]

theorem textLines_break {part : List Char} (h : '\n' ∉ part) (rest : List Char) :
    textLines (part ++ '\n' :: rest) = String.ofList (part ++ ['\n']) :: textLines rest :=
  textLines_of_cutLine (cutLine_encode h rest) (List.append_ne_nil_of_right_ne_nil _ (by simp))

end Statewright.Source
