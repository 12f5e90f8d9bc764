import Statewright.Text.Glyphless

/-!
# Quoted texts in messages

A text that a message cites stands in double quotes. Quotes, backslashes and the usual controls have
short escapes; a character without a glyph is written by its code point in hexadecimal.
-/

namespace Statewright.Text

def quotedChar (c : Char) : List Char :=
  match c with
  | '\x00' => ['\\', '0']
  | '\t' => ['\\', 't']
  | '\r' => ['\\', 'r']
  | '\n' => ['\\', 'n']
  | '"' => ['\\', '"']
  | '\\' => ['\\', '\\']
  | c =>
    if hasGlyph c then [c]
    else ['\\', 'u', '\x7b'] ++ Nat.toDigits 16 c.toNat ++ ['\x7d']

def quoted (s : String) : String :=
  String.ofList ('"' :: s.toList.flatMap quotedChar ++ ['"'])

end Statewright.Text
