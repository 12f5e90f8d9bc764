import Statewright.Text.Hex

/-!
# Printing JSON

Values are printed over several lines, an entry a line, each two spaces further in than the list or
object around it. An empty list stays on its line. There is no line break at the end.
-/

namespace Statewright.Json

abbrev Printer := (depth : Nat) → List Char

namespace Printer

/-- A character of a quoted text. Quotes, backslashes and controls are escaped. -/
def textChar (c : Char) : List Char :=
  match c with
  | '"' => ['\\', '"']
  | '\\' => ['\\', '\\']
  | '\x08' => ['\\', 'b']
  | '\x0c' => ['\\', 'f']
  | '\n' => ['\\', 'n']
  | '\r' => ['\\', 'r']
  | '\t' => ['\\', 't']
  | c =>
    if c.toNat < 0x20 then ['\\', 'u', '0', '0'] ++ Text.Hex.ofByte (UInt8.ofNat c.toNat)
    else [c]

def quote (cs : List Char) : List Char :=
  '"' :: cs.flatMap textChar ++ ['"']

def text (s : String) : Printer := fun _ =>
  quote s.toList

def natural (n : Nat) : Printer := fun _ =>
  Nat.toDigits 10 n

def nullable : Option Printer → Printer
  | none => fun _ => ['n', 'u', 'l', 'l']
  | some p => p

def newline (depth : Nat) : List Char :=
  '\n' :: List.replicate (2 * depth) ' '

/-- Entries, an entry a line, between brackets. -/
def block (opening closing : Char) (entries : List Printer) : Printer := fun depth =>
  match entries with
  | [] => [opening, closing]
  | _ =>
    let lines := entries.map (fun p => newline (depth + 1) ++ p (depth + 1))
    opening :: [','].intercalate lines ++ newline depth ++ [closing]

def list (items : List Printer) : Printer :=
  block '[' ']' items

def entry (name : String) (value : Printer) : Printer := fun depth =>
  quote name.toList ++ [':', ' '] ++ value depth

def object (fields : List (String × Printer)) : Printer :=
  block '\x7b' '\x7d' (fields.map (fun (name, value) => entry name value))

def print (p : Printer) : String :=
  String.ofList (p 0)

end Printer

end Statewright.Json
