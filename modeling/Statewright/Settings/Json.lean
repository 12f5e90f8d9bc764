import Statewright.Json.Decoder
import Statewright.Settings.Value

/-!
# Settings in JSON

An object whose entries are settings. Lists and objects inside it are read for their form only.
-/

namespace Statewright.SettingValue

/-- A number: a whole one if it fits 64 bits with a sign. -/
def ofNumber : Json.Number → SettingValue
  | .natural n => if fits64 n then integer n else float (UInt64.ofNat n).toFloat
  | .negative n => integer (-n)
  | .float x => float x

def jsonScalar : Json.Decoder SettingValue := fun cs =>
  let number (read : Except Json.Fault (Json.Number × List Char)) :=
    read.map (fun (n, rest) => (ofNumber n, rest))
  match cs with
  | 'n' :: rest => (Json.word "ull".toList rest).map (fun (_, rest) => (compound, rest))
  | 't' :: rest => (Json.word "rue".toList rest).map (fun (_, rest) => (boolean true, rest))
  | 'f' :: rest => (Json.word "alse".toList rest).map (fun (_, rest) => (boolean false, rest))
  | '"' :: rest => (Json.text rest).map (fun (s, rest) => (text s, rest))
  | '-' :: rest => number (Json.number true rest)
  | c :: _ =>
    if c.isDigit then number (Json.number false cs) else .error (.ahead .expectedValue cs)
  | [] => .error (.here .endInValue [])

/-- A value with room for so many levels of lists and objects. -/
def jsonValue : (room : Nat) → Json.Decoder SettingValue
  | 0, cs => jsonScalar (Json.skipSpace cs)
  | n + 1, cs =>
    match Json.skipSpace cs with
    | '[' :: rest =>
      (Json.Decoder.list (jsonValue n) ('[' :: rest)).map (fun (_, rest) => (compound, rest))
    | '\x7b' :: rest =>
      (Json.Decoder.object (jsonValue n) ('\x7b' :: rest)).map (fun (_, rest) => (compound, rest))
    | cs => jsonScalar cs

/-- The levels of lists and objects that a settings file may have, the outermost one included. -/
def jsonDepth : Nat := 127

def ofJson? (document : List Char) : Option (List (String × SettingValue)) :=
  let whole := Json.Decoder.object (jsonValue (jsonDepth - 1))
  (Json.Decoder.decode whole (String.ofList document)).toOption

end Statewright.SettingValue
