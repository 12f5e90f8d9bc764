import Statewright.Decimal.Notation
import Statewright.Text.Ascii

/-!
# Values of settings

A setting is given as a truth value, a number or a text, and turned into what the setting needs. A
text from the environment is first taken for the narrowest of these that it spells.
-/

namespace Statewright

inductive SettingValue where
  | boolean (b : Bool)
  | integer (n : Int)
  | float (x : Float)
  | text (s : String)
  /-- A list, a table or nothing, which no setting takes. -/
  | compound

namespace SettingValue

def toText? : SettingValue → Option String
  | boolean b => some (if b then "true" else "false")
  | integer n => some (toString n)
  | float x => some (Decimal.plainText x)
  | text s => some s
  | compound => none

/-- The value as a truth value: numbers are true unless they are zero, and some words count. -/
def toBool? : SettingValue → Option Bool
  | boolean b => some b
  | integer n => some (n != 0)
  | float x => some (x != 0.0)
  | text s =>
    let word := Text.upper s
    if ["1", "TRUE", "ON", "YES"].contains word then some true
    else if ["0", "FALSE", "OFF", "NO"].contains word then some false
    else none
  | compound => none

def natural (digits : List Char) : Nat :=
  digits.foldl (fun n c => n * 10 + (c.toNat - '0'.toNat)) 0

def splitSign (cs : List Char) : Bool × List Char :=
  match cs with
  | '-' :: rest => (true, rest)
  | '+' :: rest => (false, rest)
  | _ => (false, cs)

def fits64 (n : Int) : Bool :=
  Int64.minValue.toInt ≤ n && n ≤ Int64.maxValue.toInt

def readInteger? (cs : List Char) : Option Int :=
  let (negative, digits) := splitSign cs
  if digits ≠ [] && digits.all Char.isDigit then
    let n : Int := if negative then -(natural digits) else natural digits
    if fits64 n then some n else none
  else none

def readPower? (cs : List Char) : Option Int :=
  let (negative, digits) := splitSign cs
  if digits ≠ [] && digits.all Char.isDigit then
    some (if negative then -(natural digits) else natural digits)
  else none

/-- The number of digits before and after a point, and a power of ten. -/
def assemble (negative : Bool) (whole fraction : List Char) (power : Int) : Float :=
  Decimal.nearest ⟨negative, natural (whole ++ fraction), power - fraction.length⟩

/-- The floating-point number that a text spells: digits with a point or a power of ten, or the
names of what is no finite number. -/
def readFloat? (cs : List Char) : Option Float :=
  let (negative, body) := splitSign cs
  let word := Text.upper (String.ofList body)
  if word = "INF" ∨ word = "INFINITY" then
    some (if negative then -(1.0 / 0.0) else 1.0 / 0.0)
  else if word = "NAN" then
    some (0.0 / 0.0)
  else
    let whole := body.takeWhile Char.isDigit
    let rest := body.dropWhile Char.isDigit
    let (fraction, rest) := match rest with
      | '.' :: rest => (rest.takeWhile Char.isDigit, rest.dropWhile Char.isDigit)
      | _ => ([], rest)
    if whole = [] ∧ fraction = [] then none
    else
      match rest with
      | [] => some (assemble negative whole fraction 0)
      | c :: rest =>
        if c = 'e' ∨ c = 'E' then (readPower? rest).map (assemble negative whole fraction)
        else none

/-- The value that a text from the environment is taken for. -/
def ofEnvironment (s : String) : SettingValue :=
  if Text.sameWord s "true" then boolean true
  else if Text.sameWord s "false" then boolean false
  else
    match readInteger? s.toList with
    | some n => integer n
    | none =>
      match readFloat? s.toList with
      | some x => float x
      | none => text s

end SettingValue

end Statewright
