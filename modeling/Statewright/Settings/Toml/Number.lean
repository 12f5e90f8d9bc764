import Statewright.Settings.Value
import Statewright.Text.Hex

/-!
# Numbers in TOML

Digits may have underscores between them. A decimal number begins with a zero only if that is all of
its whole part.
-/

namespace Statewright.Toml

/-- Digits without the underscores between them; `none` where an underscore is not between two. -/
def plainDigits? (isDigit : Char → Bool) (cs : List Char) : Option (List Char) :=
  let groups := cs.splitOnP (· = '_')
  if groups.all (fun g => g ≠ [] && g.all isDigit) then some groups.flatten else none

/-- The digits of a whole number without needless zeros in front. -/
def wholeDigits? (cs : List Char) : Option (List Char) := do
  let digits ← plainDigits? Char.isDigit cs
  match digits with
  | '0' :: _ :: _ => none
  | _ => some digits

/-- Whether a character is a digit of a base. -/
def isDigitIn (base : Nat) (c : Char) : Bool :=
  ((Text.Hex.digit? c).map (fun d => decide (d < base))).getD false

/-- The number that digits of a base spell. -/
def inBase (base : Nat) (digits : List Char) : Nat :=
  digits.foldl (fun n c => n * base + (Text.Hex.digit? c).getD 0) 0

/-- A whole number in a base, without a sign. -/
def based? (base : Nat) (cs : List Char) : Option Int := do
  let n : Int := inBase base (← plainDigits? (isDigitIn base) cs)
  if SettingValue.fits64 n then some n else none

/-- A whole number in one of four bases. -/
def integer? (cs : List Char) : Option Int :=
  match cs with
  | '0' :: 'x' :: digits => based? 16 digits
  | '0' :: 'o' :: digits => based? 8 digits
  | '0' :: 'b' :: digits => based? 2 digits
  | _ => do
    let (negative, digits) := SettingValue.splitSign cs
    let n : Int := SettingValue.natural (← wholeDigits? digits)
    let n := if negative then -n else n
    if SettingValue.fits64 n then some n else none

def power? (cs : List Char) : Option Int := do
  let (negative, digits) := SettingValue.splitSign cs
  let n : Int := SettingValue.natural (← plainDigits? Char.isDigit digits)
  return if negative then -n else n

/-- A number with a fraction, a power of ten or both, or the name of what is no finite number. A
number above all floating-point numbers is refused. -/
def float? (cs : List Char) : Option Float := do
  let (negative, body) := SettingValue.splitSign cs
  if body = "inf".toList ∨ body = "nan".toList then
    return ← SettingValue.readFloat? cs
  let (mantissa, power) := body.span (fun c => c ≠ 'e' && c ≠ 'E')
  let (whole, fraction) := mantissa.span (· ≠ '.')
  if fraction = [] ∧ power = [] then none
  let whole ← wholeDigits? whole
  let fraction ← match fraction with
    | _ :: digits => plainDigits? Char.isDigit digits
    | [] => some []
  let power ← match power with
    | _ :: rest => power? rest
    | [] => some 0
  let x := SettingValue.assemble negative whole fraction power
  if x < 1.0 / 0.0 then some x else none

end Statewright.Toml
