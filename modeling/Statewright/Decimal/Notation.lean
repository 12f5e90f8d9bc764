import Statewright.Decimal.Shortest

/-!
# Notations for numbers

Two ways to write a floating-point number by its shortest decimal: always positional, and with a
power of ten outside a range. And one way to read it: the number nearest to a decimal text.
-/

namespace Statewright.Decimal

def digits (d : Decimal) : List Char :=
  Nat.toDigits 10 d.significand

def zeros (n : Nat) : List Char :=
  List.replicate n '0'

def positional (d : Decimal) : List Char × List Char :=
  let ds := d.digits
  if 0 ≤ d.exponent then (ds ++ zeros d.exponent.toNat, [])
  else
    let places := (-d.exponent).toNat
    if ds.length > places then (ds.take (ds.length - places), ds.drop (ds.length - places))
    else (['0'], zeros (places - ds.length) ++ ds)

def sign (negative : Bool) : String :=
  if negative then "-" else ""

/-- A number in positional notation, without a point where no fraction follows. -/
def plainText (x : Float) : String :=
  match FloatShape.ofFloat x with
  | .nan => "NaN"
  | .infinite negative => sign negative ++ "inf"
  | .zero negative => sign negative ++ "0"
  | .finite d =>
    let (whole, fraction) := d.positional
    sign d.negative ++ String.ofList whole ++
      (if fraction = [] then "" else "." ++ String.ofList fraction)

/-- A finite number with its power of ten, or in positional notation from `1e-5` up to `1e16`. There
a fraction is always written, elsewhere the sign of the power is. -/
def scientificText (x : Float) : String :=
  match FloatShape.ofFloat x with
  | .nan => "NaN"
  | .infinite negative => sign negative ++ "inf"
  | .zero negative => sign negative ++ "0.0"
  | .finite d =>
    let ds := d.digits
    let power := d.exponent + (ds.length - 1)
    if -5 ≤ power ∧ power < 16 then
      let (whole, fraction) := d.positional
      sign d.negative ++ String.ofList whole ++ "." ++
        (if fraction = [] then "0" else String.ofList fraction)
    else
      let mantissa := match ds with
        | [] => []
        | [c] => [c]
        | c :: rest => c :: '.' :: rest
      sign d.negative ++ String.ofList mantissa ++ "e" ++ (if power < 0 then "-" else "+") ++
        String.ofList (Nat.toDigits 10 power.natAbs)

/-- The number nearest to a decimal. Beyond the reach of the format that is infinity or zero. -/
def nearest (d : Decimal) : Float :=
  let reach := d.exponent + (Nat.toDigits 10 d.significand).length
  -- The format ends well inside `10 ^ 400`, so larger powers need not be computed.
  let magnitude :=
    if d.significand = 0 || reach < -400 then 0.0
    else if reach > 400 then 1.0 / 0.0
    else Float.ofScientific d.significand (d.exponent < 0) d.exponent.natAbs
  if d.negative then -magnitude else magnitude

end Statewright.Decimal
