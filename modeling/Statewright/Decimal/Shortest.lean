/-!
# Shortest decimals

A binary fraction stands for every real number that rounds to it. Among the decimals that do, the
ones with the fewest digits are found by trying one digit, two digits and so on: on each decimal
grid only the two neighbours of the value can lie in the interval. All arithmetic is on natural
numbers.
-/

namespace Statewright

/-- A decimal number, `significand * 10 ^ exponent`. -/
structure Decimal where
  negative : Bool
  significand : Nat
  exponent : Int
  deriving DecidableEq, Repr

namespace Decimal

structure Ratio where
  num : Nat
  den : Nat

namespace Ratio

/-- `n * b ^ e` for a base that is not zero. -/
def scaled (n b : Nat) (e : Int) : Ratio :=
  if 0 ≤ e then ⟨n * Nat.pow b e.toNat, 1⟩ else ⟨n, Nat.pow b (-e).toNat⟩

def le (x y : Ratio) : Bool :=
  x.num * y.den ≤ y.num * x.den

def lt (x y : Ratio) : Bool :=
  x.num * y.den < y.num * x.den

def distance (x y : Ratio) : Ratio :=
  let a := x.num * y.den
  let b := y.num * x.den
  ⟨if a ≤ b then b - a else a - b, x.den * y.den⟩

end Ratio

/-- The positive reals that round to one binary fraction. -/
structure Interval where
  low : Ratio
  value : Ratio
  high : Ratio
  /-- Whether the ends belong to it. -/
  closed : Bool

def Interval.contains (i : Interval) (x : Ratio) : Bool :=
  if i.closed then i.low.le x && x.le i.high else i.low.lt x && x.lt i.high

/-- The exponent of the leading decimal digit of a fraction, searched from a given one downwards. -/
def leadingExponent (x : Ratio) : (steps : Nat) → Int → Int
  | 0, e => e
  | n + 1, e => if (Ratio.scaled 1 10 e).le x then e else leadingExponent x n (e - 1)

/-- The nearer of the neighbours of the value on the grid of `10 ^ e` that lie in the interval. Of
two neighbours at the same distance the even one is taken. -/
def onGrid? (i : Interval) (e : Int) : Option Nat :=
  let unit := Ratio.scaled 1 10 e
  let below := (i.value.num * unit.den) / (i.value.den * unit.num)
  let above := below + 1
  let point (n : Nat) := Ratio.scaled n 10 e
  match i.contains (point below), i.contains (point above) with
  | true, true =>
    let toBelow := i.value.distance (point below)
    let toAbove := i.value.distance (point above)
    if toBelow.lt toAbove || (toBelow.le toAbove && below % 2 == 0) then some below else some above
  | true, false => some below
  | false, true => some above
  | false, false => none

/-- The first grid with a point in the interval, from grids of one digit on. -/
def search (i : Interval) (leading : Int) : (grids : Nat) → (digits : Nat) → Option (Nat × Int)
  | 0, _ => none
  | n + 1, digits =>
    let e := leading - digits
    match onGrid? i e with
    | some significand => some (significand, e)
    | none => search i leading n (digits + 1)

/-- Moves trailing zeros of the significand into the exponent. -/
def stripZeros : (steps : Nat) → Nat × Int → Nat × Int
  | 0, d => d
  | n + 1, (significand, e) =>
    if significand % 10 = 0 && significand ≠ 0 then stripZeros n (significand / 10, e + 1)
    else (significand, e)

/-- The shortest decimal that rounds to `m * 2 ^ q`. At a power of two, `halfBelow` says that the
neighbour below is half as far away as the one above. -/
def ofBinary (negative : Bool) (m : Nat) (q : Int) (halfBelow : Bool) : Decimal :=
  -- In units of `2 ^ (q - 2)` the value is `4 * m`, and both ends are whole numbers.
  let i : Interval := {
    low := Ratio.scaled (4 * m - (if halfBelow then 1 else 2 : Nat)) 2 (q - 2)
    value := Ratio.scaled m 2 q
    high := Ratio.scaled (4 * m + 2) 2 (q - 2)
    closed := m % 2 == 0 }
  -- Leading digits stand between `10 ^ 308` and `10 ^ -324`; seventeen digits always suffice.
  let leading := leadingExponent i.value 700 320
  let (significand, exponent) := stripZeros 20 ((search i leading 17 0).getD (0, 0))
  ⟨negative, significand, exponent⟩

end Decimal

inductive FloatShape where
  | nan
  | infinite (negative : Bool)
  | zero (negative : Bool)
  | finite (d : Decimal)

def FloatShape.ofFloat (x : Float) : FloatShape :=
  let bits := x.toBits.toNat
  let implicitBit := 1 <<< 52
  let negative := bits >>> 63 == 1
  let exponent := bits / implicitBit % 2048
  let mantissa := bits % implicitBit
  if exponent = 2047 then
    if mantissa = 0 then .infinite negative else .nan
  else if exponent = 0 then
    if mantissa = 0 then .zero negative
    else .finite (Decimal.ofBinary negative mantissa (-1074) false)
  else
    .finite (Decimal.ofBinary negative (implicitBit + mantissa) ((exponent : Int) - 1075)
      (mantissa == 0 && exponent > 1))

end Statewright
