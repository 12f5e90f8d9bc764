import Statewright.Decimal.Notation
import Statewright.Json.Fault
import Statewright.Text.Hex

/-!
# Scanning JSON

The lexical parts of a JSON text: space, words, texts in quotes and numbers. Each scanner takes what
is left of the text and gives what it read with the rest, or a fault.
-/

namespace Statewright.Json

abbrev Scan (α : Type) := List Char → Except Fault (α × List Char)

def isSpace (c : Char) : Bool :=
  c = ' ' || c = '\n' || c = '\t' || c = '\r'

def skipSpace (cs : List Char) : List Char :=
  cs.dropWhile isSpace

def word : (letters : List Char) → Scan Unit
  | [], cs => .ok ((), cs)
  | _ :: _, [] => .error (.here .endInValue [])
  | l :: ls, c :: cs => if l = c then word ls cs else .error (.ahead .expectedWord (c :: cs))

/-! ## Texts -/

def hexEscape (cs : List Char) : Except Fault (Nat × List Char) :=
  let four := cs.take 4
  match if four.length = 4 then Text.Hex.number? four else none with
  | some n => .ok (n, cs.drop 4)
  | none =>
    let left := Text.Utf8.size cs
    -- Four bytes are consumed before any of them is looked at.
    if 4 ≤ left then .error (.placed .invalidEscape (left - 4)) else .error (.here .endInText [])

def isHighSurrogate (n : Nat) : Bool := 0xD800 ≤ n && n ≤ 0xDBFF

def isLowSurrogate (n : Nat) : Bool := 0xDC00 ≤ n && n ≤ 0xDFFF

def pairPart (expected : Char) : Scan Unit
  | [] => .error (.here .endInText [])
  | c :: cs => if c = expected then .ok ((), cs) else .error (.ahead .endInHexEscape (c :: cs))

/-- The character of an escape by code point, after its `u`. -/
def codePoint (cs : List Char) : Except Fault (Char × List Char) := do
  let (n, cs) ← hexEscape cs
  if isLowSurrogate n then
    throw (.here .loneSurrogate cs)
  if isHighSurrogate n then
    let ((), cs) ← pairPart '\\' cs
    let ((), cs) ← pairPart 'u' cs
    let (m, cs) ← hexEscape cs
    if isLowSurrogate m then
      return (Char.ofNat (0x10000 + (n - 0xD800) * 0x400 + (m - 0xDC00)), cs)
    else
      throw (.here .loneSurrogate cs)
  else
    return (Char.ofNat n, cs)

def shortEscape? (c : Char) : Option Char :=
  match c with
  | '"' => some '"'
  | '\\' => some '\\'
  | '/' => some '/'
  | 'b' => some '\x08'
  | 'f' => some '\x0c'
  | 'n' => some '\n'
  | 'r' => some '\r'
  | 't' => some '\t'
  | _ => none

def escape : Scan Char
  | [] => .error (.here .endInText [])
  | 'u' :: cs => codePoint cs
  | c :: cs =>
    match shortEscape? c with
    | some d => .ok (d, cs)
    | none => .error (.ahead .invalidEscape (c :: cs))

/-- Reads up to the closing quote. Every step consumes a character, so the length of the text is
enough fuel. -/
def textBody : (fuel : Nat) → Scan (List Char)
  | 0, cs => .error (.here .endInText cs)
  | _ + 1, [] => .error (.here .endInText [])
  | n + 1, c :: cs =>
    if c = '"' then .ok ([], cs)
    else if c = '\\' then do
      let (d, cs) ← escape cs
      let (ds, cs) ← textBody n cs
      return (d :: ds, cs)
    else if c.toNat < 0x20 then .error (.here .controlCharacter cs)
    else do
      let (ds, cs) ← textBody n cs
      return (c :: ds, cs)

def text (cs : List Char) : Except Fault (String × List Char) := do
  let (body, rest) ← textBody (cs.length + 1) cs
  return (String.ofList body, rest)

/-! ## Numbers -/

/-- A number: a whole one that fits 64 bits, or a floating-point one. -/
inductive Number where
  | natural (n : Nat)
  | negative (n : Nat)
  | float (x : Float)

def Number.found : Number → Found
  | natural n => .integer n
  | negative n => .integer (-n)
  | float x => .float (Decimal.scientificText x)

/-- The largest significand that is kept exactly. -/
def maxSignificand : Nat := UInt64.size - 1

def digitValue (c : Char) : Nat := c.toNat - '0'.toNat

def digitRun (cs : List Char) : List Char × List Char :=
  (cs.takeWhile Char.isDigit, cs.dropWhile Char.isDigit)

/-- The significand of whole digits as long as it fits, and how many digits did not. -/
def wholeSignificand (digits : List Char) : Nat × Nat :=
  digits.foldl (fun (n, dropped) c =>
    let m := n * 10 + digitValue c
    -- After a dropped digit every other one is dropped too: each of them is a power of ten.
    if dropped = 0 ∧ m ≤ maxSignificand then (m, 0) else (n, dropped + 1)) (0, 0)

/-- Extends a significand by the digits of a fraction as long as it fits, and says how many did. The
other digits are dropped. -/
def fractionSignificand (significand : Nat) (digits : List Char) : Nat × Nat :=
  let (n, places, _) := digits.foldl (fun (n, places, full) c =>
    let m := n * 10 + digitValue c
    if !full && m ≤ maxSignificand then (m, places + 1, false) else (n, places, true))
    (significand, 0, false)
  (n, places)

def powerOfTen (n : Nat) : Float := Float.ofScientific 1 false n

/-- `x * 10 ^ exponent` in steps of at most 308 powers, `none` beyond the largest number. Each step
but the last shrinks the exponent; three of them take every number to zero. -/
def scaleBy (x : Float) (exponent : Int) : (steps : Nat) → Option Float
  | 0 => some 0.0
  | n + 1 =>
    if exponent.natAbs ≤ 308 then
      if 0 ≤ exponent then
        let y := x * powerOfTen exponent.natAbs
        if y.isInf then none else some y
      else
        some (x / powerOfTen exponent.natAbs)
    else if x == 0.0 then some x
    else if 0 ≤ exponent then none
    else scaleBy (x / powerOfTen 308) (exponent + 308) n

def floatOf (negative : Bool) (significand : Nat) (exponent : Int) (rest : List Char) :
    Except Fault (Number × List Char) :=
  match scaleBy (UInt64.ofNat significand).toFloat exponent 8 with
  | some x => .ok (.float (if negative then -x else x), rest)
  | none => .error (.here .numberOutOfRange rest)

def maxPower : Nat := UInt32.size / 2 - 1

/-- The digits of a power up to the one that makes it too large, if one does. -/
def tooLarge? (seen : List Char) (n : Nat) : List Char → Option (List Char)
  | [] => none
  | c :: cs =>
    let m := n * 10 + digitValue c
    if m ≤ maxPower then tooLarge? (seen ++ [c]) m cs else some (seen ++ [c])

def power (negative : Bool) (significand : Nat) (start : Int) (cs : List Char) :
    Except Fault (Number × List Char) :=
  let (down, cs) := match cs with
    | '+' :: rest => (false, rest)
    | '-' :: rest => (true, rest)
    | _ => (false, cs)
  let (run, rest) := digitRun cs
  match cs, run with
  | [], _ => .error (.here .endInValue [])
  | _ :: _, [] => .error (.ahead .invalidNumber cs)
  | _ :: _, _ :: _ =>
    match tooLarge? [] 0 run with
    | some seen =>
      -- The text is not looked at beyond the digit that makes the power too large.
      if significand ≠ 0 && !down then .error (.here .numberOutOfRange (cs.drop seen.length))
      else .ok (.float (if negative then -0.0 else 0.0), rest)
    | none =>
      let n : Int := run.foldl (fun n c => n * 10 + digitValue c) 0
      floatOf negative significand (if down then start - n else start + n) rest

def fraction (negative : Bool) (significand : Nat) (start : Int) (cs : List Char) :
    Except Fault (Number × List Char) :=
  let (run, rest) := digitRun cs
  match run with
  | [] => .error (.ahead (if cs = [] then .endInValue else .invalidNumber) cs)
  | _ =>
    let (significand, places) := fractionSignificand significand run
    let exponent := start - places
    match rest with
    | 'e' :: rest | 'E' :: rest => power negative significand exponent rest
    | _ => floatOf negative significand exponent rest

def afterWhole (negative : Bool) (significand dropped : Nat) (cs : List Char) :
    Except Fault (Number × List Char) :=
  match cs with
  | '.' :: rest => fraction negative significand dropped rest
  | 'e' :: rest | 'E' :: rest => power negative significand dropped rest
  | _ =>
    if dropped ≠ 0 then floatOf negative significand dropped cs
    else if !negative then .ok (.natural significand, cs)
    -- Minus zero has no whole form, and below the signed range a number is approximated.
    else if significand = 0 ∨ UInt64.size / 2 < significand then
      .ok (.float (-(UInt64.ofNat significand).toFloat), cs)
    else .ok (.negative significand, cs)

/-- Reads a number after its sign. No other digit follows a leading zero. -/
def number (negative : Bool) (cs : List Char) : Except Fault (Number × List Char) :=
  match cs with
  | [] => .error (.here .endInValue [])
  | '0' :: rest =>
    match rest with
    | d :: _ =>
      if d.isDigit then .error (.ahead .invalidNumber rest)
      else afterWhole negative 0 0 rest
    | [] => afterWhole negative 0 0 []
  | c :: _ =>
    if c.isDigit then
      let (run, rest) := digitRun cs
      let (significand, dropped) := wholeSignificand run
      afterWhole negative significand dropped rest
    else
      .error (.ahead .invalidNumber cs)

end Statewright.Json
