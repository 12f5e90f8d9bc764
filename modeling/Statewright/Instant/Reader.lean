import Statewright.Instant.Basic
import Statewright.Text.Blank

/-!
# Reading instants

A date, `T`, `t` or a space, a time of day, and an offset from universal time. Blanks may stand in
front of a number or a separator. The fields are checked in the order in which they are read, the
calendar and the end of the text last.
-/

namespace Statewright

inductive InstantError where
  | invalidCharacter
  | prematureEnd
  | outOfRange
  | trailingInput
  /-- The offset leads out of the calendar. -/
  | impossible
  deriving DecidableEq, Repr

def InstantError.message : InstantError → String
  | .invalidCharacter => "input contains invalid characters"
  | .prematureEnd => "premature end of input"
  | .outOfRange => "input is out of range"
  | .trailingInput => "trailing input"
  | .impossible => "no possible date and time matching input"

namespace Instant

abbrev Read (α : Type) := StateT (List Char) (Except InstantError) α

def decimal (digits : List Char) : Nat :=
  digits.foldl (fun n c => n * 10 + (c.toNat - '0'.toNat)) 0

/-- One digit or more, and as many as `most` allows. -/
def digits (most : Option Nat) : Read (List Char) := fun cs =>
  let run := match most with
    | some n => (cs.take n).takeWhile Char.isDigit
    | none => cs.takeWhile Char.isDigit
  match cs, run with
  | [], _ => .error .prematureEnd
  | _ :: _, [] => .error .invalidCharacter
  | _ :: _, _ :: _ => .ok (run, cs.drop run.length)

def skipBlanks : Read Unit :=
  modify Text.trimLeft

/-- A number of at most so many digits between two bounds, after blanks. -/
def bounded (most low high : Nat) : Read Nat := do
  skipBlanks
  let n := decimal (← digits (some most))
  if low ≤ n ∧ n ≤ high then return n else throw .outOfRange

def literal (c : Char) : Read Unit := fun cs =>
  match cs with
  | [] => .error .prematureEnd
  | d :: rest => if d = c then .ok ((), rest) else .error .invalidCharacter

def separator (c : Char) : Read Unit := do
  skipBlanks
  literal c

/-- A year: four digits at most, or a sign and any number of digits. -/
def year : Read Int := do
  skipBlanks
  match ← get with
  | '-' :: rest =>
    set rest
    return -(decimal (← digits none) : Int)
  | '+' :: rest =>
    set rest
    return (decimal (← digits none) : Int)
  | _ => return (decimal (← digits (some 4)) : Int)

/-- A fraction of a second after a point, in nanoseconds. Digits past the ninth are dropped. -/
def fraction : Read Nat := do
  match ← get with
  | '.' :: rest =>
    set rest
    let run ← digits none
    let kept := run.take 9
    return decimal kept * Nat.pow 10 (9 - kept.length)
  | _ => return 0

def dateTimeSeparator : Read Unit := fun cs =>
  match cs with
  | [] => .error .prematureEnd
  | c :: rest => if c = 'T' || c = 't' || c = ' ' then .ok ((), rest) else .error .invalidCharacter

/-- Two characters that take a byte each. A single such character is too few. -/
def pair : Read (Char × Char) := fun cs =>
  match cs with
  | [] => .error .prematureEnd
  | [c] => .error (if c.utf8Size = 1 then .prematureEnd else .invalidCharacter)
  | c :: d :: rest => .ok ((c, d), rest)

def offsetHours : Read Nat := do
  let (c, d) ← pair
  if c.isDigit && d.isDigit then return decimal [c, d] else throw .invalidCharacter

def offsetMinutes : Read Nat := do
  let (c, d) ← pair
  if c.isDigit && d.isDigit then
    let n := decimal [c, d]
    if n < 60 then return n else throw .outOfRange
  else
    throw .invalidCharacter

/-- The sign of an offset: whether it is negative. -/
def offsetSign : Read Bool := fun cs =>
  match cs with
  | [] => .error .prematureEnd
  | '+' :: rest => .ok (false, rest)
  | '-' :: rest => .ok (true, rest)
  | '\u2212' :: rest => .ok (true, rest)
  | _ => .error .invalidCharacter

/-- An offset from universal time in seconds: `Z`, `UTC`, or hours and minutes with a sign. -/
def offset : Read Int := do
  skipBlanks
  match ← get with
  | u :: t :: c :: rest =>
    -- Three letters, of which `Z` or a sign could not be the first.
    if u.toUpper = 'U' && t.toUpper = 'T' && c.toUpper = 'C' then
      set rest
      return 0
  | _ => pure ()
  match ← get with
  | 'Z' :: rest | 'z' :: rest =>
    set rest
    return 0
  | _ =>
    let negative ← offsetSign
    let hours ← offsetHours
    modify (fun cs => cs.dropWhile (fun c => c = ':' || Text.isBlank c))
    let minutes ← offsetMinutes
    let seconds : Int := hours * 3600 + minutes * 60
    return if negative then -seconds else seconds

/-- The fields of a text, before the calendar is asked. -/
structure Fields where
  year : Int
  month : Nat
  day : Nat
  hour : Nat
  minute : Nat
  second : Nat
  nanos : Nat
  offset : Int

def fields : Read Fields := do
  let y ← year
  if y < -2147483648 ∨ 2147483647 < y then
    throw .outOfRange
  separator '-'
  let month ← bounded 2 1 12
  separator '-'
  let day ← bounded 2 1 31
  dateTimeSeparator
  let hour ← bounded 2 0 23
  separator ':'
  let minute ← bounded 2 0 59
  separator ':'
  let second ← bounded 2 0 60
  let nanos ← fraction
  let shift ← offset
  return ⟨y, month, day, hour, minute, second, nanos, shift⟩

/-- The same moment on a clock that is `offset` seconds behind, for less than a day's offset. -/
def shift? (date : Date) (second nanos : Nat) (offset : Int) : Option Instant := do
  let moved : Int := second - offset
  if moved < 0 then of? (← date.previous?) (moved + 86400).toNat nanos
  else if moved < 86400 then of? date moved.toNat nanos
  else of? (← date.next?) (moved - 86400).toNat nanos

/-- The moment that some fields describe. Second 60 is a leap second. -/
def ofFields (f : Fields) : Except InstantError Instant := do
  let some date := Date.of? f.year f.month f.day | throw .outOfRange
  -- A leap second is kept as nanoseconds beyond the second before it.
  let leap := f.second / 60
  let second := f.hour * 3600 + f.minute * 60 + (f.second - leap)
  let nanos := f.nanos + leap * 1000000000
  if f.offset.natAbs < 86400 then
    match shift? date second nanos f.offset with
    | some t => return t
    | none => throw .impossible
  else
    throw .outOfRange

def parse (raw : String) : Except InstantError Instant := do
  let (f, rest) ← fields.run raw.toList
  if Text.trimLeft rest ≠ [] then
    throw .trailingInput
  ofFields f

end Instant

end Statewright
