/-!
# Instants

A moment of universal time, as a calendar date and a time of day to the nanosecond. A leap second is
counted as a fraction of more than a second past the fifty-ninth. Instants are written as RFC 3339
texts with a `Z` and as many groups of three fraction digits as needed.
-/

namespace Statewright

def isLeapYear (year : Int) : Bool :=
  year % 4 == 0 && (year % 100 != 0 || year % 400 == 0)

def daysInMonth (year : Int) : Nat → Nat
  | 2 => if isLeapYear year then 29 else 28
  | 4 | 6 | 9 | 11 => 30
  | _ => 31

def isYear (year : Int) : Bool :=
  -262143 ≤ year && year ≤ 262142

/-- Whether three numbers are a date of the calendar. -/
def isDate (year : Int) (month day : Nat) : Bool :=
  isYear year && 1 ≤ month && month ≤ 12 && 1 ≤ day && day ≤ daysInMonth year month

/-- A date of the proleptic Gregorian calendar. -/
structure Date where
  year : Int
  month : Nat
  day : Nat
  valid : isDate year month day = true
  deriving DecidableEq

namespace Date

def of? (year : Int) (month day : Nat) : Option Date :=
  if h : isDate year month day = true then some ⟨year, month, day, h⟩ else none

/-- The day after, if the calendar goes on. -/
def next? (d : Date) : Option Date :=
  if d.day < daysInMonth d.year d.month then of? d.year d.month (d.day + 1)
  else if d.month < 12 then of? d.year (d.month + 1) 1
  else of? (d.year + 1) 1 1

/-- The day before, if the calendar reaches back that far. -/
def previous? (d : Date) : Option Date :=
  if 1 < d.day then of? d.year d.month (d.day - 1)
  else if 1 < d.month then of? d.year (d.month - 1) (daysInMonth d.year (d.month - 1))
  else of? (d.year - 1) 12 31

end Date

/-- Whether a fraction in nanoseconds fits a second of the day: more than a second only as a leap
second, after the last second of a minute. -/
def isFraction (second nanos : Nat) : Bool :=
  nanos < 1000000000 || (nanos < 2000000000 && second % 60 == 59)

/-- A moment of universal time. -/
structure Instant where
  date : Date
  second : Nat
  nanos : Nat
  second_lt : second < 86400
  nanos_fit : isFraction second nanos = true
  deriving DecidableEq

namespace Instant

def of? (date : Date) (second nanos : Nat) : Option Instant :=
  if h : second < 86400 ∧ isFraction second nanos = true then some ⟨date, second, nanos, h.1, h.2⟩
  else none

def epoch : Instant :=
  ⟨⟨1970, 1, 1, by decide⟩, 0, 0, by decide, by decide⟩

/-- The instant so many seconds and nanoseconds after the start of 1970, if the calendar reaches
it. -/
def sinceEpoch? (seconds nanos : Nat) : Option Instant := do
  let date ← (List.range (seconds / 86400)).foldlM (fun d _ => Date.next? d) epoch.date
  of? date (seconds % 86400) nanos

def padded (width n : Nat) : String :=
  let digits := Nat.toDigits 10 n
  String.ofList (List.replicate (width - digits.length) '0' ++ digits)

/-- A year in four digits, with a sign outside the years 0 to 9999. -/
def yearText (year : Int) : String :=
  if 0 ≤ year ∧ year ≤ 9999 then padded 4 year.toNat
  else (if year < 0 then "-" else "+") ++ padded 4 year.natAbs

/-- A fraction in the fewest groups of three digits that hold it. -/
def fractionText (nanos : Nat) : String :=
  if nanos = 0 then ""
  else if nanos % 1000000 = 0 then "." ++ padded 3 (nanos / 1000000)
  else if nanos % 1000 = 0 then "." ++ padded 6 (nanos / 1000)
  else "." ++ padded 9 nanos

/-- The written form. A leap second is second 60. -/
def text (t : Instant) : String :=
  let leap := t.nanos / 1000000000
  yearText t.date.year ++ "-" ++ padded 2 t.date.month ++ "-" ++ padded 2 t.date.day ++ "T" ++
  padded 2 (t.second / 3600) ++ ":" ++ padded 2 (t.second / 60 % 60) ++ ":" ++
  padded 2 (t.second % 60 + leap) ++ fractionText (t.nanos % 1000000000) ++ "Z"

instance : ToString Instant := ⟨text⟩

end Instant

end Statewright
