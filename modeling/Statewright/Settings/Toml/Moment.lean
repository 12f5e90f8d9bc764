import Statewright.Instant.Basic
import Statewright.Settings.Toml.Basic
import Statewright.Settings.Value

/-!
# Dates and times in TOML

A date, a time of day, or both with or without an offset from universal time. A setting sees them as
the text in which they are written here: a `T` between date and time, a capital `Z`, and no zeros at
the end of a fraction.
-/

namespace Statewright.Toml

open Text (Read)
open Text.Read

/-- A number of so many digits between two bounds, as it is written. -/
def bounded (digits least most : Nat) : Read Nat := do
  let cs ← get
  let spelled := cs.take digits
  let n := SettingValue.natural spelled
  if spelled.length = digits ∧ spelled.all Char.isDigit ∧ least ≤ n ∧ n ≤ most then
    set (cs.drop digits)
    return n
  else
    refuse

def date : Read String := do
  let year ← bounded 4 0 9999
  take "-"
  let month ← bounded 2 1 12
  take "-"
  let day ← bounded 2 1 (daysInMonth year month)
  return "-".intercalate [Instant.padded 4 year, Instant.padded 2 month, Instant.padded 2 day]

/-- The fraction of a second, if there is one, to the nanosecond. -/
def secondFraction : Read String := do
  if !(← take? ".") then return ""
  let digits ← takeRun Char.isDigit
  if digits = [] then refuse
  let kept := ((digits.take 9).reverse.dropWhile (· = '0')).reverse
  return if kept = [] then "" else "." ++ String.ofList kept

def timeOfDay : Read String := do
  let hour ← bounded 2 0 23
  take ":"
  let minute ← bounded 2 0 59
  take ":"
  let second ← bounded 2 0 60
  let fraction ← secondFraction
  let clock := ":".intercalate ([hour, minute, second].map (Instant.padded 2))
  return clock ++ fraction

/-- An offset in hours and minutes after its sign. -/
def offset (negative : Bool) : Read String := do
  let hours ← bounded 2 0 23
  take ":"
  let minutes ← bounded 2 0 59
  let sign := if negative && hours + minutes != 0 then "-" else "+"
  return sign ++ Instant.padded 2 hours ++ ":" ++ Instant.padded 2 minutes

/-- An offset from universal time, if there is one. -/
def offset? : Read String := do
  if ← take? "Z" then return "Z"
  if ← take? "z" then return "Z"
  if ← take? "+" then return ← offset false
  if ← take? "-" then return ← offset true
  return ""

/-- A time of day after the letter or the space that divides it from a date. -/
def timeAfterDate : Read String := do
  match ← get with
  | [] => refuse
  | c :: cs =>
    if c ≠ 'T' ∧ c ≠ 't' ∧ c ≠ ' ' then refuse
    set cs
    let clock ← timeOfDay
    let zone ← offset?
    return "T" ++ clock ++ zone

/-- A date, a time of day, or both. -/
def moment : Read String := do
  match ← attempt date with
  | none => timeOfDay
  | some day =>
    let clock ← attempt timeAfterDate
    return day ++ clock.getD ""

end Statewright.Toml
