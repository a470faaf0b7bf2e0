import PracticeShell.Text.Lines

/-!
# Dates

A time is a number of seconds since the first moment of 1970, and is shown as a date and a time of
day in universal time by the Gregorian calendar.
-/

namespace PracticeShell.Calendar

/-- A day of the Gregorian calendar. -/
structure Date where
  year : Int
  month : Nat
  day : Nat
deriving DecidableEq, Repr

/-- The date of a day counted from the first of January 1970. Years are counted from the first of
March here, so that a leap day is the last day of its year, and the calendar repeats every 146097
days. -/
def dateOfDay (days : Int) : Date :=
  let shifted := days + 719468
  let era := Int.fdiv shifted 146097
  let dayOfEra := (shifted - era * 146097).toNat
  let yearOfEra := (dayOfEra - dayOfEra / 1460 + dayOfEra / 36524 - dayOfEra / 146096) / 365
  let dayOfYear := dayOfEra - (365 * yearOfEra + yearOfEra / 4 - yearOfEra / 100)
  let monthFromMarch := (5 * dayOfYear + 2) / 153
  let month := if monthFromMarch < 10 then monthFromMarch + 3 else monthFromMarch - 9
  let year := era * 400 + yearOfEra
  ⟨if month ≤ 2 then year + 1 else year, month,
    dayOfYear - (153 * monthFromMarch + 2) / 5 + 1⟩

/-- The date, the hour, the minute and the second of a time. -/
def split (time : Int) : Date × Nat × Nat × Nat :=
  let days := Int.fdiv time 86400
  let second := (time - days * 86400).toNat
  (dateOfDay days, second / 3600, second / 60 % 60, second % 60)

/-- The short name of a month. -/
def monthName (month : Nat) : String :=
  ["Jan", "Feb", "Mar", "Apr", "May", "Jun", "Jul", "Aug", "Sep", "Oct", "Nov", "Dec"].getD
    (month - 1) ""

/-- A time as listings show it: month, day, hour and minute. -/
def short (time : Int) : String :=
  let (date, hour, minute, _) := split time
  monthName date.month ++ " " ++ Text.Pad.zeros 2 date.day ++ " " ++ Text.Pad.zeros 2 hour ++ ":" ++
    Text.Pad.zeros 2 minute

/-- A time in full: year, month, day, hour, minute and second. -/
def long (time : Int) : String :=
  let (date, hour, minute, second) := split time
  Text.Pad.zeros 4 date.year.toNat ++ "-" ++ Text.Pad.zeros 2 date.month ++ "-" ++
    Text.Pad.zeros 2 date.day ++ " " ++ Text.Pad.zeros 2 hour ++ ":" ++ Text.Pad.zeros 2 minute ++
    ":" ++ Text.Pad.zeros 2 second

/-- A time as documents keep it: a date, a time of day, and the distance from universal time. -/
def stamp (time : Int) : String :=
  let (date, hour, minute, second) := split time
  Text.Pad.zeros 4 date.year.toNat ++ "-" ++ Text.Pad.zeros 2 date.month ++ "-" ++
    Text.Pad.zeros 2 date.day ++ "T" ++ Text.Pad.zeros 2 hour ++ ":" ++ Text.Pad.zeros 2 minute ++
    ":" ++ Text.Pad.zeros 2 second ++ "+00:00"

end PracticeShell.Calendar
