import Mathlib.Data.Int.Basic

/-!
# UTC calendar of a JavaScript `Date`

A `Date` is its time value, the number of milliseconds since 1970-01-01T00:00Z.
The server only reads and builds the UTC fields, so the model is the proleptic
Gregorian calendar on day numbers, with the two behaviours of the runtime that
show: `Date.UTC` reads the years 0 to 99 as 1900 to 1999, and `setUTCDate`
accepts days outside the month.
-/

namespace WorkflowBoard

/-- A JavaScript time value in milliseconds. -/
abbrev Date := Int

def padStart (s : String) (n : Nat) : String :=
  String.ofList (List.replicate (n - s.length) '0') ++ s

namespace Date

def msPerDay : Int := 86400000

/-- The time values end a hundred million days from the epoch. -/
def maxTime : Int := 8640000000000000

/-- Is it the time value of a valid `Date`? The fields of another are `NaN`. -/
def isValid (t : Date) : Bool := -maxTime ≤ t && t ≤ maxTime

/-- The UTC day number of a time value. -/
def day (t : Date) : Int := t / msPerDay

/-- The day number of the civil date `(y, m, d)` with `1 ≤ m ≤ 12`. -/
def daysFromCivil (y m d : Int) : Int :=
  -- The year starts in March, so that the leap day is its last day.
  let y := if m ≤ 2 then y - 1 else y
  let era := y / 400
  let yoe := y - era * 400
  let mp := if m > 2 then m - 3 else m + 9
  let doy := (153 * mp + 2) / 5 + d - 1
  era * 146097 + (yoe * 365 + yoe / 4 - yoe / 100 + doy) - 719468

/-- Year, month (1 to 12) and day of the month of a day number. -/
def civilFromDays (z : Int) : Int × Int × Int :=
  let z := z + 719468
  let era := z / 146097
  let doe := z - era * 146097
  let yoe := (doe - doe / 1460 + doe / 36524 - doe / 146096) / 365
  let doy := doe - (365 * yoe + yoe / 4 - yoe / 100)
  let mp := (5 * doy + 2) / 153
  let d := doy - (153 * mp + 2) / 5 + 1
  let m := if mp < 10 then mp + 3 else mp - 9
  (yoe + era * 400 + (if m ≤ 2 then 1 else 0), m, d)

def getUTCFullYear (t : Date) : Int := (civilFromDays (day t)).1

/-- The month, counted from 0. -/
def getUTCMonth (t : Date) : Int := (civilFromDays (day t)).2.1 - 1

def getUTCDate (t : Date) : Int := (civilFromDays (day t)).2.2

/-- The day of the week, Sunday is 0. -/
def getUTCDay (t : Date) : Int := (day t + 4) % 7

/-- `MakeDay`: months outside 0 to 11 and days outside the month carry over. -/
def makeDay (year month date : Int) : Int :=
  daysFromCivil (year + month / 12) (month % 12 + 1) 1 + date - 1

/-- `Date.UTC(year, month, date)`. -/
def utc (year month date : Int) : Date :=
  let y := if 0 ≤ year ∧ year ≤ 99 then 1900 + year else year
  makeDay y month date * msPerDay

/-- `d.setUTCDate(date)`. -/
def setUTCDate (t : Date) (date : Int) : Date :=
  makeDay (getUTCFullYear t) (getUTCMonth t) date * msPerDay + t % msPerDay

/-- `d.toISOString()`, for the years 0 to 9999. -/
def toISOString (t : Date) : String :=
  let ms := t % msPerDay
  let two := fun n : Int => padStart (toString n) 2
  padStart (toString (getUTCFullYear t)) 4 ++ "-" ++ two (getUTCMonth t + 1) ++ "-" ++
    two (getUTCDate t) ++ "T" ++ two (ms / 3600000) ++ ":" ++ two (ms / 60000 % 60) ++ ":" ++
    two (ms / 1000 % 60) ++ "." ++ padStart (toString (ms % 1000)) 3 ++ "Z"

example : (getUTCFullYear 1792368000000, getUTCMonth 1792368000000, getUTCDate 1792368000000)
    = (2026, 9, 19) := by decide

end Date

end WorkflowBoard
