/-!
# Moments in time

A moment is counted in seconds from the start of 1970 in universal time.  It is
written with its date in the Gregorian calendar, extended to all years in range.
-/

namespace SchemaMigration

structure Date where
  year : Int
  month : Int
  day : Int
deriving DecidableEq

structure TimeOfDay where
  hour : Int
  minute : Int
  second : Int
deriving DecidableEq

structure Moment where
  date : Date
  time : TimeOfDay
deriving DecidableEq

namespace Date

/-- The date a number of days after the start of 1970.  The days are counted
from the first of March of the year zero, so that a leap day ends its year, and
in cycles of 400 years, which have 146097 days each. -/
def ofDays (days : Int) : Date :=
  let fromMarch := days + 719468
  let cycle := fromMarch / 146097
  let day := fromMarch % 146097
  let yearOfCycle := (day - day / 1460 + day / 36524 - day / 146096) / 365
  let dayOfYear := day - (365 * yearOfCycle + yearOfCycle / 4 - yearOfCycle / 100)
  let monthFromMarch := (5 * dayOfYear + 2) / 153
  let month := if monthFromMarch < 10 then monthFromMarch + 3 else monthFromMarch - 9
  { year := cycle * 400 + yearOfCycle + if month ≤ 2 then 1 else 0
    month := month
    day := dayOfYear - (153 * monthFromMarch + 2) / 5 + 1 }

end Date

namespace Moment

def firstYear : Int := -262143

def lastYear : Int := 262142

/-- The moment a number of seconds after the start of 1970, within the years
that can be written. -/
def ofSeconds? (seconds : Int) : Option Moment :=
  let date := Date.ofDays (seconds / 86400)
  let second := seconds % 86400
  if firstYear ≤ date.year ∧ date.year ≤ lastYear then
    some ⟨date, ⟨second / 3600, second / 60 % 60, second % 60⟩⟩
  else none

/-- A number with zeros in front up to a number of digits. -/
def padded (width : Nat) (n : Int) : String :=
  String.ofList ((Nat.toDigits 10 n.natAbs).leftpad width '0')

/-- A year of at least four digits, with a sign when it is negative or has
more. -/
def yearText (year : Int) : String :=
  if year < 0 then "-" ++ padded 4 year
  else if 9999 < year then "+" ++ padded 4 year
  else padded 4 year

/-- The date and the time with a separator between them. -/
def display (separator : String) (moment : Moment) : String :=
  yearText moment.date.year ++ "-" ++ padded 2 moment.date.month ++ "-" ++
    padded 2 moment.date.day ++ separator ++ padded 2 moment.time.hour ++ ":" ++
    padded 2 moment.time.minute ++ ":" ++ padded 2 moment.time.second

end Moment

end SchemaMigration
