/-! # Dates and times

Days are counted in the Gregorian calendar, which is taken to reach back to the year 1. -/

namespace PluginManifest

/-- A point on the calendar. -/
inductive Timestamp
  /-- A day, by its number. -/
  | day (number : Nat)
  /-- A time on the clock without a time zone, in microseconds. -/
  | clock (microseconds : Nat)
  /-- A time in the universal time zone, in microseconds. -/
  | instant (microseconds : Int)
deriving DecidableEq, Repr

namespace Timestamp

/-- The year has a 29th of February. -/
def isLeap (year : Nat) : Bool := year % 4 = 0 && (year % 100 ≠ 0 || year % 400 = 0)

/-- The lengths of the months of a year. -/
def monthLengths (year : Nat) : List Nat :=
  [31, if isLeap year then 29 else 28, 31, 30, 31, 30, 31, 31, 30, 31, 30, 31]

/-- The number of a day; the first day of the year 1 has the number 1. -/
def dayNumber? (year month day : Nat) : Option Nat :=
  let before := year - 1
  let lengths := monthLengths year
  if 1 ≤ year && year ≤ 9999 && 1 ≤ month && 1 ≤ day && day ≤ (lengths[month - 1]?).getD 0 then
    some (before * 365 + before / 4 - before / 100 + before / 400 +
      (lengths.take (month - 1)).foldl (· + ·) 0 + day)
  else none

/-- The microseconds of a day up to a time. -/
def ofClock? (hour minute second microsecond : Nat) : Option Nat :=
  if hour < 24 && minute < 60 && second < 60 then
    some (((hour * 60 + minute) * 60 + second) * 1000000 + microsecond)
  else none

/-- The microseconds of some minutes. -/
def ofMinutes (minutes : Nat) : Nat := minutes * 60000000

end Timestamp

end PluginManifest
