/-
Days and dates of the Gregorian calendar, extended to all years. Days count from 1970-01-01. A year is
taken to begin in March, so that the leap day is its last, and 400 years are always 146097 days.
-/

namespace PacketForwarder

/-- a day by its year, month and day of the month -/
@[ext]
structure Date where
  year : Int
  month : Nat
  day : Nat
  deriving DecidableEq

namespace Date

def isLeapYear (year : Int) : Bool := year % 4 = 0 && (year % 100 ≠ 0 || year % 400 = 0)

def daysInMonth (year : Int) (month : Nat) : Nat :=
  if month = 2 then if isLeapYear year then 29 else 28
  else if month = 4 ∨ month = 6 ∨ month = 9 ∨ month = 11 then 30
  else 31

/-- does the calendar have this day? -/
def isValid (d : Date) : Bool :=
  1 ≤ d.month && d.month ≤ 12 && 1 ≤ d.day && d.day ≤ daysInMonth d.year d.month

/-- days from 0000-03-01 to 1970-01-01 -/
def epochDay : Int := 719468

/-- the days of 400 years -/
def daysPerCycle : Int := 146097

/-- the number of a day -/
def toDays (d : Date) : Int :=
  let year := if d.month ≤ 2 then d.year - 1 else d.year
  let month := if d.month ≤ 2 then d.month + 9 else d.month - 3
  let dayOfYear := (153 * month + 2) / 5 + (d.day - 1)
  year * 365 + year / 4 - year / 100 + year / 400 + dayOfYear - epochDay

/-- the day with a number -/
def ofDays (days : Int) : Date :=
  let shifted := days + epochDay
  let cycle := shifted / daysPerCycle
  let day := (shifted % daysPerCycle).toNat
  let yearOfCycle := (day - day / 1460 + day / 36524 - day / 146096) / 365
  let dayOfYear := day - (365 * yearOfCycle + yearOfCycle / 4 - yearOfCycle / 100)
  let month := (5 * dayOfYear + 2) / 153
  let year := cycle * 400 + yearOfCycle
  { year := if month < 10 then year else year + 1
    month := if month < 10 then month + 3 else month - 9
    day := dayOfYear - (153 * month + 2) / 5 + 1 }

end Date

end PacketForwarder
