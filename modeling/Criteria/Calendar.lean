import Criteria.Text.Basic

/-!
# Dates and times of day

Dates of the proleptic Gregorian calendar, in which there is a year 0, and times of day to the
nanosecond without a zone. A leap second is kept as second 59 with 10^9 nanoseconds added, and
written as second 60.
-/

namespace Criteria

/-- A date: year, month and day of the month. -/
structure Date where
  year : Int
  month : Nat
  day : Nat
  deriving DecidableEq, Repr, Inhabited

/-- A date and a time of day. -/
structure DateTime where
  date : Date
  hour : Nat
  minute : Nat
  second : Nat
  /-- From 10^9 on, the time lies in a leap second. -/
  nanos : Nat
  deriving DecidableEq, Repr, Inhabited

/-- The number of nanoseconds in a second. -/
def nanosPerSecond : Nat := 1000000000

/-- A number with zeros in front up to `width` digits. -/
def zeroPadded (width n : Nat) : String :=
  let digits := toString n
  String.ofList (List.replicate (width - digits.length) '0') ++ digits

namespace Date

/-- Whether a year has a 29 February. -/
def isLeapYear (year : Int) : Bool := year % 4 == 0 && (year % 100 != 0 || year % 400 == 0)

/-- The number of days of a month, 0 for a month that there is none of. -/
def daysInMonth (year : Int) : Nat → Nat
  | 2 => if isLeapYear year then 29 else 28
  | 4 | 6 | 9 | 11 => 30
  | 1 | 3 | 5 | 7 | 8 | 10 | 12 => 31
  | _ => 0

/-- The date with the given parts, if there is one. -/
def ofParts? (year : Int) (month day : Nat) : Option Date :=
  if 1 ≤ day ∧ day ≤ daysInMonth year month then some ⟨year, month, day⟩ else none

/-- Writes a date as `year-month-day`. A year outside 0 to 9999 has a sign. -/
def render (d : Date) : String :=
  let sign := if d.year < 0 then "-" else if 9999 < d.year then "+" else ""
  sign ++ zeroPadded 4 d.year.natAbs ++ "-" ++ zeroPadded 2 d.month ++ "-" ++ zeroPadded 2 d.day

/-- The order of dates in time. -/
def order (a b : Date) : Ordering :=
  (compare a.year b.year).then ((compare a.month b.month).then (compare a.day b.day))

end Date

namespace DateTime

/-- The date and time with the given parts, if there is one. Second 60 is a leap second. -/
def ofParts? (date : Date) (hour minute second nanos : Nat) : Option DateTime :=
  if hour < 24 ∧ minute < 60 ∧ nanos < nanosPerSecond then
    if second < 60 then some ⟨date, hour, minute, second, nanos⟩
    else if second = 60 then some ⟨date, hour, minute, 59, nanosPerSecond + nanos⟩
    else none
  else none

/-- Writes the fraction of a second with as many digits as it needs out of 3, 6 and 9. -/
def renderFraction (nanos : Nat) : String :=
  if nanos = 0 then ""
  else if nanos % 1000000 = 0 then "." ++ zeroPadded 3 (nanos / 1000000)
  else if nanos % 1000 = 0 then "." ++ zeroPadded 6 (nanos / 1000)
  else "." ++ zeroPadded 9 nanos

/-- Writes a date and time as `year-month-dayThour:minute:second` with a fraction if needed. -/
def render (d : DateTime) : String :=
  d.date.render ++ "T" ++ zeroPadded 2 d.hour ++ ":" ++ zeroPadded 2 d.minute ++ ":" ++
    zeroPadded 2 (d.second + d.nanos / nanosPerSecond) ++ renderFraction (d.nanos % nanosPerSecond)

/-- The order of dates and times. -/
def order (a b : DateTime) : Ordering :=
  (a.date.order b.date).then <| (compare a.hour b.hour).then <|
    (compare a.minute b.minute).then <| (compare a.second b.second).then
      (compare a.nanos b.nanos)

end DateTime

end Criteria
