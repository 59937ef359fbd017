/-!
# The civil calendar

Days are counted from the first of January of the year 0 of the proleptic Gregorian calendar.
A date is found by the count of days before its year and before its month.
-/

namespace PooledSql

/-- A day of the calendar. -/
structure Date where
  year : Int
  month : Nat
  day : Nat
  deriving DecidableEq, Repr

namespace Date

def isLeap (year : Int) : Bool := year % 4 = 0 && (year % 100 != 0 || year % 400 = 0)

/-- The days before the first of January of a year. -/
def daysBeforeYear (year : Int) : Int :=
  365 * year + (year + 3) / 4 - (year + 99) / 100 + (year + 399) / 400

/-- The lengths of the months of a year. -/
def monthLengths (leap : Bool) : List Nat :=
  [31, if leap then 29 else 28, 31, 30, 31, 30, 31, 31, 30, 31, 30, 31]

/-- The date exists. -/
def exists? (date : Date) : Bool :=
  match date.month with
  | 0 => false
  | m + 1 =>
    match (monthLengths (isLeap date.year))[m]? with
    | some length => 1 ≤ date.day && date.day ≤ length
    | none => false

/-- The count of a date. -/
def toDays (date : Date) : Int :=
  let months := (monthLengths (isLeap date.year)).take (date.month - 1)
  let before : Nat := months.foldl (· + ·) 0
  daysBeforeYear date.year + before + date.day - 1

/-- The year that a day falls in: an estimate from the mean length of a year, put right by at
most one. -/
def yearOf (days : Int) : Int :=
  let estimate := days * 400 / 146097
  if days < daysBeforeYear estimate then estimate - 1
  else if daysBeforeYear (estimate + 1) ≤ days then estimate + 1
  else estimate

/-- The month, counted from the one given, and the day of the month, for a number of days after
that month's first. -/
def monthAndDay (month : Nat) : List Nat → Nat → Nat × Nat
  | [], days => (month, days + 1)
  | length :: rest, days =>
    if days < length then (month, days + 1) else monthAndDay (month + 1) rest (days - length)

/-- The date with a given count. -/
def ofDays (days : Int) : Date :=
  let year := yearOf days
  let (month, day) := monthAndDay 1 (monthLengths (isLeap year)) (days - daysBeforeYear year).toNat
  ⟨year, month, day⟩

end Date

end PooledSql
