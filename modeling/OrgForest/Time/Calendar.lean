/-!
# Calendar dates

Dates of the proleptic Gregorian calendar and the count of days from 1 January 1970. The count is
linear up to the leap years, so the year of a day is found by one division and at most one step.
-/

namespace OrgForest.Time

/-- A calendar date. -/
structure Date where
  year : Int
  month : Nat
  day : Nat
deriving DecidableEq, Repr

/-- Whether a year has a 29 February. -/
def isLeapYear (y : Int) : Bool := (y % 4 == 0 && y % 100 != 0) || y % 400 == 0

/-- The lengths of the months of a year. -/
def monthLengths (y : Int) : List Nat :=
  [31, if isLeapYear y then 29 else 28, 31, 30, 31, 30, 31, 31, 30, 31, 30, 31]

/-- The days from 1 January of year 1 to 1 January of a year. -/
def daysBeforeYear (y : Int) : Int :=
  365 * (y - 1) + (y - 1) / 4 - (y - 1) / 100 + (y - 1) / 400

/-- 1 January 1970 on the count from year 1. -/
def epochDay : Int := 719162

/-- Whether a date exists in the calendar. -/
def Date.isValid (d : Date) : Bool :=
  match (monthLengths d.year)[d.month - 1]? with
  | some n => 1 ≤ d.month && 1 ≤ d.day && d.day ≤ n
  | none => false

/-- The days from the epoch to a date. -/
def Date.toDays (d : Date) : Int :=
  let before : Nat := ((monthLengths d.year).take (d.month - 1)).foldl (fun n m => n + m) 0
  daysBeforeYear d.year + before + d.day - 1 - epochDay

/-- The year in which a day, counted from year 1, falls. -/
def yearOfDay (n : Int) : Int :=
  let y := n * 400 / 146097 + 1
  if daysBeforeYear (y + 1) ≤ n then y + 1 else y

/-- The month and the day of the month of the `n`-th day, for months of these lengths. -/
def splitDay : List Nat → Nat → Nat × Nat
  | [], n => (1, n + 1)
  | l :: ls, n =>
    if n < l then (1, n + 1)
    else let (m, d) := splitDay ls (n - l); (m + 1, d)

/-- The date that is `n` days from the epoch. -/
def Date.ofDays (n : Int) : Date :=
  let n := n + epochDay
  let y := yearOfDay n
  let (m, d) := splitDay (monthLengths y) (n - daysBeforeYear y).toNat
  ⟨y, m, d⟩

end OrgForest.Time
