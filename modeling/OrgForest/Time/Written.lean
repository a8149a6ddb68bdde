import OrgForest.Text.Digits
import OrgForest.Time.Timestamp

/-!
# Timestamps in writing

A timestamp is written in UTC as `YYYY-MM-DDTHH:MM:SSZ`. The fraction of a second has three, six
or nine digits, the fewest that are exact, and none when it is zero. A year outside 0 to 9999 has
a sign and at least four digits, and a leap second is written as second 60.
-/

namespace OrgForest

open Text (padded)

namespace Time

/-- A year in writing. -/
def writeYear (y : Int) : List Char :=
  if 0 ≤ y && y ≤ 9999 then padded 4 y.toNat
  else if y < 0 then '-' :: padded 4 (-y).toNat
  else '+' :: padded 4 y.toNat

/-- The fraction of a second in writing, of a count of nanoseconds below a billion. -/
def writeFraction (n : Nat) : List Char :=
  if n = 0 then []
  else if n % 1000000 = 0 then '.' :: padded 3 (n / 1000000)
  else if n % 1000 = 0 then '.' :: padded 6 (n / 1000)
  else '.' :: padded 9 n

/-- A date in writing. -/
def Date.write (d : Date) : List Char :=
  writeYear d.year ++ '-' :: (padded 2 d.month ++ '-' :: padded 2 d.day)

end Time

namespace Timestamp

/-- The date on which a timestamp falls. -/
def date (t : Timestamp) : Time.Date := .ofDays (t.seconds / 86400)

/-- The seconds since midnight. -/
def secondOfDay (t : Timestamp) : Nat := (t.seconds % 86400).toNat

/-- A timestamp in writing. -/
def write (t : Timestamp) : List Char :=
  let s := t.secondOfDay
  let second := if t.nanos < Time.billion then s % 60 else s % 60 + 1
  t.date.write ++ 'T' :: (padded 2 (s / 3600) ++ ':' :: (padded 2 (s / 60 % 60) ++ ':' ::
    (padded 2 second ++ Time.writeFraction (t.nanos % Time.billion) ++ ['Z'])))

/-- A timestamp in writing, as a string. -/
def text (t : Timestamp) : String := String.ofList t.write

end Timestamp

end OrgForest
