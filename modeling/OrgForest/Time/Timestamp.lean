import OrgForest.Time.Calendar

/-!
# Timestamps

A timestamp is an instant in UTC with nanoseconds, in the years -262143 to 262142. A leap second
belongs to the second before it and has a billion nanoseconds more, so `23:59:60.5` lies between
`23:59:59.999999999` and the next `00:00:00`. Any second may be followed by a leap second in this
way, though in UTC only the last one of a minute ever is.
-/

namespace OrgForest

/-- A leap second starts at this count of nanoseconds. -/
def Time.billion : Nat := 1000000000

/-- The first second of the first year. -/
def Time.firstSecond : Int := -8334601228800

/-- The last second of the last year. -/
def Time.lastSecond : Int := 8210266876799

/-- An instant: seconds from the epoch, and nanoseconds that may run into a leap second. -/
structure Timestamp where
  seconds : Int
  nanos : Nat
  inRange : Time.firstSecond ≤ seconds ∧ seconds ≤ Time.lastSecond
  nanos_lt : nanos < 2 * Time.billion
deriving DecidableEq

namespace Timestamp

/-- The timestamp of these seconds and nanoseconds, if there is one. -/
def make? (seconds : Int) (nanos : Nat) : Option Timestamp :=
  if inRange : Time.firstSecond ≤ seconds ∧ seconds ≤ Time.lastSecond then
    if nanos_lt : nanos < 2 * Time.billion then some ⟨seconds, nanos, inRange, nanos_lt⟩
    else none
  else none

/-- 1 January 1970, midnight. -/
def epoch : Timestamp := ⟨0, 0, by decide, by decide⟩

instance : Inhabited Timestamp := ⟨epoch⟩

/-- Order in time. -/
instance : Ord Timestamp where
  compare := compareLex (compareOn Timestamp.seconds) (compareOn Timestamp.nanos)

instance : Std.TransOrd Timestamp :=
  inferInstanceAs
    (Std.TransCmp (compareLex (compareOn Timestamp.seconds) (compareOn Timestamp.nanos)))

instance : Std.LawfulEqOrd Timestamp where
  eq_of_compare {a b} h := by
    obtain ⟨hs, hn⟩ := Ordering.then_eq_eq.1 h
    cases a; cases b
    simp only [compareOn, Std.compare_eq_iff_eq] at hs hn
    subst hs hn
    rfl

end Timestamp

end OrgForest
