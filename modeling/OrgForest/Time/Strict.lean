import OrgForest.Time.Reading

/-!
# The strict form of a timestamp

Date and time stand at fixed places, `YYYY-MM-DDTHH:MM:SS`, with nothing left out; a fraction and
an offset follow. Filters take timestamps in this form. The date is checked as soon as it is read,
the time of day behind its fraction, the offset at the very end.
-/

namespace OrgForest.Time

/-- Takes `n` digits as a number. -/
def takeFixed : Nat → Nat → List Char → Except TimeError (Nat × List Char)
  | 0, value, cs => .ok (value, cs)
  | n + 1, value, cs => do
    let (d, cs) ← takeDigit cs
    takeFixed n (10 * value + d) cs

/-- The shortest date and time in bytes. -/
def strictLength : Nat := 19

/-- Takes a date at fixed places. -/
def takeDate (cs : List Char) : Except TimeError (Date × List Char) := do
  let (year, cs) ← takeFixed 4 0 cs
  let cs ← takeChar '-' cs
  let (month, cs) ← takeFixed 2 0 cs
  let cs ← takeChar '-' cs
  let (day, cs) ← takeFixed 2 0 cs
  let date : Date := ⟨year, month, day⟩
  if date.isValid then return (date, cs) else throw .outOfRange

/-- Takes a time of day at fixed places, with its fraction. -/
def takeClock (cs : List Char) : Except TimeError (Clock × List Char) := do
  let (hour, cs) ← takeFixed 2 0 cs
  let cs ← takeChar ':' cs
  let (minute, cs) ← takeFixed 2 0 cs
  let cs ← takeChar ':' cs
  let (second, cs) ← takeFixed 2 0 cs
  let (nanos, cs) ← takeFraction cs
  let clock : Clock := ⟨hour, minute, second, nanos⟩
  if clock.isValid then return (clock, cs) else throw .outOfRange

/-- Reads a timestamp in the strict form. -/
def readStrict (cs : List Char) : Except TimeError Timestamp := do
  if (String.ofList cs).utf8ByteSize < strictLength then throw .tooShort
  let (date, cs) ← takeDate cs
  let cs ← takeSeparator cs
  let (clock, cs) ← takeClock cs
  let (offset, cs) ← takeOffset (takeChar ':') cs
  if cs.isEmpty then instant date clock offset else throw .tooLong

end OrgForest.Time
