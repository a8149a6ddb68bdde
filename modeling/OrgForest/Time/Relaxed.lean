import OrgForest.Text.Blank
import OrgForest.Time.Reading

/-!
# The relaxed form of a timestamp

Decoded records take timestamps in this form. Blanks may stand before every number, before `-` and
`:` and around the offset, numbers may leave out leading zeros, a year with a sign has any number
of digits, the offset may be the word `UTC`, and any run of colons and blanks may divide its hours
from its minutes. Every number is checked when it is read; the date as a whole and the offset at
the end.
-/

namespace OrgForest.Time

open Text (trimLeft)

/-- The largest number that is read at all. -/
def numberMax : Nat := 9223372036854775807

/-- The largest year that is read, if only to be refused later. -/
def yearMax : Nat := 2147483647

/-- Takes a number of one to `most` digits. -/
def takeNumber (most : Nat) (cs : List Char) : Except TimeError (Nat × List Char) :=
  match Text.takeDigits (cs.take most) with
  | ([], _) => .error (if cs.isEmpty then .tooShort else .invalid)
  | (ds, rest) => .ok (Text.natOfDigits 0 ds, rest ++ cs.drop most)

/-- Takes a year with its sign, or one of at most four digits without. -/
def takeYear (cs : List Char) : Except TimeError (Int × List Char) :=
  match trimLeft cs with
  | '-' :: cs => do
    let (y, rest) ← takeNumber cs.length cs
    if numberMax < y || yearMax + 1 < y then throw .outOfRange else return (-y, rest)
  | '+' :: cs => do
    let (y, rest) ← takeNumber cs.length cs
    if numberMax < y || yearMax < y then throw .outOfRange else return (y, rest)
  | cs => do
    let (y, rest) ← takeNumber 4 cs
    return (y, rest)

/-- Takes a number of one or two digits between two bounds. -/
def takeBounded (low high : Nat) (cs : List Char) : Except TimeError (Nat × List Char) := do
  let (n, rest) ← takeNumber 2 (trimLeft cs)
  if low ≤ n && n ≤ high then return (n, rest) else throw .outOfRange

/-- Takes a mark with blanks before it. -/
def takeMark (c : Char) (cs : List Char) : Except TimeError (List Char) := takeChar c (trimLeft cs)

/-- Takes the word `UTC` in any case. -/
def takeUtc? : List Char → Option (List Char)
  | u :: t :: c :: rest =>
    if u.toUpper = 'U' && t.toUpper = 'T' && c.toUpper = 'C' then some rest else none
  | _ => none

/-- Drops colons and blanks. -/
def skipColons (cs : List Char) : List Char := cs.dropWhile fun c => c == ':' || Text.isBlank c

/-- Takes an offset in its relaxed form. -/
def takeZone (cs : List Char) : Except TimeError (Int × List Char) :=
  match takeUtc? cs with
  | some rest => .ok (0, rest)
  | none => takeOffset (fun cs => .ok (skipColons cs)) cs

/-- Reads a timestamp in the relaxed form. -/
def readRelaxed (cs : List Char) : Except TimeError Timestamp := do
  let (year, cs) ← takeYear cs
  let cs ← takeMark '-' cs
  let (month, cs) ← takeBounded 1 12 cs
  let cs ← takeMark '-' cs
  let (day, cs) ← takeBounded 1 31 cs
  let cs ← takeSeparator cs
  let (hour, cs) ← takeBounded 0 23 cs
  let cs ← takeMark ':' cs
  let (minute, cs) ← takeBounded 0 59 cs
  let cs ← takeMark ':' cs
  let (second, cs) ← takeBounded 0 60 cs
  let (nanos, cs) ← takeFraction cs
  let (offset, cs) ← takeZone (trimLeft cs)
  if (trimLeft cs).isEmpty then instant ⟨year, month, day⟩ ⟨hour, minute, second, nanos⟩ offset
  else throw .tooLong

end OrgForest.Time
