import OrgForest.Text.Digits
import OrgForest.Time.Timestamp

/-!
# Reading timestamps: common parts

A reader of timestamps takes the parts of a text one by one and gives up at the first fault. The
strict and the relaxed form share the offset and the last step: a local date and time is checked
against the calendar and carried over to UTC by its offset.

Lengths are lengths in bytes, so a character outside ASCII counts for more than one.
-/

namespace OrgForest.Time

/-- Why a text is no timestamp. -/
inductive TimeError where
  | tooShort
  | invalid
  | outOfRange
  | tooLong
  /-- The local time exists, the instant in UTC lies outside the range of timestamps. -/
  | impossible
deriving DecidableEq, Repr

/-- The fault in words. -/
def TimeError.message : TimeError → String
  | .tooShort => "premature end of input"
  | .invalid => "input contains invalid characters"
  | .outOfRange => "input is out of range"
  | .tooLong => "trailing input"
  | .impossible => "no possible date and time matching input"

/-- Takes one fixed character. -/
def takeChar (c : Char) : List Char → Except TimeError (List Char)
  | [] => .error .tooShort
  | d :: cs => if d = c then .ok cs else .error .invalid

/-- Takes one digit. -/
def takeDigit : List Char → Except TimeError (Nat × List Char)
  | [] => .error .tooShort
  | c :: cs =>
    match Text.digitValue? c with
    | some d => .ok (d, cs)
    | none => .error .invalid

/-- Takes the `T`, `t` or space between date and time. -/
def takeSeparator : List Char → Except TimeError (List Char)
  | [] => .error .tooShort
  | c :: cs => if c = 'T' || c = 't' || c = ' ' then .ok cs else .error .invalid

/-- The digits of a fraction as nanoseconds: nine places count. -/
def nanosOfDigits (ds : List Nat) : Nat :=
  let taken := ds.take 9
  Text.natOfDigits 0 taken * Nat.pow 10 (9 - taken.length)

/-- Takes a fraction of a second, if a point comes next. -/
def takeFraction : List Char → Except TimeError (Nat × List Char)
  | '.' :: cs =>
    match Text.takeDigits cs with
    | ([], []) => .error .tooShort
    | ([], _) => .error .invalid
    | (ds, rest) => .ok (nanosOfDigits ds, rest)
  | cs => .ok (0, cs)

/-- Takes two digits at once: fewer than two bytes are too short whatever they are. -/
def takePair : List Char → Except TimeError ((Nat × Nat) × List Char)
  | [] => .error .tooShort
  | [c] => .error (if c.utf8Size < 2 then .tooShort else .invalid)
  | c :: d :: cs =>
    match Text.digitValue? c, Text.digitValue? d with
    | some a, some b => .ok ((a, b), cs)
    | _, _ => .error .invalid

/-- Takes a sign. The minus sign U+2212 is one too. -/
def takeSign : List Char → Except TimeError (Bool × List Char)
  | [] => .error .tooShort
  | c :: cs =>
    if c = '+' then .ok (false, cs)
    else if c = '-' || c = '\u2212' then .ok (true, cs)
    else .error .invalid

/-- Takes an offset in seconds: `Z`, or a sign, hours and minutes with `between` taking what stands
between these two. -/
def takeOffset (between : List Char → Except TimeError (List Char)) (cs : List Char) :
    Except TimeError (Int × List Char) :=
  match cs with
  | 'Z' :: rest => .ok (0, rest)
  | 'z' :: rest => .ok (0, rest)
  | _ => do
    let (negative, rest) ← takeSign cs
    let ((h, h'), rest) ← takePair rest
    let rest ← between rest
    let ((m, m'), rest) ← takePair rest
    if 6 ≤ m then throw .outOfRange
    let seconds : Int := (10 * h + h') * 3600 + (10 * m + m') * 60
    return (if negative then -seconds else seconds, rest)

/-- A time of day. Second 60 is a leap second. -/
structure Clock where
  hour : Nat
  minute : Nat
  second : Nat
  nanos : Nat
deriving DecidableEq, Repr

/-- Whether a time of day exists. -/
def Clock.isValid (c : Clock) : Bool := c.hour < 24 && c.minute < 60 && c.second ≤ 60

/-- The instant of a date and time with an offset from UTC in seconds. -/
def instant (date : Date) (clock : Clock) (offset : Int) : Except TimeError Timestamp :=
  if !date.isValid || date.year < -262143 || 262142 < date.year then throw .outOfRange
  else if !clock.isValid then throw .outOfRange
  else if offset ≤ -86400 || 86400 ≤ offset then throw .outOfRange
  else
    let second := if clock.second = 60 then 59 else clock.second
    let nanos := if clock.second = 60 then clock.nanos + billion else clock.nanos
    let seconds := date.toDays * 86400 + (clock.hour * 3600 + clock.minute * 60 + second : Nat)
    match Timestamp.make? (seconds - offset) nanos with
    | some t => return t
    | none => throw .impossible

end OrgForest.Time
