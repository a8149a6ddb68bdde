/-!
# Decimal digits

Digit characters, their values, and numbers written with a least number of digits.
-/

namespace OrgForest.Text

/-- The value of a digit character. -/
def digitValue? (c : Char) : Option Nat :=
  if '0' ≤ c && c ≤ '9' then some (c.toNat - '0'.toNat) else none

/-- The number that a run of digit values denotes, continued from `n`. -/
def natOfDigits (n : Nat) (ds : List Nat) : Nat := ds.foldl (fun n d => 10 * n + d) n

/-- The leading digits of a text, by value, and the rest. -/
def takeDigits : List Char → List Nat × List Char
  | [] => ([], [])
  | c :: cs =>
    match digitValue? c with
    | some d => let (ds, rest) := takeDigits cs; (d :: ds, rest)
    | none => ([], c :: cs)

/-- A natural number in decimal. -/
def decimal (n : Nat) : List Char := Nat.toDigits 10 n

/-- A natural number in decimal, filled with zeros in front up to `width` digits. -/
def padded (width n : Nat) : List Char :=
  let ds := decimal n
  List.replicate (width - ds.length) '0' ++ ds

/-- An integer in decimal, with a minus sign when it is negative. -/
def signed (i : Int) : List Char :=
  match i with
  | .ofNat n => decimal n
  | .negSucc n => '-' :: decimal (n + 1)

end OrgForest.Text
