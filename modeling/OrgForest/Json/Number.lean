import OrgForest.Decimal.Shortest
import OrgForest.Text.Digits

/-!
# Numbers of a JSON value

A number is an integer that fits a 64-bit word, signed or unsigned, or else a finite double. The two
kinds stay apart: `1` and `1.0` are different values.

A numeral is read in double arithmetic when it has a fraction or an exponent, or is too large for a
word. Only the leading digits that fit an unsigned 64-bit word take part; they are then scaled by a
power of ten in one rounded step, or in two for the smallest numbers. A numeral beyond the range of
doubles denotes no number.
-/

namespace OrgForest.Json

/-- An integer in the range of the 64-bit words, or a finite double. -/
inductive Number where
  | integer (value : Int)
    (inRange : -9223372036854775808 ≤ value ∧ value < 18446744073709551616)
  | double (value : Float)

/-- The integer as a number, if it is in range. -/
def Number.ofInt? (i : Int) : Option Number :=
  if h : -9223372036854775808 ≤ i ∧ i < 18446744073709551616 then some (.integer i h) else none

/-- An unsigned word as a number. -/
def Number.ofUInt64 (n : UInt64) : Number :=
  .integer n.toNat ⟨by omega, by have := n.toNat_lt; omega⟩

/-- A signed word as a number. -/
def Number.ofInt64 (i : Int64) : Number :=
  .integer i.toInt ⟨by have := i.le_toInt; omega, by have := i.toInt_lt; omega⟩

/-! ## Reading numerals -/

/-- The parts of a numeral: sign, digits before and after the point, and the exponent with its sign.
A numeral without a point has no fraction, one without `e` no exponent. -/
structure Numeral where
  negative : Bool
  whole : List Nat
  fraction : Option (List Nat)
  exponent : Option (Bool × List Nat)
deriving DecidableEq, Repr

/-- The largest unsigned 64-bit word. -/
def wordMax : Nat := 18446744073709551615

/-- Appends digits to a significand as long as it fits a word; the first digit that does not and all
behind it are left over. -/
def takeSignificand (n : Nat) : List Nat → Nat × List Nat
  | [] => (n, [])
  | d :: ds => if 10 * n + d ≤ wordMax then takeSignificand (10 * n + d) ds else (n, d :: ds)

/-- A power of ten as a double. -/
def powerOfTen (e : Nat) : Float := Float.ofNat (Nat.pow 10 e)

/-- `significand * 10 ^ exponent` in double arithmetic, if it is finite. -/
def scale? (significand : Nat) (exponent : Int) : Option Float :=
  let f := Float.ofNat significand
  if exponent < -616 then some 0
  else if exponent < -308 then some (f / powerOfTen 308 / powerOfTen (-exponent - 308).toNat)
  else if exponent < 0 then some (f / powerOfTen (-exponent).toNat)
  else if exponent ≤ 308 then
    let g := f * powerOfTen exponent.toNat
    if g.isInf then none else some g
  else if significand = 0 then some 0 else none

/-- An exponent larger than any double could need. -/
def exponentMax : Nat := 2147483647

/-- The size of the number that a numeral denotes as a double, if it is finite. -/
def Numeral.magnitude? (n : Numeral) : Option Float :=
  let (whole, dropped) := takeSignificand 0 n.whole
  let (significand, left) := takeSignificand whole (n.fraction.getD [])
  -- Dropped digits of the whole part still count as places; those of the fraction do not.
  let places := (n.fraction.getD []).length - left.length
  let point : Int := (dropped.length : Int) - (places : Int)
  match n.exponent with
  | none => scale? significand point
  | some (negative, digits) =>
    let e := Text.natOfDigits 0 digits
    if exponentMax < e then if significand ≠ 0 && !negative then none else some 0
    else scale? significand (if negative then point - e else point + e)

/-- The number that a numeral denotes, if it is in range. A zero with a minus sign is a double. -/
def Numeral.number? (n : Numeral) : Option Number :=
  let value : Int := Text.natOfDigits 0 n.whole
  let integer : Option Number :=
    if n.fraction.isSome || n.exponent.isSome then none
    else if n.negative then if value = 0 then none else Number.ofInt? (-value)
    else Number.ofInt? value
  match integer with
  | some i => some i
  | none => n.magnitude?.map fun x => .double (if n.negative then -x else x)

/-! ## Writing numbers -/

/-- Digits and a power of ten written out: in place while the point falls among or just before the
first sixteen places, else with an exponent; always with a point or an exponent. -/
def writeDigits (d : Decimal.Digits) : List Char :=
  let ds := Text.decimal d.digits
  let point : Int := ds.length + d.power
  if 0 ≤ d.power && point ≤ 16 then ds ++ List.replicate d.power.toNat '0' ++ ['.', '0']
  else if 0 < point && point ≤ 16 then ds.take point.toNat ++ '.' :: ds.drop point.toNat
  else if -5 < point && point ≤ 0 then '0' :: '.' :: List.replicate (-point).toNat '0' ++ ds
  else
    let exponent := 'e' :: (if point ≤ 0 then [] else ['+']) ++ Text.signed (point - 1)
    match ds with
    | [d] => d :: exponent
    | d :: ds => d :: '.' :: ds ++ exponent
    | [] => exponent

/-- The bit of a double that stands for the sign. -/
def signBit : Nat := 9223372036854775808

/-- A finite double in its shortest form. -/
def writeDouble (x : Float) : List Char :=
  let bits := x.toBits
  let sign := if signBit ≤ bits.toNat then ['-'] else []
  let size := bits.toNat % signBit
  if size = 0 then sign ++ ['0', '.', '0']
  else sign ++ writeDigits (Decimal.Binary.ofBits (UInt64.ofNat size)).shortest

/-- A number as JSON text. -/
def Number.write : Number → List Char
  | .integer i _ => Text.signed i
  | .double x => writeDouble x

end OrgForest.Json
