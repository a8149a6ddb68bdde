/-!
# The shortest decimal of a binary number

A positive double is `m * 2 ^ q` for natural `m` and integer `q`. The reals nearer to it than to
its neighbours form an interval, whose ends belong to it exactly when `m` is even. Among the
decimals in that interval those with the fewest digits are wanted, of these the nearest to the
number itself, and of two equally near ones the one whose last digit is even.

The search goes over the grids of the multiples of `10 ^ k`, the coarsest first: if a grid has a
point in the interval then one of the two neighbours of the number on that grid is such a point.
-/

namespace OrgForest.Decimal

/-- A positive number `mantissa * 2 ^ exponent`. `narrow` says that the next smaller double is only
half as far away as the next larger one. -/
structure Binary where
  mantissa : Nat
  exponent : Int
  narrow : Bool
deriving DecidableEq, Repr

/-- The leading bit that the fifty-two stored bits of a mantissa leave out. -/
def hiddenBit : Nat := 4503599627370496

/-- The number behind the bits of a positive finite double. -/
def Binary.ofBits (bits : UInt64) : Binary :=
  let fraction : Nat := bits.toNat % hiddenBit
  let field : Nat := bits.toNat / hiddenBit % 2048
  if field = 0 then ⟨fraction, -1074, false⟩
  else ⟨fraction + hiddenBit, Int.ofNat field - 1075, fraction == 0 && field != 1⟩

/-- Digits and a power of ten: the number `digits * 10 ^ power`. -/
structure Digits where
  digits : Nat
  power : Int
deriving DecidableEq, Repr

/-- The best multiple of `10 ^ k` in the interval of `b`, if there is one. -/
def Binary.onGrid (b : Binary) (k : Int) : Option Digits :=
  let scale := Nat.pow 2 (b.exponent - 2).toNat * Nat.pow 10 (-k).toNat
  let unit := Nat.pow 2 (2 - b.exponent).toNat * Nat.pow 10 k.toNat
  let value := 4 * b.mantissa * scale
  let low := (4 * b.mantissa - if b.narrow then 1 else 2) * scale
  let high := (4 * b.mantissa + 2) * scale
  let inside (d : Nat) : Bool :=
    let x := d * unit
    if b.mantissa % 2 = 0 then low ≤ x && x ≤ high else low < x && x < high
  let below := value / unit
  let above := below + 1
  match inside below, inside above with
  | false, false => none
  | true, false => some ⟨below, k⟩
  | false, true => some ⟨above, k⟩
  | true, true =>
    let down := value - below * unit
    let up := above * unit - value
    if down < up then some ⟨below, k⟩
    else if up < down then some ⟨above, k⟩
    else if below % 2 = 0 then some ⟨below, k⟩ else some ⟨above, k⟩

/-- The first hit on the grids `10 ^ k`, `10 ^ (k - 1)`, …, over `steps` grids. -/
def Binary.search (b : Binary) : Nat → Int → Digits
  | 0, k => ⟨b.mantissa, k⟩
  | steps + 1, k =>
    match b.onGrid k with
    | some d => d
    | none => b.search steps (k - 1)

/-- The shortest decimal of a positive double: no double reaches `10 ^ 309`, and every one is a
multiple of `10 ^ (-1074)`. -/
def Binary.shortest (b : Binary) : Digits := b.search 1384 309

end OrgForest.Decimal
