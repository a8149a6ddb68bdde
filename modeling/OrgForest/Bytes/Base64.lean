/-!
# Bytes as base64url

Three bytes are four symbols of an alphabet of sixty-four; a rest of one or two bytes is two or
three symbols, and nothing is filled up. Reading is strict: it accepts exactly what writing
produces, so the bits that a short last group leaves over have to be zero.
-/

namespace OrgForest.Base64

/-- The symbol of a six-bit number. -/
def symbol (n : Nat) : Char :=
  if n < 26 then Char.ofNat ('A'.toNat + n)
  else if n < 52 then Char.ofNat ('a'.toNat + (n - 26))
  else if n < 62 then Char.ofNat ('0'.toNat + (n - 52))
  else if n = 62 then '-'
  else '_'

/-- The six-bit number of a symbol. -/
def value? (c : Char) : Option Nat :=
  if 'A' ≤ c && c ≤ 'Z' then some (c.toNat - 'A'.toNat)
  else if 'a' ≤ c && c ≤ 'z' then some (c.toNat - 'a'.toNat + 26)
  else if '0' ≤ c && c ≤ '9' then some (c.toNat - '0'.toNat + 52)
  else if c = '-' then some 62
  else if c = '_' then some 63
  else none

/-- Bytes in symbols. -/
def encode : List UInt8 → List Char
  | a :: b :: c :: bs =>
    let n := (a.toNat * 256 + b.toNat) * 256 + c.toNat
    symbol (n / 262144) :: symbol (n / 4096 % 64) :: symbol (n / 64 % 64) :: symbol (n % 64) ::
      encode bs
  | [a, b] =>
    let n := (a.toNat * 256 + b.toNat) * 4
    [symbol (n / 4096), symbol (n / 64 % 64), symbol (n % 64)]
  | [a] =>
    let n := a.toNat * 16
    [symbol (n / 64), symbol (n % 64)]
  | [] => []

/-- The bytes that symbols stand for. -/
def decode? : List Char → Option (List UInt8)
  | a :: b :: c :: d :: cs => do
    let n := (((← value? a) * 64 + (← value? b)) * 64 + (← value? c)) * 64 + (← value? d)
    let bs ← decode? cs
    return UInt8.ofNat (n / 65536) :: UInt8.ofNat (n / 256 % 256) :: UInt8.ofNat (n % 256) :: bs
  | [a, b, c] => do
    let n := ((← value? a) * 64 + (← value? b)) * 64 + (← value? c)
    if n % 4 = 0 then return [UInt8.ofNat (n / 1024), UInt8.ofNat (n / 4 % 256)] else none
  | [a, b] => do
    let n := (← value? a) * 64 + (← value? b)
    if n % 16 = 0 then return [UInt8.ofNat (n / 16)] else none
  | [_] => none
  | [] => some []

end OrgForest.Base64
