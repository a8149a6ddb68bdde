/-!
# SHA-256 and the keyed digest built on it

The digest of FIPS 180-4 over lists of bytes, and the HMAC of RFC 2104 with it. Both always have
32 bytes.
-/

namespace OrgForest.Sha256

/-- The eight words that are carried from block to block. -/
structure State where
  a : UInt32
  b : UInt32
  c : UInt32
  d : UInt32
  e : UInt32
  f : UInt32
  g : UInt32
  h : UInt32
deriving DecidableEq

/-- The state before the first block. -/
def initial : State :=
  ⟨0x6a09e667, 0xbb67ae85, 0x3c6ef372, 0xa54ff53a, 0x510e527f, 0x9b05688c, 0x1f83d9ab, 0x5be0cd19⟩

/-- The constant of each of the 64 rounds. -/
def constants : List UInt32 := [
  0x428a2f98, 0x71374491, 0xb5c0fbcf, 0xe9b5dba5, 0x3956c25b, 0x59f111f1, 0x923f82a4, 0xab1c5ed5,
  0xd807aa98, 0x12835b01, 0x243185be, 0x550c7dc3, 0x72be5d74, 0x80deb1fe, 0x9bdc06a7, 0xc19bf174,
  0xe49b69c1, 0xefbe4786, 0x0fc19dc6, 0x240ca1cc, 0x2de92c6f, 0x4a7484aa, 0x5cb0a9dc, 0x76f988da,
  0x983e5152, 0xa831c66d, 0xb00327c8, 0xbf597fc7, 0xc6e00bf3, 0xd5a79147, 0x06ca6351, 0x14292967,
  0x27b70a85, 0x2e1b2138, 0x4d2c6dfc, 0x53380d13, 0x650a7354, 0x766a0abb, 0x81c2c92e, 0x92722c85,
  0xa2bfe8a1, 0xa81a664b, 0xc24b8b70, 0xc76c51a3, 0xd192e819, 0xd6990624, 0xf40e3585, 0x106aa070,
  0x19a4c116, 0x1e376c08, 0x2748774c, 0x34b0bcb5, 0x391c0cb3, 0x4ed8aa4a, 0x5b9cca4f, 0x682e6ff3,
  0x748f82ee, 0x78a5636f, 0x84c87814, 0x8cc70208, 0x90befffa, 0xa4506ceb, 0xbef9a3f7, 0xc67178f2]

/-- Rotation to the right. -/
def rotate (x n : UInt32) : UInt32 := (x >>> n) ||| (x <<< (32 - n))

/-- The words that four bytes each make up, the first byte the most significant. -/
def words : List UInt8 → List UInt32
  | a :: b :: c :: d :: bs =>
    ((a.toUInt32 <<< 24) ||| (b.toUInt32 <<< 16) ||| (c.toUInt32 <<< 8) ||| d.toUInt32) :: words bs
  | _ => []

/-- The bytes of a word. -/
def wordBytes (w : UInt32) : List UInt8 :=
  [(w >>> 24).toUInt8, (w >>> 16).toUInt8, (w >>> 8).toUInt8, w.toUInt8]

/-- A number of bits as eight bytes. -/
def lengthBytes (n : Nat) : List UInt8 :=
  [56, 48, 40, 32, 24, 16, 8, 0].map fun s => UInt8.ofNat (n / Nat.pow 2 s)

/-- A message filled up to whole blocks: one bit, zeros, and the length in bits. -/
def fill (message : List UInt8) : List UInt8 :=
  let zeros := (119 - message.length % 64) % 64
  message ++ 0x80 :: (List.replicate zeros 0 ++ lengthBytes (8 * message.length))

/-- One more word of the schedule of a block. -/
def nextWord (ws : Array UInt32) (i : Nat) : UInt32 :=
  let x := ws.getD (i - 15) 0
  let y := ws.getD (i - 2) 0
  let s := rotate x 7 ^^^ rotate x 18 ^^^ (x >>> 3)
  let t := rotate y 17 ^^^ rotate y 19 ^^^ (y >>> 10)
  ws.getD (i - 16) 0 + s + ws.getD (i - 7) 0 + t

/-- The 64 words of a block's schedule. -/
def schedule (block : List UInt32) : List UInt32 :=
  ((List.range 48).foldl (fun ws i => ws.push (nextWord ws (i + 16))) block.toArray).toList

/-- One round. -/
def round (s : State) (kw : UInt32 × UInt32) : State :=
  let t := rotate s.e 6 ^^^ rotate s.e 11 ^^^ rotate s.e 25
  let choice := (s.e &&& s.f) ^^^ (~~~s.e &&& s.g)
  let x := s.h + t + choice + kw.1 + kw.2
  let u := rotate s.a 2 ^^^ rotate s.a 13 ^^^ rotate s.a 22
  let majority := (s.a &&& s.b) ^^^ (s.a &&& s.c) ^^^ (s.b &&& s.c)
  ⟨x + u + majority, s.a, s.b, s.c, s.d + x, s.e, s.f, s.g⟩

/-- The state after one more block. -/
def absorb (s : State) (block : List UInt32) : State :=
  let r := (constants.zip (schedule block)).foldl round s
  ⟨s.a + r.a, s.b + r.b, s.c + r.c, s.d + r.d, s.e + r.e, s.f + r.f, s.g + r.g, s.h + r.h⟩

/-- The state after at most `fuel` blocks of sixteen words. -/
def absorbAll : Nat → State → List UInt32 → State
  | 0, s, _ => s
  | _, s, [] => s
  | fuel + 1, s, ws => absorbAll fuel (absorb s (ws.take 16)) (ws.drop 16)

/-- The bytes of a state. -/
def State.toBytes (s : State) : List UInt8 :=
  wordBytes s.a ++ wordBytes s.b ++ wordBytes s.c ++ wordBytes s.d ++
    wordBytes s.e ++ wordBytes s.f ++ wordBytes s.g ++ wordBytes s.h

/-- The digest of a message. -/
def digest (message : List UInt8) : List UInt8 :=
  let ws := words (fill message)
  (absorbAll ws.length initial ws).toBytes

/-! ## Keyed digest -/

/-- A key as one block: a longer one is digested first, and zeros fill it up. -/
def keyBlock (key : List UInt8) : List UInt8 :=
  let key := if 64 < key.length then digest key else key
  key ++ List.replicate (64 - key.length) 0

/-- The digest of a message under a key. -/
def keyed (key message : List UInt8) : List UInt8 :=
  let block := keyBlock key
  digest (block.map (· ^^^ 0x5c) ++ digest (block.map (· ^^^ 0x36) ++ message))

end OrgForest.Sha256
