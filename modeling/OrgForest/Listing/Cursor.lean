import OrgForest.Bytes.Base64
import OrgForest.Bytes.Sha256
import OrgForest.Listing.Position

/-!
# Cursors and their tokens

A cursor says where a listing goes on: from which position, in which direction, and in which
listing. It never holds a count, so what is added or removed elsewhere does not shift a page.

A cursor travels as a token: its JSON payload in base64url, a dot, and in base64url the digest of
the payload under a secret. A token is accepted exactly when it is spelled this way and was made
for the same listing and direction.
-/

namespace OrgForest

/-- Which way a cursor goes on from its position. -/
inductive Direction where
  | after
  | before
deriving DecidableEq, Repr

namespace Direction

/-- The name of a direction. -/
def text : Direction → String
  | .after => "after"
  | .before => "before"

/-- A direction by its exact name. -/
def decode : Decoder Direction := Decoder.variant [("after", .after), ("before", .before)]

/-- A direction as JSON. -/
def toJson (d : Direction) : Json := .string d.text

end Direction

/-- Where a listing goes on. -/
structure Cursor where
  version : Nat
  key : SortKey
  order : SortOrder
  direction : Direction
  position : Position
deriving DecidableEq

namespace Cursor

/-- The version of the payload. -/
def currentVersion : Nat := 1

/-- A cursor of the current version. -/
def new (key : SortKey) (order : SortOrder) (direction : Direction) (position : Position) :
    Cursor :=
  ⟨currentVersion, key, order, direction, position⟩

/-- A cursor as JSON. -/
def toJson (c : Cursor) : Json :=
  .object [
    ("v", .number ((Json.Number.ofInt? c.version).getD (.ofUInt64 0))),
    ("sort_key", c.key.toJson),
    ("ascending", .bool (c.order == .ascending)),
    ("direction", c.direction.toJson),
    ("position", c.position.toJson)]

/-- The fields that have been read so far. -/
structure Parts where
  version : Option Nat
  key : Option SortKey
  ascending : Option Bool
  direction : Option Direction
  position : Option Position

/-- How a cursor is put together. -/
def shape (source : Source) : Shape Parts Cursor where
  name := "Cursor"
  fields := ["v", "sort_key", "ascending", "direction", "position"]
  start := ⟨none, none, none, none, none⟩
  put i d p :=
    match i with
    | 0 => return { p with version := some (← Decoder.byte d) }
    | 1 => return { p with key := some (← SortKey.decode d) }
    | 2 => return { p with ascending := some (← Decoder.bool d) }
    | 3 => return { p with direction := some (← Direction.decode d) }
    | _ => return { p with position := some (← (Position.shape source).decode source d) }
  finish p := do
    let version ← Shape.require 0 p.version
    let key ← Shape.require 1 p.key
    let ascending ← Shape.require 2 p.ascending
    let direction ← Shape.require 3 p.direction
    let position ← Shape.require 4 p.position
    return ⟨version, key, if ascending then .ascending else .descending, direction, position⟩

/-- Reads a cursor from a value. -/
def ofJson (v : Json) : Except DecodeError Cursor := (shape .value).decode .value v.document

/-! ## Tokens -/

/-- Why a token is refused. -/
inductive CursorError where
  | invalid
  | otherListing
  | otherDirection
deriving DecidableEq, Repr

/-- The fault in words. -/
def CursorError.message : CursorError → String
  | .invalid => "Invalid pagination cursor"
  | .otherListing => "Pagination cursor was issued for a different sort order"
  | .otherDirection => "Pagination cursor was issued for the opposite direction"

/-- The bytes of a cursor's payload. -/
def payload (c : Cursor) : List UInt8 := Text.bytes c.toJson.write

/-- The cursor that a payload spells. -/
def ofPayload? (bytes : List UInt8) : Option Cursor :=
  match Document.ofSymbols? (Text.symbolsOfBytes bytes) with
  | some d => ((shape .text).decode .text d).toOption
  | none => none

/-- A payload and its signature as a token. -/
def sign (secret payload : List UInt8) : List Char :=
  Base64.encode payload ++ '.' :: Base64.encode (Sha256.keyed secret payload)

/-- The token of a cursor under a secret of any bytes. -/
def encodeWith (secret : List UInt8) (c : Cursor) : String := String.ofList (sign secret c.payload)

/-- The token of a cursor. -/
def encode (secret : String) (c : Cursor) : String := c.encodeWith (Text.bytesOf secret)

/-- The payload of a token whose signature is right. -/
def verify? (secret : List UInt8) (token : List Char) : Option (List UInt8) :=
  let (head, tail) := token.span (· != '.')
  match tail with
  | [] => none
  | _ :: tail => do
    let payload ← Base64.decode? head
    let signature ← Base64.decode? tail
    if signature = Sha256.keyed secret payload then return payload else none

/-- The cursor of a token under a secret of any bytes, for a listing and a direction. -/
def decodeWith (secret : List UInt8) (token : String) (key : SortKey) (order : SortOrder)
    (direction : Direction) : Except CursorError Cursor :=
  -- Nothing is read from a payload before its signature has been found right.
  match (verify? secret (Text.trim token.toList)).bind ofPayload? with
  | none => throw .invalid
  | some c =>
    if c.version ≠ currentVersion then throw .invalid
    else if c.key ≠ key ∨ c.order ≠ order then throw .otherListing
    else if c.direction ≠ direction then throw .otherDirection
    else return c

/-- The cursor of a token, for a listing and a direction. -/
def decode (secret token : String) (key : SortKey) (order : SortOrder) (direction : Direction) :
    Except CursorError Cursor :=
  decodeWith (Text.bytesOf secret) token key order direction

end Cursor

end OrgForest
