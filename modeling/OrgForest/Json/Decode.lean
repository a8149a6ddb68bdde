import OrgForest.Json.Document
import OrgForest.Text.Diagnostic

/-!
# Decoding records

A decoder takes a document and gives a typed value or the first fault. Members are visited in the
order in which they stand, so the first fault is the first in the text, or, for a value, the first
by name. A record may also stand as an array of its fields in their declared order.

* `Decoder` — what all decoders are;
* `Decoder.text`, `Decoder.bool`, `Decoder.unsigned`, … — leaves;
* `Decoder.variant`, `Decoder.identifier` — one of a fixed set of names;
* `Shape` — how a record is put together from its fields, and `Shape.decode`, its decoder.
-/

namespace OrgForest

open Text (Symbol)

/-- What stood where something else was expected. -/
inductive Found where
  | null
  | bool (value : Bool)
  | number (value : Json.Number)
  | text (value : String)
  | sequence
  | map

namespace Found

/-- What was found, in words. -/
def describe : Found → String
  | .null => "null"
  | .bool b => s!"boolean `{b}`"
  | .number (.integer i h) => s!"integer `{String.ofList (Json.Number.integer i h).write}`"
  | .number (.double x) => s!"floating point `{String.ofList (Json.writeDouble x)}`"
  | .text s => s!"string {Text.diagnostic s}"
  | .sequence => "sequence"
  | .map => "map"

end Found

/-- Why a document does not fit. -/
inductive DecodeError where
  /-- Another kind of value was expected. -/
  | wrongType (found : Found) (expected : String)
  /-- The kind is right, the value is out of range. -/
  | wrongValue (found : Found) (expected : String)
  /-- An array has not the right number of items. -/
  | wrongLength (length : Nat) (expected : String)
  /-- More items follow in the text than the record has fields. -/
  | excessItems
  | missingField (name : String)
  | repeatedField (name : String)
  | unknownVariant (name : String) (expected : List String)
  /-- The reader of the text itself refused it, in these words. -/
  | refused (message : String)
  /-- The text has holes, or the numeral denotes no number, or the nesting is too deep. -/
  | unsound

namespace DecodeError

/-- Names in back quotes, as a choice. -/
def choice : List String → String
  | [] => "nothing"
  | [a] => s!"`{a}`"
  | [a, b] => s!"`{a}` or `{b}`"
  | names => "one of " ++ ", ".intercalate (names.map fun n => s!"`{n}`")

/-- The fault in words. -/
def message : DecodeError → String
  | .wrongType found expected => s!"invalid type: {found.describe}, expected {expected}"
  | .wrongValue found expected => s!"invalid value: {found.describe}, expected {expected}"
  | .wrongLength n expected => s!"invalid length {n}, expected {expected}"
  | .excessItems => "trailing characters"
  | .missingField name => s!"missing field `{name}`"
  | .repeatedField name => s!"duplicate field `{name}`"
  | .unknownVariant name expected => s!"unknown variant `{name}`, expected {choice expected}"
  | .refused message => message
  | .unsound => "unsound text"

end DecodeError

/-- Gives a typed value or the first fault. -/
abbrev Decoder (α : Type) : Type := Document → Except DecodeError α

namespace Decoder

/-! ## Leaves -/

/-- What a document is, unless it is unsound. -/
def found? : Document → Option Found
  | .null => some .null
  | .bool b => some (.bool b)
  | .number n => n.map .number
  | .string content => (Text.ofSymbols? content).map .text
  | .array _ => some .sequence
  | .object _ => some .map

/-- Refuses a document of the wrong kind. -/
def mismatch {α : Type} (expected : String) (d : Document) : Except DecodeError α :=
  match found? d with
  | some f => .error (.wrongType f expected)
  | none => .error .unsound

/-- A text, told to its reader as `expected`. -/
def textAs (expected : String) : Decoder String
  | .string content =>
    match Text.ofSymbols? content with
    | some s => .ok s
    | none => .error .unsound
  | d => mismatch expected d

/-- A text. -/
def text : Decoder String := textAs "a string"

/-- A boolean. -/
def bool : Decoder Bool
  | .bool b => .ok b
  | d => mismatch "a boolean" d

/-- An integer between `low` and `high`, both included. -/
def integer (expected : String) (low high : Int) : Decoder Int
  | .number (some (.integer i h)) =>
    if low ≤ i ∧ i ≤ high then .ok i else .error (.wrongValue (.number (.integer i h)) expected)
  | d => mismatch expected d

/-- An unsigned byte. -/
def byte : Decoder Nat := fun d => (integer "u8" 0 255 d).map Int.toNat

/-- An unsigned 64-bit word. -/
def unsigned : Decoder UInt64 :=
  fun d => (integer "u64" 0 18446744073709551615 d).map fun i => UInt64.ofNat i.toNat

/-- A signed 64-bit word. -/
def word : Decoder Int64 :=
  fun d => (integer "i64" (-9223372036854775808) 9223372036854775807 d).map Int64.ofInt

/-- Null. -/
def unit : Decoder Unit
  | .null => .ok ()
  | d => mismatch "unit" d

/-- Null, or what the decoder takes. -/
def optional {α : Type} (decode : Decoder α) : Decoder (Option α)
  | .null => .ok none
  | d => (decode d).map some

/-- An array of what the decoder takes. -/
def list {α : Type} (decode : Decoder α) : Decoder (List α)
  | .array items => items.mapM decode
  | d => mismatch "a sequence" d

/-- Any sound value, nested no deeper than `room` if that is given. -/
def value (room : Option Nat) : Decoder Json := fun d =>
  match d.value? (room.getD d.depth) with
  | some v => .ok v
  | none => .error .unsound

/-! ## Variants -/

/-- The variant of a name. -/
def named {α : Type} (cases : List (String × α)) (name : String) : Except DecodeError α :=
  match cases.find? (·.1 == name) with
  | some c => .ok c.2
  | none => .error (.unknownVariant name (cases.map (·.1)))

/-- One of a fixed set of names, as a text or as an object with this one name and null. -/
def variant {α : Type} (cases : List (String × α)) : Decoder α
  | .string content =>
    match Text.ofSymbols? content with
    | some s => named cases s
    | none => .error .unsound
  | .object [(name, d)] =>
    match Text.ofSymbols? name with
    | some s => do
      let a ← named cases s
      unit d
      return a
    | none => .error .unsound
  | .object _ => .error (.wrongValue .map "map with a single key")
  | d => mismatch "string or map" d

/-- One of a fixed set of names, as a text and in no other way. -/
def identifier {α : Type} (cases : List (String × α)) : Decoder α := fun d => do
  named cases (← textAs "variant identifier" d)

end Decoder

/-! ## Records -/

/-- Where a document comes from. The two differ in how they report an array with too many items. -/
inductive Source where
  | value
  | text
deriving DecidableEq, Repr

/-- The fault of an array that has `length` items where fewer fit. -/
def Source.excess (length : Nat) : Source → DecodeError
  | .value => .wrongLength length "fewer elements in array"
  | .text => .excessItems

/-- How a record of type `α` is put together: from the partial record `start`, by putting in
fields by number, and at the end by `finish`, which names the first required field that is
missing. -/
structure Shape (π α : Type) where
  name : String
  fields : List String
  start : π
  put : Nat → Document → π → Except DecodeError π
  finish : π → Except Nat α

namespace Shape

variable {π α : Type}

/-- What the record is called in a fault. -/
def title (s : Shape π α) : String := s!"struct {s.name}"

/-- Puts in members in order. Unknown names are skipped, a field that comes twice is refused. -/
def putMembers (s : Shape π α) :
    List Nat → List (List Symbol × Document) → π → Except DecodeError π
  | _, [], p => .ok p
  | seen, (name, d) :: ms, p =>
    match Text.ofSymbols? name with
    | none => .error .unsound
    | some name =>
      match s.fields.idxOf? name with
      | none => s.putMembers seen ms p
      | some i =>
        if i ∈ seen then .error (.repeatedField name)
        else
          match s.put i d p with
          | .ok p => s.putMembers (i :: seen) ms p
          | .error e => .error e

/-- Puts in items as the fields from number `i` on. -/
def putItems (s : Shape π α) : Nat → List Document → π → Except DecodeError π
  | _, [], p => .ok p
  | i, d :: ds, p =>
    match s.put i d p with
    | .ok p => s.putItems (i + 1) ds p
    | .error e => .error e

/-- The decoder of the record. -/
def decode (s : Shape π α) (source : Source) : Decoder α
  | .object members => do
    let p ← s.putMembers [] members s.start
    match s.finish p with
    | .ok a => return a
    | .error i => throw (.missingField (s.fields.getD i ""))
  | .array items => do
    let p ← s.putItems 0 (items.take s.fields.length) s.start
    match s.finish p with
    | .ok a =>
      if items.length ≤ s.fields.length then return a else throw (source.excess items.length)
    | .error i => throw (.wrongLength i s!"{s.title} with {s.fields.length} elements")
  | d => Decoder.mismatch s.title d

/-- Takes a required field, or names it. -/
def require {β : Type} (i : Nat) : Option β → Except Nat β
  | some b => .ok b
  | none => .error i

end Shape

end OrgForest
