import OrgForest.Organization.Json

/-!
# The order of a listing

A listing is sorted by creation time or by name, and by id among equals, so every organization has a
position of its own. A descending listing is the reverse of the ascending one. All positions of
listings by creation stand before all positions of listings by name.
-/

namespace OrgForest

/-- The direction of a sorted listing. -/
inductive SortOrder where
  | ascending
  | descending
deriving DecidableEq, Repr, Inhabited

namespace SortOrder

/-- The name of a direction. -/
def text : SortOrder → String
  | .ascending => "asc"
  | .descending => "desc"

/-- A text that names no direction, in small letters. -/
structure Unknown where
  name : String
deriving DecidableEq, Repr

/-- The fault in words. -/
def Unknown.message (u : Unknown) : String :=
  s!"Invalid sort order '{u.name}', expected asc or desc"

/-- Reads a direction without regard to case and surrounding blanks. -/
def read (s : String) : Except Unknown SortOrder :=
  let name := Text.lower (Text.trimmed s)
  if name = "asc" ∨ name = "ascending" then .ok .ascending
  else if name = "desc" ∨ name = "descending" then .ok .descending
  else .error ⟨name⟩

/-- The other direction. -/
def reverse : SortOrder → SortOrder
  | .ascending => .descending
  | .descending => .ascending

/-- How two things compare in this direction that compare so in the ascending one. -/
def apply : SortOrder → Ordering → Ordering
  | .ascending, o => o
  | .descending, o => o.swap

end SortOrder

/-- What a listing is sorted by. -/
inductive SortKey where
  | created
  | name
deriving DecidableEq, Repr, Inhabited

namespace SortKey

/-- The name of a key. -/
def text : SortKey → String
  | .created => "created"
  | .name => "name"

/-- The keys by their names. -/
def names : List (String × SortKey) := [("created", .created), ("name", .name)]

/-- A key by its exact name. -/
def decode : Decoder SortKey := Decoder.variant names

/-- A key as JSON. -/
def toJson (k : SortKey) : Json := .string k.text

end SortKey

/-- What an organization is sorted by. -/
inductive SortValue where
  | created (instant : Timestamp)
  | name (name : String)
deriving DecidableEq

namespace SortValue

/-- Creation times before names. -/
instance : Ord SortValue where
  compare
    | .created a, .created b => compare a b
    | .created _, .name _ => .lt
    | .name _, .created _ => .gt
    | .name a, .name b => compare a b

/-- A sort value as JSON, with its kind before it. -/
def toJson : SortValue → Json
  | .created t => .object [("type", .string "created"), ("value", t.toJson)]
  | .name n => .object [("type", .string "name"), ("value", .string n)]

/-- What a decoder takes a sort value for. -/
def title : String := "adjacently tagged enum SortValue"

/-- The value of a kind. -/
def decodeContent (k : SortKey) (d : Document) : Except DecodeError SortValue :=
  match k with
  | .created => return .created (← Timestamp.decode d)
  | .name => return .name (← Decoder.text d)

/-- The members that matter, told apart: the kind and the value. -/
def relevant : List (List Text.Symbol × Document) → Except DecodeError (List (Bool × Document))
  | [] => .ok []
  | (symbols, d) :: ms =>
    match Text.ofSymbols? symbols with
    | none => .error .unsound
    | some field => do
      let rest ← relevant ms
      if field = "type" then return (true, d) :: rest
      else if field = "value" then return (false, d) :: rest
      else return rest

/-- Refuses a further kind or value. -/
def endOfMembers (v : SortValue) : List (Bool × Document) → Except DecodeError SortValue
  | [] => .ok v
  | (true, _) :: _ => .error (.repeatedField "type")
  | (false, _) :: _ => .error (.repeatedField "value")

/-- Reads a sort value from its kind and value in either order, or from the array of the two. A
value that comes first is kept whole until its kind is known. In the array the kind is a text. -/
def decode (source : Source) : Decoder SortValue
  | .object members => do
    match ← relevant members with
    | [] => throw (.missingField "type")
    | [(true, kind)] =>
      let _ ← SortKey.decode kind
      throw (.missingField "value")
    | (true, kind) :: (true, _) :: _ =>
      let _ ← SortKey.decode kind
      throw (.repeatedField "type")
    | (true, kind) :: (false, content) :: rest =>
      let k ← SortKey.decode kind
      endOfMembers (← decodeContent k content) rest
    | (false, content) :: rest =>
      let _ ← Decoder.value (some Document.depthLimit) content
      match rest with
      | [] => throw (.missingField "type")
      | (false, _) :: _ => throw (.repeatedField "value")
      | (true, kind) :: rest =>
        let k ← SortKey.decode kind
        endOfMembers (← decodeContent k content) rest
  | .array items =>
    match items with
    | [] => throw (.wrongLength 0 title)
    | [kind] => do
      let _ ← Decoder.identifier SortKey.names kind
      throw (.wrongLength 1 title)
    | kind :: content :: rest => do
      let k ← Decoder.identifier SortKey.names kind
      let v ← decodeContent k content
      if rest.isEmpty then return v else throw (source.excess items.length)
  | d => Decoder.mismatch title d

end SortValue

/-- Where an organization stands in a listing. -/
structure Position where
  value : SortValue
  id : String
deriving DecidableEq

namespace Position

/-- By sort value, then by id. -/
instance : Ord Position where
  compare := compareLex (compareOn Position.value) (compareOn Position.id)

/-- The position of an organization. -/
def of (key : SortKey) (o : Organization) : Position :=
  match key with
  | .created => ⟨.created o.created, o.id⟩
  | .name => ⟨.name o.name, o.id⟩

/-- A position as JSON. -/
def toJson (p : Position) : Json := .object [("value", p.value.toJson), ("id", .string p.id)]

/-- How a position is put together. -/
def shape (source : Source) : Shape (Option SortValue × Option String) Position where
  name := "Position"
  fields := ["value", "id"]
  start := (none, none)
  put i d p :=
    match i with
    | 0 => return (some (← SortValue.decode source d), p.2)
    | _ => return (p.1, some (← Decoder.text d))
  finish p := return ⟨← Shape.require 0 p.1, ← Shape.require 1 p.2⟩

/-- Reads a position from a value. -/
def ofJson (v : Json) : Except DecodeError Position := (shape .value).decode .value v.document

end Position

namespace Organization

/-- How two organizations stand to each other in a listing. -/
def compareIn (key : SortKey) (order : SortOrder) (a b : Organization) : Ordering :=
  order.apply (compare (Position.of key a) (Position.of key b))

/-- Whether an organization comes strictly after a position in a listing. -/
def standsPast (p : Position) (key : SortKey) (order : SortOrder) (o : Organization) : Bool :=
  order.apply (compare p (Position.of key o)) == .lt

end Organization

end OrgForest
