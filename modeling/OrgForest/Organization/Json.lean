import OrgForest.Json.Decode
import OrgForest.Organization.Basic
import OrgForest.Time.Relaxed
import OrgForest.Time.Written

/-!
# Organizations as JSON

A record is written field by field in the order of its declaration; a missing description or
parent and empty projections are left out. A record is read from an object or from the array of
its fields. What was left out has a default: the empty id, an active status, no attributes,
version zero, and the present instant for the timestamps.
-/

namespace OrgForest

namespace Json

/-- A text as a member, or no member for none. -/
def textMember (name : String) : Option String → List (String × Json)
  | some s => [(name, .string s)]
  | none => []

/-- A list as a member, or no member for an empty one. -/
def listMember (name : String) : List Json → List (String × Json)
  | [] => []
  | vs => [(name, .array vs)]

end Json

/-- A timestamp in its relaxed form. -/
def Timestamp.decode : Decoder Timestamp := fun d => do
  let s ← Decoder.textAs "an RFC 3339 formatted date and time string" d
  match Time.readRelaxed s.toList with
  | .ok t => return t
  | .error e => throw (.refused e.message)

/-- A timestamp as JSON. -/
def Timestamp.toJson (t : Timestamp) : Json := .string t.text

namespace Status

/-- A status by its exact name. -/
def decode : Decoder Status := Decoder.variant [("ACTIVE", .active), ("DISABLED", .disabled)]

/-- A status as JSON. -/
def toJson (s : Status) : Json := .string s.text

end Status

namespace Attribute

/-- An attribute as JSON. -/
def toJson (a : Attribute) : Json := .object [("key", .string a.key), ("value", .string a.value)]

/-- How an attribute is put together. -/
def shape : Shape (Option String × Option String) Attribute where
  name := "OrganizationAttribute"
  fields := ["key", "value"]
  start := (none, none)
  put i d p :=
    match i with
    | 0 => return (some (← Decoder.text d), p.2)
    | _ => return (p.1, some (← Decoder.text d))
  finish p := return ⟨← Shape.require 0 p.1, ← Shape.require 1 p.2⟩

end Attribute

namespace ChildReference

/-- A child as JSON. -/
def toJson (c : ChildReference) : Json :=
  .object [("id", .string c.id), ("name", .string c.name), ("status", c.status.toJson)]

/-- How a child is put together. -/
def shape : Shape (Option String × Option String × Option Status) ChildReference where
  name := "ChildOrganization"
  fields := ["id", "name", "status"]
  start := (none, none, none)
  put i d p :=
    match i with
    | 0 => return (some (← Decoder.text d), p.2)
    | 1 => return (p.1, some (← Decoder.text d), p.2.2)
    | _ => return (p.1, p.2.1, some (← Status.decode d))
  finish p := return ⟨← Shape.require 0 p.1, ← Shape.require 1 p.2.1, ← Shape.require 2 p.2.2⟩

end ChildReference

namespace Organization

/-- An organization as JSON. -/
def toJson (o : Organization) : Json :=
  .object <|
    [("id", .string o.id), ("name", .string o.name)]
    ++ Json.textMember "description" o.description
    ++ [("status", o.status.toJson)]
    ++ Json.textMember "parentId" o.parentId
    ++ [("attributes", .array (o.attributes.map Attribute.toJson)),
      ("created", o.created.toJson), ("lastModified", o.lastModified.toJson),
      ("version", Json.ofUInt64 o.version)]
    ++ Json.listMember "children" (o.children.map ChildReference.toJson)
    ++ Json.listMember "permissions" (o.permissions.map Json.string)

/-- The fields of an organization that have been read so far. -/
structure Parts where
  id : Option String
  name : Option String
  description : Option (Option String)
  status : Option Status
  parentId : Option (Option String)
  attributes : Option (List Attribute)
  created : Option Timestamp
  lastModified : Option Timestamp
  version : Option UInt64
  children : Option (List ChildReference)
  permissions : Option (List String)

/-- How an organization is put together. -/
def shape (source : Source) (now : Timestamp) : Shape Parts Organization where
  name := "Organization"
  fields := ["id", "name", "description", "status", "parentId", "attributes", "created",
    "lastModified", "version", "children", "permissions"]
  start := ⟨none, none, none, none, none, none, none, none, none, none, none⟩
  put i d p :=
    match i with
    | 0 => return { p with id := some (← Decoder.text d) }
    | 1 => return { p with name := some (← Decoder.text d) }
    | 2 => return { p with description := some (← Decoder.optional Decoder.text d) }
    | 3 => return { p with status := some (← Status.decode d) }
    | 4 => return { p with parentId := some (← Decoder.optional Decoder.text d) }
    | 5 => return { p with attributes := some (← Decoder.list (Attribute.shape.decode source) d) }
    | 6 => return { p with created := some (← Timestamp.decode d) }
    | 7 => return { p with lastModified := some (← Timestamp.decode d) }
    | 8 => return { p with version := some (← Decoder.unsigned d) }
    | 9 =>
      return { p with children := some (← Decoder.list (ChildReference.shape.decode source) d) }
    | _ => return { p with permissions := some (← Decoder.list Decoder.text d) }
  finish p := do
    let name ← Shape.require 1 p.name
    return {
      id := p.id.getD ""
      name
      description := p.description.getD none
      status := p.status.getD .active
      parentId := p.parentId.getD none
      attributes := p.attributes.getD []
      created := p.created.getD now
      lastModified := p.lastModified.getD now
      version := p.version.getD 0
      children := p.children.getD []
      permissions := p.permissions.getD [] }

/-- Reads an organization from a value. -/
def ofJson (now : Timestamp) (v : Json) : Except DecodeError Organization :=
  (shape .value now).decode .value v.document

end Organization

namespace BasicOrganization

/-- What a listing shows, as JSON. -/
def toJson (o : BasicOrganization) : Json :=
  .object <|
    [("id", .string o.id), ("name", .string o.name), ("status", o.status.toJson)]
    ++ Json.textMember "parentId" o.parentId
    ++ [("created", o.created.toJson), ("lastModified", o.lastModified.toJson)]

/-- The fields that have been read so far. -/
structure Parts where
  id : Option String
  name : Option String
  status : Option Status
  parentId : Option (Option String)
  created : Option Timestamp
  lastModified : Option Timestamp

/-- How the record is put together. -/
def shape : Shape Parts BasicOrganization where
  name := "BasicOrganization"
  fields := ["id", "name", "status", "parentId", "created", "lastModified"]
  start := ⟨none, none, none, none, none, none⟩
  put i d p :=
    match i with
    | 0 => return { p with id := some (← Decoder.text d) }
    | 1 => return { p with name := some (← Decoder.text d) }
    | 2 => return { p with status := some (← Status.decode d) }
    | 3 => return { p with parentId := some (← Decoder.optional Decoder.text d) }
    | 4 => return { p with created := some (← Timestamp.decode d) }
    | _ => return { p with lastModified := some (← Timestamp.decode d) }
  finish p := return {
    id := ← Shape.require 0 p.id
    name := ← Shape.require 1 p.name
    status := ← Shape.require 2 p.status
    parentId := p.parentId.getD none
    created := ← Shape.require 4 p.created
    lastModified := ← Shape.require 5 p.lastModified }

/-- Reads the record from a value. -/
def ofJson (v : Json) : Except DecodeError BasicOrganization := shape.decode .value v.document

end BasicOrganization

end OrgForest
